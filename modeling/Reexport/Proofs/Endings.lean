import Reexport.Proofs.Contexts

/-!
# Runs that are not interrupted

A run stops short where a module that it scans exports a name without text, or where reading a module
breaks off. `Unhindered r S` says that no module with the property `S` brings it to such a place.
Modules that were taken up before the run began are never resolved by it, so nothing is asked of
them.

## What is proved

* `ends_resolveWithin`, `ends_resolveSource` — where nothing hinders them, runs of any depth end.
* `exists_leafResult_iff` — what is to be scanned in the place of an entry.
* `exists_readResult_withLocked` — reading from memory never interrupts a run.
-/

namespace Reexport

open Resolving

namespace Resolver

variable {r : Resolver} {descend : String → Resolving (List Entry)} {directory : String}
  {p : Progress} {S : String → Prop} {taken : List String}

/-- An entry leads to no place where a run stops short, as seen from a directory. -/
structure Passable (r : Resolver) (S : String → Prop) (directory : String) (e : Entry) : Prop where
  /-- A barrel behind it has the property. -/
  barrel {target nested : String} (lead : Leads r.files directory e target nested)
    (hbarrel : isBarrel (moduleEntries nested) = true) : S target
  /-- What is to be scanned can be. -/
  leaf {target nested : String} (lead : Leads r.files directory e target nested)
    (hleaf : isBarrel (moduleEntries nested) = false) :
    ∃ new, r.leafResult e target nested = .ok new

/-- Modules with the property `S` that were not taken up before lead only to modules with it, and
none stops the traversal. -/
structure Unhindered (r : Resolver) (S : String → Prop) (taken : List String := []) : Prop where
  /-- A module that cannot be read is passed over. -/
  read (path : String) : ∃ out, readResult r.files path = .ok out
  /-- The entries of a module that is resolved can be passed. -/
  entry {path content : String} {e : Entry} (hpath : S path) (hopen : Path.normalize path ∉ taken)
    (hread : r.files.read (Path.normalize path) = .ok content) (he : e ∈ moduleEntries content) :
    Passable r S (Path.directory (Path.normalize path)) e

/-! ### Runs -/

theorem ends_resolveEntry (hread : ∀ path, ∃ out, readResult r.files path = .ok out) {e : Entry}
    (he : Passable r S directory e)
    (hdescend : ∀ target p, S target → (∀ v ∈ taken, v ∈ p.context.visited) →
      Ends (descend target) p)
    (hp : ∀ v ∈ taken, v ∈ p.context.visited) : Ends (r.resolveEntry descend directory e) p := by
  unfold resolveEntry
  split
  · exact ends_pure _ p
  split
  · exact (ends_report _ p).bind fun _ _ _ => ends_pure _ _
  rename_i target hloc
  obtain ⟨out, hout⟩ := hread target
  have hquiet := quiet_readModule r target
  rw [hout] at hquiet
  refine (hquiet.ends p).bind fun out' o h => ?_
  obtain ⟨heq, ho⟩ := hquiet.yields h
  cases heq
  cases out with
  | none => exact ends_pure _ o
  | some nested =>
    have lead : Leads r.files _ e target nested := ⟨hloc, readResult_eq_some_iff.1 hout⟩
    show Ends (if isBarrel (moduleEntries nested) = true then _ else _) o
    split
    · rename_i hbarrel
      exact (hdescend target o (he.barrel lead hbarrel) (by rwa [ho])).bind fun _ _ _ =>
        ends_pure _ _
    · rename_i hleaf
      obtain ⟨new, hnew⟩ := he.leaf lead (by simpa using hleaf)
      have hleaf := quiet_leafEntries r e target nested
      rw [hnew] at hleaf
      exact hleaf.ends o

theorem ends_resolveContent (hread : ∀ path, ∃ out, readResult r.files path = .ok out)
    {path content : String}
    (hentries : ∀ e ∈ moduleEntries content, Passable r S (Path.directory path) e)
    (hgrowing : ∀ target, Growing (descend target))
    (hdescend : ∀ target p, S target → (∀ v ∈ taken, v ∈ p.context.visited) →
      Ends (descend target) p)
    (hp : ∀ v ∈ taken, v ∈ p.context.visited) :
    Ends (r.resolveContent descend path content) p := by
  obtain ⟨news, q, hnews⟩ := ends_mapM_of (fun p => ∀ v ∈ taken, v ∈ p.context.visited)
    (fun e he p hp => ends_resolveEntry hread (hentries e he) hdescend hp)
    (fun e _ p _ q hp h v hv =>
      ((growing_resolveEntry hgrowing _ e).yields h).visited v (hp v hv)) hp
  have hall : Ends (r.resolveAll descend (Path.directory path) [] (moduleEntries content)) p :=
    ⟨_, q, yields_resolveAll_iff.2 ⟨news, hnews, rfl⟩⟩
  exact hall.bind fun _ o _ => (ends_report _ o).bind fun _ _ _ => ends_pure _ _

theorem ends_resolvePath (hS : Unhindered r S taken) (hgrowing : ∀ target, Growing (descend target))
    (hdescend : ∀ target p, S target → (∀ v ∈ taken, v ∈ p.context.visited) →
      Ends (descend target) p)
    {path : String} (hpath : S path) (hp : ∀ v ∈ taken, v ∈ p.context.visited) :
    Ends (r.resolvePath descend path) p := by
  refine (ends_context p).bind fun known o ho => ?_
  obtain ⟨rfl, rfl⟩ := yields_context_iff.1 ho
  split
  · exact ends_pure _ o
  split
  · exact (ends_report _ o).bind fun _ _ _ => ends_pure _ _
  rename_i hnew
  refine (ends_updateContext _ o).bind fun _ o₁ ho₁ => ?_
  have ho₁ : ∀ v ∈ taken, v ∈ o₁.context.visited := fun v hv => by
    rw [yields_updateContext_iff.1 ho₁]
    exact Context.mem_visited_visit.2 (.inl (hp v hv))
  obtain ⟨out, hout⟩ := hS.read (Path.normalize path)
  have hquiet := quiet_readModule r (Path.normalize path)
  rw [hout] at hquiet
  refine (hquiet.ends o₁).bind fun out' o₂ h => ?_
  obtain ⟨heq, ho₂⟩ := hquiet.yields h
  cases heq
  cases out with
  | none => exact ends_pure _ o₂
  | some content =>
    have hopen : Path.normalize path ∉ taken := fun hv => hnew (hp _ hv)
    have hentries := fun e he =>
      hS.entry (e := e) hpath hopen (readResult_eq_some_iff.1 hout) he
    exact (ends_resolveContent hS.read hentries hgrowing hdescend (by rwa [ho₂])).bind
      fun _ o _ => (ends_updateContext _ o).bind fun _ _ _ => ends_pure _ _

/-- From a module that nothing hinders, a run of any depth ends, with some modules taken up before. -/
theorem ends_resolveWithin_of_taken (hS : Unhindered r S taken) (depth : Nat) {path : String}
    (hpath : S path) (hp : ∀ v ∈ taken, v ∈ p.context.visited) :
    Ends (r.resolveWithin depth path) p := by
  induction depth generalizing path p with
  | zero => exact ends_pure _ p
  | succ depth ih =>
    exact ends_resolvePath hS (growing_resolveWithin r depth) (fun _ _ h hp => ih h hp) hpath hp

theorem ends_resolveWithin (hS : Unhindered r S) (depth : Nat) {path : String} (hpath : S path)
    (p : Progress) : Ends (r.resolveWithin depth path) p :=
  ends_resolveWithin_of_taken hS depth hpath nofun

/-- So does a run for a module whose text is at hand. Its own path is taken up first. -/
theorem ends_resolveSource_of_taken (hS : Unhindered r S taken) {path content : String}
    (hentries : ∀ e ∈ moduleEntries content,
      Passable r S (Path.directory (Path.normalize path)) e)
    (hp : ∀ v ∈ taken, v ∈ p.context.visited ∨ v = Path.normalize path) :
    Ends (r.resolveSource content path) p := by
  refine (ends_updateContext _ p).bind fun _ o ho => ?_
  have ho : ∀ v ∈ taken, v ∈ o.context.visited := fun v hv => by
    rw [yields_updateContext_iff.1 ho]
    exact Context.mem_visited_visit.2 (hp v hv)
  exact ends_resolveContent hS.read hentries (growing_resolveWithin r r.depth)
    (fun _ _ h hp => ends_resolveWithin_of_taken hS r.depth h hp) ho

theorem ends_resolveSource (hS : Unhindered r S) {path content : String} (hpath : S path)
    (hread : r.files.read (Path.normalize path) = .ok content) (p : Progress) :
    Ends (r.resolveSource content path) p :=
  ends_resolveSource_of_taken hS (fun _ he => hS.entry hpath List.not_mem_nil hread he) nofun

/-! ### What can stop a run -/

/-- Reading from memory never interrupts a run, even if some modules may not be read. -/
theorem exists_readResult_withLocked (m : MemoryFiles) (locked : List String) (path : String) :
    ∃ out, readResult (m.files.withLocked locked) path = .ok out := by
  cases hread : (m.files.withLocked locked).read path with
  | ok content => exact ⟨some content, readResult_eq_some_iff.2 hread⟩
  | error why =>
    refine ⟨none, ?_⟩
    have hwhy : why = .locked ∨ why = .absent := by
      have hread : (if path ∈ locked then .error .locked else m.read path) = .error why := hread
      split at hread
      · exact .inl (Except.error.inj hread).symm
      · unfold MemoryFiles.read at hread
        split at hread <;> cases hread
        exact .inr rfl
    rcases hwhy with rfl | rfl <;> rw [readResult, hread] <;> rfl

theorem exists_readResult (m : MemoryFiles) (path : String) :
    ∃ out, readResult m.files path = .ok out :=
  exists_readResult_withLocked m [] path

/-- The names that a module declares itself are looked for, to take the place of an entry. -/
def Scans (r : Resolver) (e : Entry) (target content : String) : Prop :=
  e.isBareStar = true ∧
    (r.flatten = true ∨ moduleEntries content = [] ∧ isTypesModule e.source target = true)

/-- Entries made of a scan are found if the scan is, where it is needed. -/
theorem exists_scanned {c : Prop} [Decidable c] {target content : String}
    (h : c → ∃ s, scan target content = .ok s) (make : DeclarationScan → List Entry) :
    ∃ out, (if c then (scan target content).mapError Interruption.declared >>= fun s => .ok (make s)
      else .ok []) = .ok out := by
  split
  · rename_i hc
    obtain ⟨s, hscan⟩ := h hc
    exact ⟨make s, by rw [hscan]; rfl⟩
  · exact ⟨[], rfl⟩

/-- What takes the place of an entry is known exactly if its module can be scanned, or need not be. -/
theorem exists_leafResult_iff {e : Entry} {target content : String} :
    (∃ new, r.leafResult e target content = .ok new) ↔
      (r.Scans e target content → ∃ s, scan target content = .ok s) := by
  constructor
  · rintro ⟨new, h⟩ ⟨hstar, hwhy⟩
    obtain ⟨types, htypes, h⟩ := bind_eq_ok_iff.1 h
    rcases hwhy with hflat | ⟨hnil, hmodule⟩
    · split at h
      · rename_i hne
        obtain ⟨x, hx⟩ := List.exists_mem_of_ne_nil types (by simpa using hne)
        obtain ⟨-, s, -, -, hscan, -⟩ := ofDeclared_of_mem_typesResult htypes hx
        exact ⟨s, hscan⟩
      · obtain ⟨names, hnames, -⟩ := bind_eq_ok_iff.1 h
        rw [namesResult, hflat, hstar, Bool.and_self, if_pos rfl] at hnames
        obtain ⟨s, hscan, -⟩ := bind_eq_ok_iff.1 hnames
        exact ⟨s, mapError_eq_ok_iff.1 hscan⟩
    · rw [typesResult, hstar, hnil, hmodule] at htypes
      obtain ⟨s, hscan, -⟩ := bind_eq_ok_iff.1 htypes
      exact ⟨s, mapError_eq_ok_iff.1 hscan⟩
  · intro h
    obtain ⟨types, htypes⟩ : ∃ types, typesResult e target content = .ok types := by
      refine exists_scanned (fun hc => h ?_) _
      simp only [Bool.and_eq_true, List.isEmpty_iff] at hc
      exact ⟨hc.1.1, .inr ⟨hc.1.2, hc.2⟩⟩
    obtain ⟨names, hnames⟩ : ∃ names, r.namesResult e target content = .ok names := by
      refine exists_scanned (fun hc => h ?_) _
      rw [Bool.and_eq_true] at hc
      exact ⟨hc.2, .inl hc.1⟩
    rw [leafResult, htypes, hnames]
    show ∃ new, (if !types.isEmpty then .ok types else _) = Except.ok new
    split
    · exact ⟨types, rfl⟩
    · exact ⟨_, rfl⟩

/-- In memory, nothing stops the traversal but a module that cannot be scanned. -/
theorem unhindered_of_scans (m : MemoryFiles) (flatten : Bool)
    (h : ∀ path content, m.files.read path = .ok content → ∃ s, scan path content = .ok s) :
    Unhindered ⟨m.files, flatten⟩ fun _ => True where
  read := exists_readResult m
  entry _ _ _ _ := ⟨fun _ _ => trivial, fun lead _ =>
    exists_leafResult_iff.2 fun _ => h _ _ lead.read⟩

end Resolver

end Reexport
