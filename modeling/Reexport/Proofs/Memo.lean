import Reexport.Proofs.Reachable

/-!
# Lists that are recorded

A module that was resolved once is not resolved again: later calls take its list from the context.
Where no barrel leads back to itself, this makes no difference. `Resolves` gives the list of a module
by plain recursion, with no context at all, and every list that is found or recorded is the one it
gives.

A module that is taken up and not recorded gives an empty list when it turns up again. In an acyclic
place this is right: such a module cannot be read, for if it were still being resolved, it would have
led to itself. `Sound` says so of the modules in a context, but for those that are `pending`.

## What is proved

* `Resolves.unique` — plain recursion gives one list at most.
* `resolves_resolveWithin` — from a sound context, a call of enough depth for a module that leads to no
  cycle finds this list, and records none but such lists.
* `mapM_resolveFile_fresh` — so calls that share a context give what each would give on its own.
* `MemoryFiles.Ranked.acyclic` — a test for acyclic places.
-/

namespace Reexport

open Resolving Relation

/-- No barrel leads back to itself. -/
def Files.Acyclic (files : Files) : Prop :=
  ∀ v, ¬TransGen files.BarrelEdge v v

/-- No barrel that can be reached from a module leads back to itself. -/
def Files.AcyclicFrom (files : Files) (path : String) : Prop :=
  ∀ v, ReflTransGen files.BarrelEdge path v → ¬TransGen files.BarrelEdge v v

theorem Files.AcyclicFrom.of_edge {files : Files} {path next : String} (h : files.AcyclicFrom path)
    (hedge : files.BarrelEdge path next) : files.AcyclicFrom next :=
  fun v hv => h v (.head hedge hv)

namespace Resolver

variable {r : Resolver} {descend : String → Resolving (List Entry)} {path : String}
  {found : List Entry} {c c' : Context} {p q : Progress}

/-! ### Plain recursion -/

/-- The list of the module at a normal path: its entries are replaced, where the lists of barrels are
found in the same way. On a cycle no list is found. -/
inductive Resolves (r : Resolver) : String → List Entry → Prop where
  /-- A module that cannot be read gives nothing. -/
  | unreadable {path : String} (hread : ∀ content, r.files.read path ≠ .ok content) :
      Resolves r path []
  /-- A module is resolved from the lists `Q` of the barrels behind its entries. -/
  | resolved {path content : String} {news : List (List Entry)} {Q : String → List Entry → Prop}
      (hread : r.files.read path = .ok content)
      (hnews : List.Forall₂ (Replaced r (Path.directory path) Q) (moduleEntries content) news)
      (hQ : ∀ target nested, Q target nested → Resolves r (Path.normalize target) nested) :
      Resolves r path (merged news.flatten)

/-- **Plain recursion gives one list.** -/
theorem Resolves.unique (h : Resolves r path found) {found' : List Entry}
    (h' : Resolves r path found') : found' = found := by
  induction h generalizing found' with
  | unreadable hread =>
    cases h' with
    | unreadable => rfl
    | resolved hread' => exact absurd hread' (hread _)
  | resolved hread hnews hQ ih =>
    cases h' with
    | unreadable hread' => exact absurd hread (hread' _)
    | resolved hread' hnews' hQ' =>
      obtain rfl := Except.ok.inj (hread'.symm.trans hread)
      have hsame := eq_of_forall₂ hnews hnews' fun e new new' hnew hnew' =>
        hnew.unique hnew' fun target nested nested' hn hn' => ih target nested hn (hQ' _ _ hn')
      rw [hsame]

/-! ### Sound contexts -/

/-- The lists in a context are those of plain recursion, and every module that was taken up is
settled or pending. -/
structure Sound (r : Resolver) (pending : String → Prop) (c : Context) : Prop where
  lists : Records (Resolves r) c
  settled : ∀ v ∈ c.visited, Settled r.files c v ∨ pending v

namespace Sound

variable {pending pending' : String → Prop}

theorem empty (r : Resolver) (pending : String → Prop) : Sound r pending {} :=
  ⟨records_empty _, nofun⟩

theorem mono (h : Sound r pending c) (hpending : ∀ v, pending v → pending' v) :
    Sound r pending' c :=
  ⟨h.lists, fun v hv => (h.settled v hv).imp_right (hpending v)⟩

/-- A call settles what it takes up. -/
theorem spreads (h : Sound r pending c) (hspreads : Spreads r.files path c c')
    (hlists : Records (Resolves r) c') : Sound r pending c' := by
  refine ⟨hlists, fun v hv => ?_⟩
  rcases hspreads.taken v hv with hv | ⟨-, hsettled⟩
  · exact (h.settled v hv).imp_left fun hsettled => hsettled.mono hspreads.grows hv
  · exact .inl hsettled

/-- A module that is taken up is pending. -/
theorem visit (h : Sound r pending c) (hpath : Path.normalize path = path) (hpending : pending path) :
    Sound r pending (c.visit path) := by
  refine ⟨h.lists.visit path, fun v hv => ?_⟩
  rcases Context.mem_visited_visit.1 hv with hv | rfl
  · exact (h.settled v hv).imp_left fun hsettled => hsettled.mono (.visit c hpath) hv
  · exact .inr hpending

end Sound

/-! ### Calls -/

/-- A specification of calls: if the modules from which the known module can be reached are the only
ones pending, and it leads to no cycle, a call for it finds its list. -/
def Recurses (r : Resolver) (known : List String) (bound : Nat)
    (descend : String → Resolving (List Entry)) : Prop :=
  ∀ {target p nested q}, Path.normalize target ∈ known →
    r.files.AcyclicFrom (Path.normalize target) → unvisited known p.context < bound →
    Sound r (TransGen r.files.BarrelEdge · (Path.normalize target)) p.context →
    Yields (descend target) p nested q →
    Spreads r.files (Path.normalize target) p.context q.context ∧
      Records (Resolves r) q.context ∧ Resolves r (Path.normalize target) nested

variable {known : List String} {bound : Nat} {pending : String → Prop} {directory : String}

/-- One entry, while all that is pending leads to the barrel behind it. -/
theorem resolves_resolveEntry
    (hknown : ∀ path, r.files.holds path = true → Path.normalize path ∈ known)
    (hdescend : Recurses r known bound descend) {e : Entry}
    (hlead : ∀ {target content}, Leads r.files directory e target content →
      isBarrel (moduleEntries content) = true → r.files.AcyclicFrom (Path.normalize target) ∧
        ∀ v, pending v → TransGen r.files.BarrelEdge v (Path.normalize target))
    (hsound : Sound r pending p.context) (hleft : unvisited known p.context < bound)
    {new : List Entry} (h : Yields (r.resolveEntry descend directory e) p new q) :
    (Sound r pending q.context ∧ unvisited known q.context < bound) ∧
      Replaced r directory (fun target => Resolves r (Path.normalize target)) e new := by
  cases resolveEntry_call h with
  | astray hnone hq =>
    rw [hq]
    exact ⟨⟨hsound, hleft⟩, .astray hnone⟩
  | barrel lead hbarrel ho hnested =>
    rw [← ho] at hsound hleft
    obtain ⟨hacyclic, hpending⟩ := hlead lead hbarrel
    obtain ⟨hspreads, hlists, hlist⟩ :=
      hdescend (hknown _ lead.holds) hacyclic hleft (hsound.mono hpending) hnested
    exact ⟨⟨hsound.spreads hspreads hlists,
      lt_of_le_of_lt (unvisited_le hspreads.grows.visited) hleft⟩, .barrel lead hbarrel hlist⟩
  | leaf lead hleaf hnew hq =>
    rw [hq]
    exact ⟨⟨hsound, hleft⟩, .leaf lead hleaf hnew⟩

/-- Entries, one after another. -/
theorem resolves_mapM
    (hknown : ∀ path, r.files.holds path = true → Path.normalize path ∈ known)
    (hdescend : Recurses r known bound descend) {entries : List Entry}
    (hlead : ∀ e ∈ entries, ∀ {target content}, Leads r.files directory e target content →
      isBarrel (moduleEntries content) = true → r.files.AcyclicFrom (Path.normalize target) ∧
        ∀ v, pending v → TransGen r.files.BarrelEdge v (Path.normalize target))
    (hsound : Sound r pending p.context) (hleft : unvisited known p.context < bound)
    {news : List (List Entry)}
    (h : Yields (entries.mapM (r.resolveEntry descend directory)) p news q) :
    Sound r pending q.context ∧
      List.Forall₂ (Replaced r directory fun target => Resolves r (Path.normalize target)) entries
        news := by
  obtain ⟨⟨hafter, -⟩, hall⟩ := yields_mapM
    (fun o => Sound r pending o.context ∧ unvisited known o.context < bound)
    (fun e he _ _ _ ho h => resolves_resolveEntry hknown hdescend (hlead e he) ho.1 ho.2 h)
    ⟨hsound, hleft⟩ h
  exact ⟨hafter, hall⟩

/-- **A call finds the list of plain recursion**, at every depth that exceeds the number of modules
left, whatever was recorded before. -/
theorem resolves_resolveWithin
    (hknown : ∀ path, r.files.holds path = true → Path.normalize path ∈ known) (depth : Nat) :
    Recurses r known depth (r.resolveWithin depth) := by
  induction depth with
  | zero => exact fun _ _ hleft => absurd hleft (Nat.not_lt_zero _)
  | succ depth ih =>
    intro target p nested q htarget hacyclic hleft hsound h
    refine ⟨spreads_resolveWithin _ h, ?_⟩
    cases resolveWithin_call h with
    | recorded hrec => exact ⟨hsound.lists, hsound.lists.recorded? hrec⟩
    | cycle hnew hvisited hq =>
      rw [hq]
      refine ⟨hsound.lists, ?_⟩
      rcases hsound.settled _ hvisited with (⟨found, hfound⟩ | hread) | hcycle
      · rw [hnew] at hfound
        cases hfound
      · exact .unreadable hread
      · exact absurd hcycle (hacyclic _ .refl)
    | unreadable _ _ hread hq =>
      rw [hq]
      exact ⟨hsound.lists.visit _, .unreadable (read_ne_ok_of_readResult hread)⟩
    | resolved hnew hvisited hread ho hnews hq =>
      have hpending := hsound.mono fun v hv => hv.to_reflTransGen
      have hbody := hpending.visit (Path.normalize_normalize target) .refl
      have hless := unvisited_visit_lt htarget hvisited
      rw [← ho] at hbody hless
      -- What leads to the module leads on to the barrels behind it, so the calls below find all of it
      -- pending.
      obtain ⟨hafter, hall⟩ := resolves_mapM hknown ih (fun e he {_ _} lead hbarrel =>
        have hedge := ⟨_, e, _, _, hread, he, lead, hbarrel, rfl⟩
        ⟨hacyclic.of_edge hedge, fun v hv => TransGen.tail' hv hedge⟩) hbody (by omega) hnews
      have hfound := Resolves.resolved hread hall fun _ _ h => h
      rw [hq]
      exact ⟨hafter.lists.record hfound, hfound⟩

/-- A call between others: before and after it, everything that was taken up is settled. -/
theorem resolves_resolveFile (hacyclic : r.files.Acyclic)
    (hsound : Sound r (fun _ => False) p.context) (h : Yields (r.resolveFile path) p found q) :
    Sound r (fun _ => False) q.context ∧ Resolves r (Path.normalize path) found := by
  obtain ⟨known, hpath, hknown, hleft⟩ := r.exists_known path
  obtain ⟨hspreads, hlists, hlist⟩ := resolves_resolveWithin hknown r.depth hpath
    (fun v _ => hacyclic v) (hleft _) (hsound.mono fun _ => False.elim) h
  exact ⟨hsound.spreads hspreads hlists, hlist⟩

end Resolver

/-- **The lists that are recorded make no difference.** In memory, where no barrel leads back to itself
and all that is to be scanned can be, calls for any modules, one after another with one context, end,
and each of them gives the list that it gives from scratch, which is the one of plain recursion. -/
theorem mapM_resolveFile_fresh (m : MemoryFiles) (flatten : Bool) {paths : List String}
    (hacyclic : m.files.Acyclic)
    (hscans : ∀ path ∈ paths, Resolver.Scannable ⟨m.files, flatten⟩ path) :
    ∃ founds q, Yields (paths.mapM (Resolver.resolveFile ⟨m.files, flatten⟩)) {} founds q ∧
      List.Forall₂ (fun path found =>
        (∃ q', Yields (Resolver.resolveFile ⟨m.files, flatten⟩ path) {} found q') ∧
          Resolver.Resolves ⟨m.files, flatten⟩ (Path.normalize path) found) paths founds := by
  have hends (path : String) (hpath : path ∈ paths) :=
    Resolver.ends_resolveFile m (hscans path hpath)
  obtain ⟨founds, q, hrun⟩ := ends_mapM hends {}
  refine ⟨founds, q, hrun, ?_⟩
  refine (yields_mapM (fun p => Resolver.Sound ⟨m.files, flatten⟩ (fun _ => False) p.context)
    (fun path hpath p found q hp h => ?_) (.empty _ _) hrun).2
  obtain ⟨hq, hlist⟩ := Resolver.resolves_resolveFile hacyclic hp h
  obtain ⟨fresh, q', hfresh⟩ := hends path hpath {}
  obtain ⟨-, hlist'⟩ := Resolver.resolves_resolveFile hacyclic (.empty _ _) hfresh
  obtain rfl := hlist.unique hlist'
  exact ⟨hq, ⟨q', hfresh⟩, hlist⟩

/-! ### A test -/

/-- Every module leads to modules of smaller rank only. -/
def MemoryFiles.Ranked (m : MemoryFiles) (rank : String → Nat) : Prop :=
  ∀ f ∈ m.entries, ∀ e ∈ moduleEntries f.2,
    ∀ target ∈ locate m.files moduleExtensions e.source (Path.directory f.1),
      rank (Path.normalize target) < rank f.1

instance (m : MemoryFiles) (rank : String → Nat) : Decidable (m.Ranked rank) := by
  unfold MemoryFiles.Ranked
  infer_instance

theorem MemoryFiles.Ranked.lt_of_edge {m : MemoryFiles} {rank : String → Nat} (h : m.Ranked rank)
    {path next : String} (hpath : Path.normalize path = path)
    (hedge : m.files.BarrelEdge path next) : rank next < rank path := by
  obtain ⟨content, e, target, nested, hread, he, lead, -, rfl⟩ := hedge
  have hstored := mem_entries_of_read hread
  rw [hpath] at hstored
  exact h _ hstored e he target lead.located

/-- Where every step leads to a smaller rank, no barrel leads back to itself. -/
theorem Files.acyclic_of_rank {files : Files} (rank : String → Nat)
    (h : ∀ {path next}, Path.normalize path = path → files.BarrelEdge path next →
      rank next < rank path) : files.Acyclic := by
  have hnormal {path next : String} (hpath : TransGen files.BarrelEdge path next) :
      Path.normalize next = next := by
    obtain ⟨_, -, hlast⟩ := TransGen.tail'_iff.1 hpath
    obtain ⟨_, _, target, _, _, _, _, _, rfl⟩ := hlast
    exact Path.normalize_normalize target
  intro v hcycle
  have hlt {next : String} (hpath : TransGen files.BarrelEdge v next) : rank next < rank v := by
    induction hpath with
    | single hedge => exact h (hnormal hcycle) hedge
    | tail hpath hedge ih => exact lt_trans (h (hnormal hpath) hedge) ih
  exact lt_irrefl _ (hlt hcycle)

theorem MemoryFiles.Ranked.acyclic {m : MemoryFiles} {rank : String → Nat} (h : m.Ranked rank) :
    m.files.Acyclic :=
  Files.acyclic_of_rank rank h.lt_of_edge

/-- Two barrels that pass on one barrel, and one that passes on both. -/
def diamondFiles : MemoryFiles :=
  .ofList [("/p/a.ts", "export * from \"./b\";\nexport * from \"./c\";"),
    ("/p/b.ts", "export * from \"./d\";"), ("/p/c.ts", "export type { x } from \"./d\";"),
    ("/p/d.ts", "export * from \"./leaf\";"), ("/p/leaf.ts", "export const x = 1;")]

/-- Modules of the diamond, one of them under two spellings, and one that is missing. -/
def diamondPaths : List String :=
  ["/p/c.ts", "/p/gone.ts", "/p/a.ts", "/p/./a.ts", "/p/gone.ts"]

theorem mapM_resolveFile_fresh_diamond :
    diamondFiles.files.Acyclic ∧
    (∀ path ∈ diamondPaths, Resolver.Scannable ⟨diamondFiles.files, true⟩ path) ∧
    ∃ founds q,
      Yields (diamondPaths.mapM (Resolver.resolveFile ⟨diamondFiles.files, true⟩)) {} founds q ∧
      List.Forall₂ (fun path found =>
        (∃ q', Yields (Resolver.resolveFile ⟨diamondFiles.files, true⟩ path) {} found q') ∧
          Resolver.Resolves ⟨diamondFiles.files, true⟩ (Path.normalize path) found)
        diamondPaths founds := by
  have hranked : diamondFiles.Ranked fun path =>
      ["/p/leaf.ts", "/p/d.ts", "/p/c.ts", "/p/b.ts", "/p/a.ts"].idxOf path := by
    decide +kernel
  have hruns : ∀ path ∈ diamondPaths,
      ((Resolver.resolveFile ⟨diamondFiles.files, true⟩ path).run.run {}).1.isOk = true := by
    decide +kernel
  have hscans : ∀ path ∈ diamondPaths, Resolver.Scannable ⟨diamondFiles.files, true⟩ path := by
    intro path hpath
    obtain ⟨found, hfound⟩ := exists_yields_of_isOk (hruns path hpath)
    exact (Resolver.ends_resolveFile_iff diamondFiles true path).1 ⟨found, _, hfound⟩
  exact ⟨hranked.acyclic, hscans,
    mapM_resolveFile_fresh diamondFiles true hranked.acyclic hscans⟩

end Reexport
