import Reexport.Proofs.Endings
import Reexport.Proofs.Expansion
import Reexport.Proofs.Traversal

/-!
# What interrupts a run

In memory one thing only can interrupt the resolver: a module that it scans exports a name that is
empty within its quotes. Such an export is allowed, and the star form of it counts as no name, but the
list form is refused. Which modules are scanned depends on the call. Following re-exports scans those
behind an `export *`, if names are written out, and those that seem to hold types; asking for the
names behind one `export *` always scans.

## What is proved

* `exists_scan_iff` — a module can be scanned exactly if no name is empty.
* `ends_resolveFile_iff_clear`, `ends_resolveSource_iff_clear`, `ends_expandStar_iff` — the three calls
  of the resolver end exactly if all that they scan can be scanned.
* `resolver_ends_iff` — so it is over all modules in memory, some of which may not be read.
-/

namespace Reexport

open Resolving

/-! ### Scans -/

namespace Script

/-- One of the names of a statement is empty within its quotes. -/
def Exported.HasEmptyName : Exported → Prop
  | star => False
  | names found => ∃ f ∈ found, stripQuotes f.text = ""

theorem exists_make?_iff {name : String} {isTypeOnly : Bool} {form : Form} {line : Int} :
    (∃ d, Declared.make? name isTypeOnly form line = .ok d) ↔ name ≠ "" := by
  unfold Declared.make?
  split <;> simp_all

theorem exists_addFound_iff {line : Nat} {found : List Found} {before : DeclarationScan} :
    (∃ s, addFound line found before = .ok s) ↔ ∀ f ∈ found, stripQuotes f.text ≠ "" := by
  induction found generalizing before with
  | nil => simp [addFound]
  | cons f fs ih =>
    rw [List.forall_mem_cons, addFound]
    simp only [bind_eq_ok_iff]
    constructor
    · rintro ⟨s, d, hd, hs⟩
      exact ⟨exists_make?_iff.1 ⟨d, hd⟩, ih.1 ⟨s, hs⟩⟩
    · rintro ⟨hf, hfs⟩
      obtain ⟨d, hd⟩ := exists_make?_iff.2 hf
      obtain ⟨s, hs⟩ := ih.2 hfs
      exact ⟨s, d, hd, hs⟩

theorem exists_foldlM_addStatement_iff {statements : List (Nat × Exported)}
    {before : DeclarationScan} : (∃ s, statements.foldlM addStatement before = .ok s) ↔
      ∀ statement ∈ statements, ¬statement.2.HasEmptyName := by
  induction statements generalizing before with
  | nil => simp [pure, Except.pure]
  | cons statement statements ih =>
    have hadd : (∃ s, addStatement before statement = .ok s) ↔ ¬statement.2.HasEmptyName := by
      obtain ⟨line, star | found⟩ := statement
      · simp [addStatement, Exported.HasEmptyName]
      · show (∃ s, addFound line found before = .ok s) ↔ ¬∃ f ∈ found, stripQuotes f.text = ""
        simp [exists_addFound_iff]
    rw [List.forall_mem_cons, List.foldlM_cons, ← hadd]
    simp only [bind_eq_ok_iff]
    constructor
    · rintro ⟨s, next, hnext, hs⟩
      exact ⟨⟨next, hnext⟩, ih.1 ⟨s, hs⟩⟩
    · rintro ⟨⟨next, hnext⟩, hrest⟩
      obtain ⟨s, hs⟩ := ih.2 hrest
      exact ⟨s, next, hnext, hs⟩

end Script

/-- A top-level statement of the module exports a name that is empty within its quotes. -/
def ExportsEmptyName (path source : String) : Prop :=
  let cs := Script.pastInterpreter source.toList
  ∃ statement ∈ Script.exportStatements (Script.readerFor (holdsMarkup path) cs) (cs.length + 1)
    ⟨cs, 1⟩, statement.2.HasEmptyName

/-- **What can be scanned**: a module all of whose exported names have a text. -/
theorem exists_scan_iff {path source : String} :
    (∃ s, scan path source = .ok s) ↔ ¬ExportsEmptyName path source := by
  unfold scan ExportsEmptyName
  simp only [Script.exists_foldlM_addStatement_iff, not_exists, not_and]

/-! ### What a call meets -/

namespace Resolver

/-- The entries that a call for a module follows, each with the directory from which its source is
seen: those in the text of the module, and those of the barrels behind them. The module itself is not
resolved again when an entry leads back to it. -/
inductive Meets (files : Files) (path content : String) : String → Entry → Prop where
  /-- An entry in the text. -/
  | own {e : Entry} (he : e ∈ moduleEntries content) :
      Meets files path content (Path.directory (Path.normalize path)) e
  /-- An entry of a barrel behind an entry. -/
  | behind {directory target nested text : String} {e e' : Entry}
      (h : Meets files path content directory e) (lead : Leads files directory e target nested)
      (hbarrel : isBarrel (moduleEntries nested) = true)
      (hopen : Path.normalize target ≠ Path.normalize path)
      (hread : files.read (Path.normalize target) = .ok text) (he : e' ∈ moduleEntries text) :
      Meets files path content (Path.directory (Path.normalize target)) e'

variable {r : Resolver} {directory path content : String} {e : Entry} {c : Context}

/-- All that is to be scanned for the entries that a call meets can be scanned. -/
def Clear (r : Resolver) (path content : String) : Prop :=
  ∀ directory e target nested, Meets r.files path content directory e →
    Leads r.files directory e target nested → isBarrel (moduleEntries nested) = false →
    r.Scans e target nested → ¬ExportsEmptyName target nested

/-- When a run is over, all that it met was followed. -/
theorem followed_of_meets
    (hown : ∀ e ∈ moduleEntries content,
      Followed r (Path.directory (Path.normalize path)) c e)
    (hdone : ∀ v ∈ c.visited, v = Path.normalize path ∨ Done r c v)
    (h : Meets r.files path content directory e) : Followed r directory c e := by
  induction h with
  | own he => exact hown _ he
  | behind _ lead hbarrel hopen hread he ih =>
    have hvisited := ih.barrel lead hbarrel
    exact ((hdone _ hvisited).resolve_left hopen) _ hread _ he

theorem clear_of_followed
    (h : ∀ directory e, Meets r.files path content directory e → Followed r directory c e) :
    r.Clear path content := by
  intro directory e target nested hmeets lead hleaf hscans
  exact exists_scan_iff.1 (exists_leafResult_iff.1 ((h _ _ hmeets).leaf lead hleaf) hscans)

/-- All that the module at a path holds is met behind the one whose text is at hand, if it is another
one. -/
def AllMet (files : Files) (path content target : String) : Prop :=
  Path.normalize target ≠ Path.normalize path → ∀ text,
    files.read (Path.normalize target) = .ok text → ∀ e ∈ moduleEntries text,
      Meets files path content (Path.directory (Path.normalize target)) e

/-- What is met can be passed, with a property that all barrels behind the module have. -/
theorem passable_of_meets {S : String → Prop} (hclear : r.Clear path content)
    (hS : ∀ target, AllMet r.files path content target → S target)
    (h : Meets r.files path content directory e) : Passable r S directory e where
  barrel lead hbarrel := hS _ fun hopen _ hread _ he => h.behind lead hbarrel hopen hread he
  leaf lead hleaf := exists_leafResult_iff.2 fun hscans =>
    exists_scan_iff.2 (hclear _ _ _ _ h lead hleaf hscans)

/-! ### Calls -/

/-- A call for a text at hand ends exactly if all that is to be scanned can be. -/
theorem ends_resolveSource_iff_clear (hread : ∀ path, ∃ out, readResult r.files path = .ok out) :
    Ends (r.resolveSource content path) {} ↔ r.Clear path content := by
  constructor
  · rintro ⟨found, q, h⟩
    obtain ⟨⟨news, hnews, -⟩, hdone⟩ := done_of_resolveSource rfl h
    exact clear_of_followed fun _ _ =>
      followed_of_meets (fun _ he => followed_of_replaced hnews he) hdone
  · intro hclear
    -- The module itself is taken up at once, and what is stored for it is never resolved.
    have hpass {directory : String} {e : Entry} (h : Meets r.files path content directory e) :
        Passable r (AllMet r.files path content) directory e :=
      passable_of_meets hclear (fun _ h => h) h
    have hothers : Unhindered r (AllMet r.files path content) [Path.normalize path] := by
      refine ⟨hread, fun {target text e} htarget hopen htext he => hpass ?_⟩
      exact htarget (fun heq => hopen (List.mem_singleton.2 heq)) text htext e he
    exact ends_resolveSource_of_taken hothers (fun e he => hpass (.own he)) fun v hv =>
      .inr (List.mem_singleton.1 hv)

/-- A call for a module ends exactly if a call for its text does. -/
theorem ends_resolveFile_iff_clear (hread : ∀ path, ∃ out, readResult r.files path = .ok out) :
    Ends (r.resolveFile path) {} ↔ ∀ content,
      r.files.read (Path.normalize path) = .ok content → r.Clear path content := by
  constructor
  · rintro ⟨found, q, h⟩ content hcontent
    obtain ⟨hvisited, hdone⟩ := done_of_resolveFile rfl h
    exact clear_of_followed fun _ _ =>
      followed_of_meets (fun e he => hdone _ hvisited content hcontent e he)
        fun v hv => .inr (hdone v hv)
  · intro hclear
    refine ends_resolveWithin (S := fun target => ∀ text,
      r.files.read (Path.normalize target) = .ok text → ∀ e ∈ moduleEntries text, ∃ content,
        r.files.read (Path.normalize path) = .ok content ∧
        Meets r.files path content (Path.directory (Path.normalize target)) e)
      ⟨hread, ?_⟩ _ (fun text htext e he => ⟨text, htext, .own he⟩) {}
    intro target text e htarget _ htext he
    obtain ⟨content, hcontent, hmeets⟩ := htarget text htext e he
    refine passable_of_meets (hclear content hcontent) (fun next hnext text htext e he => ?_) hmeets
    by_cases hself : Path.normalize next = Path.normalize path
    · rw [hself] at htext ⊢
      exact ⟨text, htext, .own he⟩
    · exact ⟨content, hcontent, hnext hself text htext e he⟩

/-- The names behind an `export *` are asked of the module behind it. -/
theorem exists_starResult_iff (hread : ∀ path, ∃ out, readResult r.files path = .ok out) :
    (∃ names, r.starResult e directory = .ok names) ↔ (e.isBareStar = true → ∀ target content,
      Leads r.files directory e target content → isBarrel (moduleEntries content) = false →
        ∃ s, scan target content = .ok s) := by
  cases hbare : e.isBareStar with
  | false => exact iff_of_true ⟨none, if_pos (by simp [hbare])⟩ nofun
  | true =>
    by_cases hleads : ∃ target content, Leads r.files directory e target content ∧
        isBarrel (moduleEntries content) = false
    · obtain ⟨target, content, lead, hleaf⟩ := hleads
      rw [starResult_of_leads hbare lead hleaf]
      constructor
      · rintro ⟨names, h⟩ - target' content' lead' -
        obtain ⟨rfl, rfl⟩ := lead.unique lead'
        obtain ⟨s, hscan, -⟩ := bind_eq_ok_iff.1 h
        exact ⟨s, mapError_eq_ok_iff.1 hscan⟩
      · intro h
        obtain ⟨s, hscan⟩ := h rfl target content lead hleaf
        rw [hscan]
        exact ⟨_, rfl⟩
    · refine iff_of_true ⟨none, starResult_of_barrels hread fun target content lead => ?_⟩
        fun _ target content lead hleaf => absurd ⟨target, content, lead, hleaf⟩ hleads
      exact by_contra fun hleaf => hleads ⟨target, content, lead, by simpa using hleaf⟩

/-- Asking for the names behind an `export *` ends exactly if the module behind it can be scanned. -/
theorem ends_expandStar_iff (hread : ∀ path, ∃ out, readResult r.files path = .ok out)
    (p : Progress) : Ends (r.expandStar e directory) p ↔ (e.isBareStar = true → ∀ target content,
      Leads r.files directory e target content → isBarrel (moduleEntries content) = false →
        ¬ExportsEmptyName target content) := by
  rw [(quiet_expandStar r e directory).ends_iff, exists_starResult_iff hread]
  simp only [exists_scan_iff]

end Resolver

/-- A resolver over modules in memory, some of which may not be read. -/
def Resolver.overMemory (m : MemoryFiles) (locked : List String) (flatten : Bool) : Resolver :=
  ⟨m.files.withLocked locked, flatten⟩

/-- **What interrupts the resolver.** Over any modules in memory, some of which may not be read, and
whether or not names are written out:

1. a call for a path ends exactly if there is no module at the path, or a call for its text ends;
2. a call for a text ends exactly if no module that it scans, behind an `export *` that it meets,
   exports an empty name;
3. asking for the names behind an entry ends exactly if the entry is no bare `export *`, or leads to
   no module, to a barrel, or to a module that exports no empty name. -/
theorem resolver_ends_iff (m : MemoryFiles) (locked : List String) (flatten : Bool) :
    (∀ path, (∃ found q, Yields ((Resolver.overMemory m locked flatten).resolveFile path) {} found
        q) ↔ ∀ content, (m.files.withLocked locked).read (Path.normalize path) = .ok content →
          (Resolver.overMemory m locked flatten).Clear path content) ∧
    (∀ content path, (∃ found q,
        Yields ((Resolver.overMemory m locked flatten).resolveSource content path) {} found q) ↔
      (Resolver.overMemory m locked flatten).Clear path content) ∧
    ∀ e directory, (∃ names q,
        Yields ((Resolver.overMemory m locked flatten).expandStar e directory) {} names q) ↔
      (e.isBareStar = true → ∀ target content,
        Resolver.Leads (m.files.withLocked locked) directory e target content →
          isBarrel (moduleEntries content) = false → ¬ExportsEmptyName target content) := by
  have hread := Resolver.exists_readResult_withLocked m locked
  exact ⟨fun _ => Resolver.ends_resolveFile_iff_clear hread,
    fun _ _ => Resolver.ends_resolveSource_iff_clear hread,
    fun _ _ => Resolver.ends_expandStar_iff hread {}⟩

/-- A barrel with an `export *` from a module that exports a name without text. -/
def unnamedFiles : MemoryFiles := .ofList
  [("/p/index.ts", "export * from \"./leaf\";\n"),
    ("/p/leaf.ts", "const x = 1;\nexport \x7b x as \"\" \x7d;\n")]

/-- **A run is interrupted**: where names are written out, the module behind the barrel is scanned,
and its empty name is refused. -/
theorem resolveFile_stops_at_empty_name :
    (¬∃ found q, Yields ((Resolver.overMemory unnamedFiles [] true).resolveFile "/p/index.ts") {}
      found q) ∧
    (((Resolver.overMemory unnamedFiles [] true).resolveFile "/p/index.ts").run.run {}).1 =
      .error (.declared .emptyName) ∧
    (Interruption.declared .emptyName).message = "DeclaredExport name cannot be empty" := by
  have hrun : (((Resolver.overMemory unnamedFiles [] true).resolveFile "/p/index.ts").run.run {}).1 =
      .error (.declared .emptyName) := by decide +kernel
  refine ⟨?_, hrun, rfl⟩
  rintro ⟨found, q, h⟩
  rw [h] at hrun
  cases hrun

end Reexport
