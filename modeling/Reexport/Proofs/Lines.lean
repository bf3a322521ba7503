import Reexport.Proofs.Arrangement
import Reexport.Proofs.Replacement

/-!
# Entries on other lines

The line of an entry plays no part in what the resolver does. The same entry on another line is
replaced by the same entries on that line, and the same statement on another line holds the same
entries there.

## What is proved

* `leafResult_atLine`, `inlined_atLine`, `Replaced.atLine` — what takes the place of an entry on
  another line.
* `lineEntries_atLine` — the entries of a statement on another line.
* `map_merged_unplaced` — entries are merged alike with and without their lines.
-/

namespace Reexport

open Resolver

variable {e x : Entry} {line : Nat}

/-! ### What takes the place of an entry -/

theorem Entry.typeNamesOf_atLine (e : Entry) (line : Nat) (s : DeclarationScan) :
    (e.atLine line).typeNamesOf s = (e.typeNamesOf s).map (Entry.atLine · line) := by
  rw [typeNamesOf, typeNamesOf, List.map_map]
  rfl

theorem Entry.namesOf_atLine (e : Entry) (line : Nat) (s : DeclarationScan) :
    (e.atLine line).namesOf s = (e.namesOf s).map (Entry.atLine · line) := by
  unfold namesOf
  split
  · rfl
  · rw [List.map_map]
    rfl

/-- What takes the place of an entry on another line differs in its lines only. -/
theorem leafResult_atLine (r : Resolver) (e : Entry) (line : Nat) (target content : String) :
    r.leafResult (e.atLine line) target content =
      (r.leafResult e target content).map (List.map (Entry.atLine · line)) := by
  have hbare : (e.atLine line).isBareStar = e.isBareStar := rfl
  have hsource : (e.atLine line).source = e.source := rfl
  have htypes : typesResult (e.atLine line) target content =
      (typesResult e target content).map (List.map (Entry.atLine · line)) := by
    unfold typesResult
    rw [hbare, hsource]
    split
    · cases scan target content with
      | ok s => exact congrArg Except.ok (e.typeNamesOf_atLine line s)
      | error fault => rfl
    · rfl
  have hnames : r.namesResult (e.atLine line) target content =
      (r.namesResult e target content).map (List.map (Entry.atLine · line)) := by
    unfold namesResult
    rw [hbare]
    split
    · cases scan target content with
      | ok s => exact congrArg Except.ok (e.namesOf_atLine line s)
      | error fault => rfl
    · rfl
  unfold leafResult
  rw [htypes, hnames]
  cases typesResult e target content with
  | error i => rfl
  | ok types =>
    cases types with
    | cons x types => rfl
    | nil =>
      cases r.namesResult e target content with
      | error i => rfl
      | ok names => cases names <;> rfl

theorem Entry.through_atLine (e n : Entry) (line : Nat) :
    (e.atLine line).through n = (e.through n).map (Entry.atLine · line) := by
  rw [through, through, Option.map_map]
  rfl

/-- The same for an entry whose source is a barrel. -/
theorem inlined_atLine (e : Entry) (line : Nat) (nested : List Entry) :
    (e.atLine line).inlined nested = (e.inlined nested).map (Entry.atLine · line) := by
  have hspliced : nested.filterMap (e.atLine line).through =
      (nested.filterMap e.through).map (Entry.atLine · line) := by
    rw [List.map_filterMap]
    exact congrArg (nested.filterMap ·) (funext fun n => e.through_atLine n line)
  have hbare : (e.atLine line).isBareStar = e.isBareStar := rfl
  have hkind : (e.atLine line).kind = .star ↔ e.kind = .star := .rfl
  have htype : (e.atLine line).isTypeIn nested = e.isTypeIn nested := rfl
  unfold Entry.inlined
  simp only [hspliced, hbare, hkind, htype]
  split
  · rfl
  split
  · cases nested.filterMap e.through <;> rfl
  split
  · rfl
  split <;> rfl

/-- What takes the place of an entry takes it on another line. -/
theorem Resolver.Replaced.atLine {r : Resolver} {directory : String}
    {Q : String → List Entry → Prop} {new : List Entry} (h : Replaced r directory Q e new)
    (line : Nat) :
    Replaced r directory Q (e.atLine line) (new.map (Entry.atLine · line)) := by
  have hlead {target content : String} : Leads r.files directory (e.atLine line) target content ↔
      Leads r.files directory e target content := ⟨fun ⟨h, h'⟩ => ⟨h, h'⟩, fun ⟨h, h'⟩ => ⟨h, h'⟩⟩
  cases h with
  | astray hnone => exact .astray fun _ _ lead => hnone _ _ (hlead.1 lead)
  | barrel lead hbarrel hnested =>
    rw [← inlined_atLine]
    exact .barrel (hlead.2 lead) hbarrel hnested
  | leaf lead hleaf hnew =>
    refine .leaf (hlead.2 lead) hleaf ?_
    rw [leafResult_atLine, hnew]
    rfl

/-! ### Statements -/

theorem lineEntries_atLine (row : List Char) (number line : Nat) :
    (lineEntries row number).map (Entry.atLine · line) = lineEntries row line := by
  unfold lineEntries
  cases Statement.ofLine? row with
  | none => rfl
  | some s =>
    show (s.entries number).map (Entry.atLine · line) = s.entries line
    unfold Statement.entries
    split
    · rfl
    · rw [List.map_map]
      rfl

/-- The entries of each line are those of a text on some line. -/
theorem exists_mem_linesEntries {rows : List (List Char)} {row : List Char} (hrow : row ∈ rows)
    (number : Nat) : ∃ n, ∀ x ∈ lineEntries row n, x ∈ linesEntries number rows := by
  induction rows generalizing number with
  | nil => cases hrow
  | cons first rows ih =>
    rcases List.mem_cons.1 hrow with rfl | hrow
    · exact ⟨number, fun x hx => List.mem_append_left _ hx⟩
    · obtain ⟨n, hn⟩ := ih hrow (number + 1)
      exact ⟨n, fun x hx => List.mem_append_right _ (hn x hx)⟩

/-! ### Merging -/

theorem map_mergeEntry_unplaced (entries : List Entry) (e : Entry) :
    (mergeEntry entries e).map Entry.unplaced = mergeEntry (entries.map Entry.unplaced) e.unplaced := by
  have hkey (x : Entry) : x.unplaced.mergeKey = x.mergeKey := rfl
  unfold mergeEntry
  rw [List.any_map]
  simp only [Function.comp_def, hkey]
  split
  · rw [List.map_map, List.map_map]
    refine List.map_congr_left fun x _ => ?_
    simp only [Function.comp_def, hkey]
    split <;> rfl
  · rw [List.map_append]
    rfl

/-- Entries are merged alike with and without their lines. -/
theorem map_merged_unplaced (entries : List Entry) :
    (merged entries).map Entry.unplaced = merged (entries.map Entry.unplaced) := by
  induction entries using List.reverseRecOn with
  | nil => rfl
  | append_singleton entries e ih =>
    rw [merged_append_singleton, map_mergeEntry_unplaced, ih, List.map_append]
    exact (merged_append_singleton _ _).symm

end Reexport
