import Mathlib.Data.Prod.Lex
import Reexport.Proofs.RoundTrip
import Reexport.Proofs.StableSorting

/-!
# Dropping repetitions and sorting

Repetitions are told by the whole identity of an entry, while sorting looks at its source and its
exported name alone. Since entries of one identity have one place in the order, and since sorting
leaves entries of one place as they stood, the two can be done in either order.

The place of an entry in the order says nothing of its flavour and form, so entries of one place stay
as they were given, and the order given can be seen in the sorted list. In the text of a barrel it
cannot: there the entries are written part by part, and what is left of a part differs in exported
names.

## What is proved

* `distinct_sorted_eq` — the two stages commute; what they come to, entry by entry and in which order.
* `arranged_sorted_congr` — sorted entries are arranged by what they are, not by how they were given.
* `barrelText_sorted_eq` — so the text of a barrel with sorted entries depends on the set of its
  entries only.
-/

namespace Reexport

/-! ### Code points -/

namespace Text

/-- The code points of a text. -/
def codes (s : String) : List Nat :=
  s.toList.map Char.toNat

/-- Texts stand in the order of their code points. -/
theorem lt_iff_codes_lt {s t : String} : s < t ↔ codes s < codes t := by
  rw [String.lt_iff_toList_lt, codes, codes]
  generalize s.toList = cs
  generalize t.toList = ds
  induction cs generalizing ds with
  | nil => cases ds <;> simp
  | cons c cs ih =>
    cases ds with
    | nil => simp
    | cons d ds =>
      rw [List.map_cons, List.map_cons, List.cons_lt_cons_iff, List.cons_lt_cons_iff, ih,
        Char.toNat_inj]
      exact Iff.rfl

end Text

/-! ### The order of entries -/

/-- What sorting looks at: the source and the exported name. -/
def Entry.sortKey (e : Entry) : String ×ₗ String :=
  toLex (e.source, e.exportedName)

variable {entries left right : List Entry} {a b x y : Entry}

theorem precedes_eq_byKey : Entry.precedes = byKey Entry.sortKey := by
  funext a b
  rw [Bool.eq_iff_iff, precedes_iff, byKey_iff, Entry.sortKey, Entry.sortKey,
    Prod.Lex.toLex_le_toLex]

theorem sorted_eq (entries : List Entry) :
    sorted entries = entries.mergeSort (byKey Entry.sortKey) := by
  rw [sorted, precedes_eq_byKey]

/-- Entries of one identity have one place in the order. -/
theorem Entry.sortKey_eq_of_identity_eq (h : a.identity = b.identity) : a.sortKey = b.sortKey := by
  rw [identity, identity, Identity.mk.injEq] at h
  rw [sortKey, sortKey, h.1, h.2.1]

/-- Lines are no part of an identity. -/
theorem Entry.identity_eq_of_unplaced_eq (h : a.unplaced = b.unplaced) :
    a.identity = b.identity :=
  show a.unplaced.identity = b.unplaced.identity by rw [h]

/-- An entry stands before another one: by its source, then by its exported name, code point by code
point, and then by where its identity occurs first in the list. -/
def Entry.Before (entries : List Entry) (a b : Entry) : Prop :=
  Text.codes a.source < Text.codes b.source ∨
    a.source = b.source ∧ (Text.codes a.exportedName < Text.codes b.exportedName ∨
      a.exportedName = b.exportedName ∧
        (entries.map Entry.identity).idxOf a.identity <
          (entries.map Entry.identity).idxOf b.identity)

theorem Entry.before_iff : a.Before entries b ↔
    a.sortKey < b.sortKey ∨ a.sortKey = b.sortKey ∧
      (entries.map Entry.identity).idxOf a.identity <
        (entries.map Entry.identity).idxOf b.identity := by
  rw [Before, sortKey, sortKey, Prod.Lex.toLex_lt_toLex, toLex_inj, Prod.mk.injEq,
    ← Text.lt_iff_codes_lt, ← Text.lt_iff_codes_lt]
  tauto

/-! ### Repetitions -/

/-- Sorting and dropping repetitions can be done in either order: of each place in the order, the
same entries are dropped. -/
theorem distinct_sorted (entries : List Entry) :
    distinct (sorted entries) = sorted (distinct entries) := by
  rw [sorted_eq, sorted_eq]
  refine eq_mergeSort_byKey ?_ fun k => ?_
  · exact (pairwise_mergeSort_byKey Entry.sortKey entries).sublist (firstsAfter_sublist _ _ _)
  · have hsame (x y : Entry) (h : x.identity = y.identity) :
        decide (x.sortKey = k) = decide (y.sortKey = k) := by
      rw [Entry.sortKey_eq_of_identity_eq h]
    unfold distinct
    rw [filter_firsts hsame, filter_firsts hsame, filter_mergeSort_byKey]

/-- **Dropping repetitions and sorting commute.** Done in either order, they leave of each identity
the entry that has it first, once, and these entries stand by their sources, then by their exported
names, both in the order of code points, and where these are equal in the order in which they were
given. -/
theorem distinct_sorted_eq (entries : List Entry) :
    distinct (sorted entries) = sorted (distinct entries) ∧
    ((distinct (sorted entries)).map Entry.identity).Nodup ∧
    (∀ e, e ∈ distinct (sorted entries) ↔
      entries.find? (fun x => x.identity = e.identity) = some e) ∧
    (distinct (sorted entries)).Pairwise (Entry.Before entries) := by
  refine ⟨distinct_sorted entries, nodup_map_firsts _ _, fun e => ?_, ?_⟩
  · rw [distinct_sorted, (sorted_perm _).mem_iff, distinct, mem_firsts_iff]
  · have hgiven := pairwise_idxOf_map_firsts Entry.identity entries
    rw [distinct_sorted, sorted_eq]
    exact (pairwise_mergeSort_byKey_of Entry.sortKey hgiven).imp Entry.before_iff.2

/-- Sorted, entries are told by their sources before their names, and upper case comes first; the entry
on line 2 has the exported name of the first one, and so the place behind it. -/
example : (distinct (sorted (moduleEntries
      "export { b, B } from \"./y\";\nexport { a as b, a } from \"./y\";\nexport { z } from \"./X\";"))).map
      (fun e => (e.source, e.specifier, e.exportedName, e.originLine)) =
    [("./X", "z", "z", 3), ("./y", "B", "B", 1), ("./y", "a", "a", 2), ("./y", "b", "b", 1)] := by
  cbv

/-! ### The text of a barrel -/

/-- Of entries with one source, flavour and form, sorting tells the exported names apart and nothing
else. -/
theorem identity_eq_of_precedes {source : String} {form : Bool × Kind}
    (hx : x.source = source ∧ (x.isTypeOnly, x.kind) = form)
    (hy : y.source = source ∧ (y.isTypeOnly, y.kind) = form)
    (hxy : x.precedes y = true) (hyx : y.precedes x = true) : x.identity = y.identity := by
  obtain ⟨hsource, hform⟩ : x.source = y.source ∧ (x.isTypeOnly, x.kind) = (y.isTypeOnly, y.kind) :=
    ⟨hx.1.trans hy.1.symm, hx.2.trans hy.2.symm⟩
  obtain ⟨htype, hkind⟩ := Prod.mk.inj hform
  have hle : x.exportedName ≤ y.exportedName :=
    ((precedes_iff.1 hxy).resolve_left (by simp [hsource])).2
  have hge : y.exportedName ≤ x.exportedName :=
    ((precedes_iff.1 hyx).resolve_left (by simp [hsource])).2
  rw [Entry.identity, Entry.identity, le_antisymm hle hge, hsource, htype, hkind]

/-- What is written of a part of sorted entries is sorted. -/
theorem pairwise_part_sorted (source : String) (form : Bool × Kind) (entries : List Entry) :
    (firsts id ((part source form (sorted entries)).map Entry.unplaced)).Pairwise
      fun a b => a.precedes b = true := by
  have hpart : (part source form (sorted entries)).Pairwise fun a b => a.precedes b = true :=
    ((pairwise_sorted entries).filter _).filter _
  exact (List.pairwise_map.2 hpart).sublist (firstsAfter_sublist id [] _)

theorem mem_part_sorted_iff {source : String} {form : Bool × Kind} :
    a ∈ firsts id ((part source form (sorted entries)).map Entry.unplaced) ↔
      a ∈ entries.map Entry.unplaced ∧ a.source = source ∧ (a.isTypeOnly, a.kind) = form := by
  rw [mem_firsts_id_iff, ← part_map_unplaced, mem_part_iff, List.mem_map, List.mem_map]
  simp only [(sorted_perm entries).mem_iff]

/-- Sorted entries are arranged alike if they are the same up to their lines, and if what they are is
told by their identities: how often each was given, and in which order, makes no difference. -/
theorem arranged_sorted_congr
    (hmem : ∀ e, e ∈ left.map Entry.unplaced ↔ e ∈ right.map Entry.unplaced)
    (hid : ∀ x ∈ left, ∀ y ∈ left, x.identity = y.identity → x.unplaced = y.unplaced) :
    arranged (sorted left) = arranged (sorted right) := by
  rw [arranged, arranged, sources_sorted_of_mem_iff hmem]
  refine List.flatMap_congr fun source _ => List.flatMap_congr fun form _ => ?_
  have hperm : (firsts id ((part source form (sorted left)).map Entry.unplaced)).Perm
      (firsts id ((part source form (sorted right)).map Entry.unplaced)) := by
    rw [List.perm_ext_iff_of_nodup (nodup_firsts_id _) (nodup_firsts_id _)]
    intro e
    rw [mem_part_sorted_iff, mem_part_sorted_iff, hmem]
  -- In one part the order is strict, so it leaves one list with the given members.
  apply hperm.eq_of_pairwise _ (pairwise_part_sorted ..) (pairwise_part_sorted ..)
  intro x y hx hy hxy hyx
  obtain ⟨hxmem, hxpart⟩ := mem_part_sorted_iff.1 hx
  obtain ⟨hymem, hypart⟩ := mem_part_sorted_iff.1 hy
  obtain ⟨x', hx', rfl⟩ := List.mem_map.1 hxmem
  obtain ⟨y', hy', rfl⟩ := List.mem_map.1 ((hmem y).2 hymem)
  exact hid x' hx' y' hy' (identity_eq_of_precedes hxpart hypart hxy hyx)

/-- Where entries of one identity are the same up to their lines, no entry is lost with the
repetitions. -/
theorem mem_unplaced_distinct_iff
    (hid : ∀ x ∈ entries, ∀ y ∈ entries, x.identity = y.identity → x.unplaced = y.unplaced)
    (e : Entry) : e ∈ (distinct entries).map Entry.unplaced ↔ e ∈ entries.map Entry.unplaced := by
  simp only [List.mem_map]
  constructor
  · rintro ⟨x, hx, rfl⟩
    exact ⟨x, mem_of_mem_firsts hx, rfl⟩
  · rintro ⟨x, hx, rfl⟩
    have hkept : x.identity ∈ (distinct entries).map Entry.identity :=
      mem_map_firsts_iff.2 (List.mem_map_of_mem hx)
    obtain ⟨y, hy, hsame⟩ := List.mem_map.1 hkept
    exact ⟨y, hy, hid y (mem_of_mem_firsts hy) x hx hsame⟩

/-- **With sorted entries, the text depends on their set alone.** Two lists that have the same
entries, lines aside, in whatever order and however often, give one text, whether repetitions are
dropped or not. The entries of one identity must be the same up to their lines: an identity does not
tell a name from the alias that another name goes by. -/
theorem barrelText_sorted_eq (before : String) {xs ys : List Entry}
    (hsame : ∀ e, e ∈ xs.map Entry.unplaced ↔ e ∈ ys.map Entry.unplaced)
    (hid : ∀ x ∈ xs, ∀ y ∈ xs, x.identity = y.identity → x.unplaced = y.unplaced) :
    barrelText before (sorted xs) = barrelText before (sorted (distinct ys)) := by
  have hid' : ∀ x ∈ ys, ∀ y ∈ ys, x.identity = y.identity → x.unplaced = y.unplaced := by
    intro x hx y hy h
    obtain ⟨x', hx', hxx⟩ := List.mem_map.1 ((hsame _).2 (List.mem_map_of_mem hx))
    obtain ⟨y', hy', hyy⟩ := List.mem_map.1 ((hsame _).2 (List.mem_map_of_mem hy))
    rw [← hxx, ← hyy]
    refine hid x' hx' y' hy' ?_
    rw [Entry.identity_eq_of_unplaced_eq hxx, h, Entry.identity_eq_of_unplaced_eq hyy]
  have hmem (e : Entry) : e ∈ xs.map Entry.unplaced ↔ e ∈ (distinct ys).map Entry.unplaced := by
    rw [mem_unplaced_distinct_iff hid', hsame]
  rw [← barrelText_arranged before (sorted xs), arranged_sorted_congr hmem hid,
    barrelText_arranged]

/-- Entries of which three have one place in the order: a name, the type of that name, and a namespace
under it. -/
def tiedText : String :=
  "export { b, a as c } from \"./y\";\nexport type { b } from \"./y\";\nexport * as b from \"./y\";"

/-- The same entries in another order, one of them repeated. -/
def untidyTiedText : String :=
  "export * as b from './y'\nexport type { b } from './y'\nexport { a as c, b, b } from './y'"

theorem barrelText_sorted_eq_tied :
    (∀ e, e ∈ (moduleEntries tiedText).map Entry.unplaced ↔
      e ∈ (moduleEntries untidyTiedText).map Entry.unplaced) ∧
    (∀ x ∈ moduleEntries tiedText, ∀ y ∈ moduleEntries tiedText,
      x.identity = y.identity → x.unplaced = y.unplaced) ∧
    barrelText "// names" (sorted (moduleEntries tiedText)) =
      barrelText "// names" (sorted (distinct (moduleEntries untidyTiedText))) := by
  have hleft : ∀ e ∈ (moduleEntries tiedText).map Entry.unplaced,
      e ∈ (moduleEntries untidyTiedText).map Entry.unplaced := by decide +kernel
  have hright : ∀ e ∈ (moduleEntries untidyTiedText).map Entry.unplaced,
      e ∈ (moduleEntries tiedText).map Entry.unplaced := by decide +kernel
  have hsame (e : Entry) : e ∈ (moduleEntries tiedText).map Entry.unplaced ↔
      e ∈ (moduleEntries untidyTiedText).map Entry.unplaced := ⟨hleft e, hright e⟩
  have hid : ∀ x ∈ moduleEntries tiedText, ∀ y ∈ moduleEntries tiedText,
      x.identity = y.identity → x.unplaced = y.unplaced := by decide +kernel
  exact ⟨hsame, hid, barrelText_sorted_eq "// names" hsame hid⟩

end Reexport
