import Mathlib.Data.Prod.Lex
import Reexport.Proofs.RoundTrip
import Reexport.Proofs.StableSorting

/-!
# Writing and reading are inverse

Written out as the text of a barrel and read back, a list of well-formed entries comes back without
its repetitions and in another order, the same for every text that was there before. The order is a
sort: `Entry.place` gives the place of an entry among others, first by its source, then by its
flavour, then by its form, and entries of one place keep the order they had.

## What is proved

* `arranged_eq_mergeSort` — arranging entries is a stable sort, by their places.
* `moduleEntries_barrelText` — so the entries that are read from the text of a barrel are those it
  was written for, sorted, and the prologue holds none.
-/

namespace Reexport

open Text

/-! ### Places -/

/-- Whole namespaces come first, then default bindings, then names. -/
def Kind.rank : Kind → Nat
  | .star => 0
  | .default => 1
  | .named => 2

/-- The place of an entry among others: by the first use of its source, values before types, and
then by its form. -/
def Entry.place (entries : List Entry) (e : Entry) : ℕ ×ₗ Bool ×ₗ ℕ :=
  toLex ((entries.map (·.source)).idxOf e.source, toLex (e.isTypeOnly, e.kind.rank))

variable {entries : List Entry} {e x y : Entry}

theorem Kind.rank_inj {k k' : Kind} : k.rank = k'.rank ↔ k = k' := by
  cases k <;> cases k' <;> decide

theorem Entry.place_le_iff : x.place entries ≤ y.place entries ↔
    (entries.map (·.source)).idxOf x.source < (entries.map (·.source)).idxOf y.source ∨
      (entries.map (·.source)).idxOf x.source = (entries.map (·.source)).idxOf y.source ∧
        (x.isTypeOnly < y.isTypeOnly ∨
          x.isTypeOnly = y.isTypeOnly ∧ x.kind.rank ≤ y.kind.rank) := by
  rw [place, place, Prod.Lex.toLex_le_toLex, Prod.Lex.toLex_le_toLex]

/-- Entries of one place have one source, flavour and form. -/
theorem Entry.place_eq_iff (hx : x.source ∈ entries.map (·.source)) :
    y.place entries = x.place entries ↔
      y.source = x.source ∧ (y.isTypeOnly, y.kind) = (x.isTypeOnly, x.kind) := by
  rw [place, place, toLex_inj, Prod.mk.injEq, toLex_inj, Prod.mk.injEq, Kind.rank_inj,
    Prod.mk.injEq, eq_comm, List.idxOf_inj hx, eq_comm]

/-- Entries are written place by place. -/
theorem pairwise_place_arranged (entries : List Entry) :
    (arranged entries).Pairwise fun x y => x.place entries ≤ y.place entries := by
  have hsources : (sources entries).Pairwise fun s t =>
      (entries.map (·.source)).idxOf s < (entries.map (·.source)).idxOf t :=
    pairwise_idxOf_firsts (entries.map (·.source))
  have hforms : forms.Pairwise fun f g => f.1 < g.1 ∨ f.1 = g.1 ∧ f.2.rank ≤ g.2.rank := by decide
  refine List.pairwise_flatMap.2
    ⟨fun source _ => List.pairwise_flatMap.2 ⟨fun form _ => ?_, ?_⟩, ?_⟩
  · -- within a part
    refine List.pairwise_of_forall_mem_list fun x hx y hy => ?_
    obtain ⟨hsx, hfx⟩ := form_of_mem_written hx
    obtain ⟨hsy, hfy⟩ := form_of_mem_written hy
    obtain ⟨htype, hkind⟩ := Prod.mk.inj (hfx.trans hfy.symm)
    exact Entry.place_le_iff.2 (.inr ⟨by rw [hsx, hsy], .inr ⟨htype, by rw [hkind]⟩⟩)
  · -- between parts of one source
    refine hforms.imp fun {f g} hfg x hx y hy => ?_
    obtain ⟨hsx, rfl⟩ := form_of_mem_written hx
    obtain ⟨hsy, rfl⟩ := form_of_mem_written hy
    exact Entry.place_le_iff.2 (.inr ⟨by rw [hsx, hsy], hfg⟩)
  · -- between sources
    refine hsources.imp fun {s t} hst x hx y hy => ?_
    obtain ⟨f, -, hx⟩ := List.mem_flatMap.1 hx
    obtain ⟨g, -, hy⟩ := List.mem_flatMap.1 hy
    rw [← (form_of_mem_written hx).1, ← (form_of_mem_written hy).1] at hst
    exact Entry.place_le_iff.2 (.inl hst)

/-- The entries of one place are those of one source, flavour and form. -/
theorem filter_place_eq_part {es : List Entry} (he : e ∈ entries) :
    es.filter (·.place entries = e.place entries) = part e.source (e.isTypeOnly, e.kind) es := by
  unfold part ofKind flavoured
  rw [List.filter_filter]
  refine List.filter_congr fun x _ => ?_
  rw [Bool.eq_iff_iff, decide_eq_true_eq, Entry.place_eq_iff (List.mem_map_of_mem he),
    Prod.mk.injEq]
  simp [and_comm, and_left_comm, and_assoc]

/-- Repetitions are dropped part by part. -/
theorem part_firsts (source : String) (form : Bool × Kind) (entries : List Entry) :
    part source form (firsts Entry.unplaced entries) =
      firsts Entry.unplaced (part source form entries) := by
  have hsame {x y : Entry} (h : x.unplaced = y.unplaced) :
      x.source = y.source ∧ x.kind = y.kind ∧ x.isTypeOnly = y.isTypeOnly := by
    obtain ⟨-, hsource, hkind, -, htype⟩ := Entry.unplaced_eq_iff.1 h
    exact ⟨hsource, hkind, htype⟩
  unfold part ofKind flavoured
  rw [filter_firsts fun x y h => ?_, filter_firsts fun x y h => ?_]
  · rw [(hsame h).2.1]
  · rw [(hsame h).1, (hsame h).2.2]

/-- **The order of writing is a stable sort** by places, of the entries without repetitions. -/
theorem arranged_eq_mergeSort (entries : List Entry) : arranged entries =
    ((firsts Entry.unplaced entries).mergeSort (byKey (Entry.place entries))).map
      Entry.unplaced := by
  have hmap : ((firsts Entry.unplaced entries).mergeSort (byKey (Entry.place entries))).map
      Entry.unplaced = ((firsts Entry.unplaced entries).map Entry.unplaced).mergeSort
        (byKey (Entry.place entries)) :=
    List.map_mergeSort fun _ _ _ _ => rfl
  rw [hmap]
  refine eq_mergeSort_byKey (pairwise_place_arranged entries) fun k => ?_
  by_cases hk : ∃ e ∈ entries, e.place entries = k
  · obtain ⟨e, he, rfl⟩ := hk
    rw [filter_place_eq_part he, filter_place_eq_part he, part_arranged, firsts_map, ← part_firsts]
    unfold part ofKind flavoured
    rw [List.filter_map, List.filter_map]
    rfl
  · have hnone {es : List Entry} (h : ∀ x ∈ es, x ∈ entries.map Entry.unplaced) :
        es.filter (·.place entries = k) = [] := by
      rw [List.filter_eq_nil_iff]
      intro x hx
      obtain ⟨e, he, rfl⟩ := List.mem_map.1 (h x hx)
      rw [decide_eq_true_eq]
      exact fun heq => hk ⟨e, he, heq⟩
    rw [hnone fun x hx => mem_arranged_iff.1 hx, hnone fun x hx => ?_]
    obtain ⟨e, he, rfl⟩ := List.mem_map.1 hx
    exact List.mem_map_of_mem (mem_of_mem_firsts he)

/-! ### Lines -/

theorem originLine_of_mem_lineEntries {row : List Char} {number : Nat}
    (h : e ∈ lineEntries row number) : e.originLine = number := by
  unfold lineEntries at h
  split at h
  · rename_i s _
    unfold Statement.entries at h
    split at h
    · rw [List.mem_singleton.1 h]
      rfl
    · obtain ⟨item, -, rfl⟩ := List.mem_map.1 h
      rfl
  · cases h

theorem le_originLine_of_mem_linesEntries {rows : List (List Char)} {number : Nat}
    (h : e ∈ linesEntries number rows) : number ≤ e.originLine := by
  induction rows generalizing number with
  | nil => cases h
  | cons row rows ih =>
    rcases List.mem_append.1 h with h | h
    · exact le_of_eq (originLine_of_mem_lineEntries h).symm
    · exact Nat.le_of_succ_le (ih h)

/-- Every entry of the text of a barrel stands below the prologue. -/
theorem length_prologue_lt_originLine (before : String) (hne : entries ≠ [])
    (h : ∀ e ∈ entries, e.WellFormed) (he : e ∈ moduleEntries (barrelText before entries)) :
    (prologue before.toList).length < e.originLine := by
  rw [moduleEntries, lines_barrelText before hne h, linesEntries_of_not_isExportLine
    fun row hrow => not_isExportLine_of_mem_prologue hrow, Nat.add_comm] at he
  exact Nat.lt_of_succ_le (le_originLine_of_mem_linesEntries he)

/-- **Reading undoes writing.** From the text of a barrel with the given entries, these entries are
read again, up to their lines: without repetitions, sorted by their places, and otherwise in the
order in which they were given. The text begins with the prologue of the text before, whatever that
text was, and no entry is read from the prologue. -/
theorem moduleEntries_barrelText (before : String) (hne : entries ≠ [])
    (h : ∀ e ∈ entries, e.WellFormed) :
    (moduleEntries (barrelText before entries)).map Entry.unplaced =
      ((firsts Entry.unplaced entries).mergeSort (byKey (Entry.place entries))).map
        Entry.unplaced ∧
    prologue before.toList <+: lines (barrelText before entries).toList ∧
    ∀ e ∈ moduleEntries (barrelText before entries),
      (prologue before.toList).length < e.originLine := by
  refine ⟨?_, ?_, fun e he => length_prologue_lt_originLine before hne h he⟩
  · rw [unplaced_moduleEntries_barrelText before hne h, arranged_eq_mergeSort]
  · rw [lines_barrelText before hne h]
    exact List.prefix_append _ _

/-- Entries of two sources, mixed up, with a name that is given twice. -/
def mixedText : String :=
  "export { a, default, a } from \"x\";\nexport * from \"y\";\nexport type { type as as } from \"x\";"

/-- A text with a comment and a directive before its only entry. -/
def oldText : String :=
  "// names\n\"use client\";\nexport { b } from \"b\";\n"

theorem moduleEntries_barrelText_mixed :
    moduleEntries mixedText ≠ [] ∧ (∀ e ∈ moduleEntries mixedText, e.WellFormed) ∧
    (moduleEntries (barrelText oldText (moduleEntries mixedText))).map Entry.unplaced =
      ((firsts Entry.unplaced (moduleEntries mixedText)).mergeSort
        (byKey (Entry.place (moduleEntries mixedText)))).map Entry.unplaced ∧
    prologue oldText.toList <+: lines (barrelText oldText (moduleEntries mixedText)).toList ∧
    ∀ e ∈ moduleEntries (barrelText oldText (moduleEntries mixedText)),
      (prologue oldText.toList).length < e.originLine := by
  have hne : moduleEntries mixedText ≠ [] := by decide +kernel
  have h : ∀ e ∈ moduleEntries mixedText, e.WellFormed := fun e he =>
    wellFormed_of_mem_moduleEntries he
  exact ⟨hne, h, moduleEntries_barrelText oldText hne h⟩

/-- Defaults before names, types after values, and the twice named one once. -/
example : (moduleEntries (barrelText oldText (moduleEntries mixedText))).map
    (fun e => (e.source, e.isTypeOnly, e.specifier, e.originLine)) =
    [("x", false, "default", 2), ("x", false, "a", 3), ("x", true, "type", 4),
      ("y", false, "*", 5)] := by
  decide +kernel

end Reexport
