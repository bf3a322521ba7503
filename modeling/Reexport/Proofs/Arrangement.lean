import Mathlib.Data.List.Nodup
import Mathlib.Data.List.Perm.Basic
import Mathlib.Data.String.Basic
import Reexport.Entry.Sorted
import Reexport.Layout

/-!
# The order in which entries are written

`arranged entries` are the entries in the order in which the text of a barrel holds them: source by
source in the order of first use, the values of a source before its types, and of each flavour whole
namespaces, then default bindings, then names. Of entries that differ in their lines only, the first
one is kept; the lines themselves are set to 0.

## What is proved

* `part_arranged` — arranging leaves the order within one source, flavour and form.
* `arranged_arranged`, `sourceStatements_arranged` — so it is done after one time, and does not change
  the statements that are written.
* `arranged_sorted_of_unplaced` — sorted entries that were written are sorted and arranged as they are
  written, for a stable sort leaves what is in order.
-/

namespace Reexport

/-! ### Lines -/

/-- An entry on another line. -/
def Entry.atLine (e : Entry) (line : Nat) : Entry :=
  { e with originLine := line }

/-- An entry without its line. -/
def Entry.unplaced (e : Entry) : Entry :=
  e.atLine 0

namespace Entry

variable {e x y : Entry}

theorem unplaced_unplaced (e : Entry) : e.unplaced.unplaced = e.unplaced := rfl

theorem itemText_unplaced (e : Entry) : itemText e.unplaced = itemText e := rfl

/-- Entries differ in their lines only if they have the same parts. -/
theorem unplaced_eq_iff : x.unplaced = y.unplaced ↔ x.specifier = y.specifier ∧
    x.source = y.source ∧ x.kind = y.kind ∧ x.asName = y.asName ∧
    x.isTypeOnly = y.isTypeOnly := by
  cases x
  cases y
  simp [unplaced, atLine]

end Entry

/-! ### Parts -/

/-- The flavours and forms in the order in which they are written. -/
def forms : List (Bool × Kind) :=
  [(false, .star), (false, .default), (false, .named), (true, .star), (true, .default),
    (true, .named)]

theorem mem_forms (form : Bool × Kind) : form ∈ forms := by
  obtain ⟨t, kind⟩ := form
  cases t <;> cases kind <;> decide

theorem nodup_forms : forms.Nodup := by decide

/-- The entries of one source, flavour and form. -/
def part (source : String) (form : Bool × Kind) (entries : List Entry) : List Entry :=
  ofKind form.2 (flavoured source form.1 entries)

/-- The entries in the order in which they are written. -/
def arranged (entries : List Entry) : List Entry :=
  (sources entries).flatMap fun source =>
    forms.flatMap fun form => firsts id ((part source form entries).map Entry.unplaced)

variable {entries : List Entry} {source : String} {form : Bool × Kind} {e x : Entry}

theorem mem_part_iff : e ∈ part source form entries ↔
    e ∈ entries ∧ e.source = source ∧ (e.isTypeOnly, e.kind) = form := by
  obtain ⟨t, kind⟩ := form
  simp [part, ofKind, flavoured, and_assoc, and_comm, and_left_comm]

theorem mem_sources_iff : source ∈ sources entries ↔ ∃ e ∈ entries, e.source = source := by
  rw [sources, mem_firsts_id_iff, List.mem_map]

theorem nodup_sources (entries : List Entry) : (sources entries).Nodup :=
  nodup_firsts_id _

/-- The arranged entries are those given, without their lines. -/
theorem mem_arranged_iff : x ∈ arranged entries ↔ x ∈ entries.map Entry.unplaced := by
  simp only [arranged, List.mem_flatMap, mem_firsts_id_iff, List.mem_map, mem_part_iff]
  constructor
  · rintro ⟨-, -, -, -, e, ⟨he, -⟩, rfl⟩
    exact ⟨e, he, rfl⟩
  · rintro ⟨e, he, rfl⟩
    exact ⟨e.source, mem_sources_iff.2 ⟨e, he, rfl⟩, _, mem_forms (e.isTypeOnly, e.kind), e,
      ⟨he, rfl, rfl⟩, rfl⟩

/-- Of the lists put together, one alone has anything. -/
theorem flatMap_eq_of_nodup {α β : Type} {f : α → List β} {xs : List α} {a : α} (hxs : xs.Nodup)
    (ha : a ∈ xs) (h : ∀ b ∈ xs, b ≠ a → f b = []) : xs.flatMap f = f a := by
  induction xs with
  | nil => cases ha
  | cons b xs ih =>
    obtain ⟨hb, hxs⟩ := List.nodup_cons.1 hxs
    rw [List.forall_mem_cons] at h
    rw [List.flatMap_cons]
    rcases List.mem_cons.1 ha with rfl | ha
    · have hnil : xs.flatMap f = [] := List.flatMap_eq_nil_iff.2 fun c hc =>
        h.2 c hc fun heq => hb (heq ▸ hc)
      rw [hnil, List.append_nil]
    · rw [h.1 (fun heq => hb (heq ▸ ha)), ih hxs ha h.2, List.nil_append]

/-- The part of a list with that very source, flavour and form. -/
theorem part_self {xs : List Entry}
    (h : ∀ x ∈ xs, x.source = source ∧ (x.isTypeOnly, x.kind) = form) :
    part source form xs = xs := by
  obtain ⟨t, kind⟩ := form
  unfold part ofKind flavoured
  rw [List.filter_filter, List.filter_eq_self]
  intro x hx
  obtain ⟨hsource, hform⟩ := h x hx
  rw [Prod.mk.injEq] at hform
  simp [hsource, hform.1, hform.2]

theorem part_flatMap {α : Type} (f : α → List Entry) (xs : List α) :
    part source form (xs.flatMap f) = xs.flatMap fun a => part source form (f a) := by
  simp [part, ofKind, flavoured, List.filter_flatMap]

/-- What is written of a part is of its source, flavour and form. -/
theorem form_of_mem_written
    (h : x ∈ firsts id ((part source form entries).map Entry.unplaced)) :
    x.source = source ∧ (x.isTypeOnly, x.kind) = form := by
  rw [mem_firsts_id_iff, List.mem_map] at h
  obtain ⟨e, he, rfl⟩ := h
  exact (mem_part_iff.1 he).2

/-- Within one source, flavour and form, the order is that in which the entries were given. -/
theorem part_arranged (entries : List Entry) (source : String) (form : Bool × Kind) :
    part source form (arranged entries) =
      firsts id ((part source form entries).map Entry.unplaced) := by
  have hother {s : String} {f : Bool × Kind} (hne : ¬(s = source ∧ f = form)) :
      part source form (firsts id ((part s f entries).map Entry.unplaced)) = [] := by
    rw [List.eq_nil_iff_forall_not_mem]
    intro x hx
    obtain ⟨hx, hs, hf⟩ := mem_part_iff.1 hx
    obtain ⟨hs', hf'⟩ := form_of_mem_written hx
    exact hne ⟨hs'.symm.trans hs, hf'.symm.trans hf⟩
  unfold arranged
  rw [part_flatMap]
  by_cases hs : source ∈ sources entries
  · rw [flatMap_eq_of_nodup (nodup_sources entries) hs, part_flatMap,
      flatMap_eq_of_nodup nodup_forms (mem_forms form), part_self fun x hx => form_of_mem_written hx]
    · exact fun f _ hf => hother fun h => hf h.2
    · intro s _ hne
      rw [part_flatMap, List.flatMap_eq_nil_iff]
      exact fun f _ => hother fun h => hne h.1
  · have hnil : part source form entries = [] := by
      rw [List.eq_nil_iff_forall_not_mem]
      intro e he
      obtain ⟨he, hsource, -⟩ := mem_part_iff.1 he
      exact hs (mem_sources_iff.2 ⟨e, he, hsource⟩)
    rw [hnil, List.flatMap_eq_nil_iff.2]
    · rfl
    · intro s hmem
      rw [part_flatMap, List.flatMap_eq_nil_iff]
      exact fun f _ => hother fun h => hs (h.1 ▸ hmem)

/-- Lists of one source each, put together, use these sources in that order. -/
theorem sources_flatMap {f : String → List Entry} {ss : List String} (hss : ss.Nodup)
    (h : ∀ s ∈ ss, f s ≠ [] ∧ ∀ e ∈ f s, e.source = s) : sources (ss.flatMap f) = ss := by
  suffices ∀ seen, (∀ s ∈ ss, s ∉ seen) →
      firstsAfter id seen ((ss.flatMap f).map (·.source)) = ss from
    this [] fun _ _ => List.not_mem_nil
  intro seen hseen
  induction ss generalizing seen with
  | nil => rfl
  | cons s ss ih =>
    rw [List.forall_mem_cons] at h hseen
    obtain ⟨⟨hne, hs⟩, hrest⟩ := h
    obtain ⟨hnew, hss⟩ := List.nodup_cons.1 hss
    cases hfs : f s with
    | nil => exact absurd hfs hne
    | cons e es =>
      rw [hfs, List.forall_mem_cons] at hs
      have hseen' : ∀ x ∈ es.map (·.source), id x ∈ s :: seen := by
        intro x hx
        obtain ⟨y, hy, rfl⟩ := List.mem_map.1 hx
        exact (hs.2 y hy) ▸ List.mem_cons_self
      rw [List.flatMap_cons, hfs, List.cons_append, List.map_cons, hs.1]
      unfold firstsAfter
      rw [if_neg (show id s ∉ seen from hseen.1), List.map_append]
      refine congrArg (s :: ·) ((firstsAfter_append_of_seen hseen' _).trans ?_)
      refine ih hss hrest (s :: seen) fun s' hs' hmem => ?_
      rcases List.mem_cons.1 hmem with rfl | hmem
      · exact hnew hs'
      · exact hseen.2 s' hs' hmem

theorem sources_arranged (entries : List Entry) : sources (arranged entries) = sources entries := by
  refine sources_flatMap (nodup_sources entries) fun s hs => ⟨?_, ?_⟩
  · obtain ⟨e, he, rfl⟩ := mem_sources_iff.1 hs
    intro hnil
    rw [List.flatMap_eq_nil_iff] at hnil
    have hmem : e.unplaced ∈ firsts id ((part e.source (e.isTypeOnly, e.kind) entries).map
        Entry.unplaced) :=
      mem_firsts_id_iff.2 (List.mem_map_of_mem (mem_part_iff.2 ⟨he, rfl, rfl⟩))
    rw [hnil _ (mem_forms _)] at hmem
    cases hmem
  · intro e he
    obtain ⟨form, -, he⟩ := List.mem_flatMap.1 he
    exact (form_of_mem_written he).1

/-- No entry is written twice. -/
theorem nodup_arranged (entries : List Entry) : (arranged entries).Nodup := by
  rw [List.nodup_iff_count_le_one]
  intro x
  have hpart : (arranged entries).count x =
      (part x.source (x.isTypeOnly, x.kind) (arranged entries)).count x := by
    unfold part ofKind flavoured
    rw [List.count_filter (by simp), List.count_filter (by simp)]
  have hnodup := nodup_firsts_id
    ((part x.source (x.isTypeOnly, x.kind) entries).map Entry.unplaced)
  rw [hpart, part_arranged]
  exact List.nodup_iff_count_le_one.1 hnodup x

/-- What is arranged stays as it is. -/
theorem arranged_arranged (entries : List Entry) : arranged (arranged entries) = arranged entries := by
  rw [arranged, sources_arranged]
  refine List.flatMap_congr fun source _ => List.flatMap_congr fun form _ => ?_
  have hunplaced : (firsts id ((part source form entries).map Entry.unplaced)).map Entry.unplaced =
      firsts id ((part source form entries).map Entry.unplaced) := by
    rw [firsts_map, List.map_map]
    rfl
  rw [part_arranged, hunplaced]
  exact firsts_of_nodup (nodup_map_firsts id _)

theorem part_map_unplaced (source : String) (form : Bool × Kind) (entries : List Entry) :
    part source form (entries.map Entry.unplaced) =
      (part source form entries).map Entry.unplaced := by
  unfold part ofKind flavoured
  rw [List.filter_map, List.filter_map]
  rfl

/-- Lines play no part. -/
theorem arranged_map_unplaced (entries : List Entry) :
    arranged (entries.map Entry.unplaced) = arranged entries := by
  have hsources : sources (entries.map Entry.unplaced) = sources entries := by
    rw [sources, List.map_map]
    rfl
  rw [arranged, hsources]
  refine List.flatMap_congr fun source _ => List.flatMap_congr fun form _ => ?_
  rw [part_map_unplaced, List.map_map]
  rfl

/-! ### Statements -/

/-- The statements of one source are the same for the arranged entries. -/
theorem sourceStatements_arranged (entries : List Entry) (source : String) :
    sourceStatements (arranged entries) source = sourceStatements entries source := by
  have hfirsts {β : Type} [DecidableEq β] (g : Entry → β)
      (hg : ∀ x y : Entry, x.unplaced = y.unplaced → g x = g y) (form : Bool × Kind) :
      firsts id ((part source form (arranged entries)).map g) =
        firsts id ((part source form entries).map g) := by
    have hsame : g ∘ Entry.unplaced = g := funext fun x => hg _ _ (Entry.unplaced_unplaced x)
    rw [part_arranged, firsts_map Entry.unplaced, List.map_map, hsame, firsts_map g,
      firsts_firsts hg, ← firsts_map g]
  have htext (t : Bool) (kind : Kind) :
      itemTexts (ofKind kind (flavoured source t (arranged entries))) =
        itemTexts (ofKind kind (flavoured source t entries)) :=
    hfirsts itemText (fun x y h => by rw [← x.itemText_unplaced, h, y.itemText_unplaced]) (t, kind)
  have hname (t : Bool) :
      firsts id ((ofKind .star (flavoured source t (arranged entries))).map (·.asName)) =
        firsts id ((ofKind .star (flavoured source t entries)).map (·.asName)) :=
    hfirsts (·.asName) (fun x y h => (Entry.unplaced_eq_iff.1 h).2.2.2.1) (t, .star)
  unfold sourceStatements statementTexts
  simp only [htext, hname]

/-! ### Sorted entries -/

theorem precedes_iff {a b : Entry} : a.precedes b = true ↔
    a.source < b.source ∨ a.source = b.source ∧ a.exportedName ≤ b.exportedName := by
  simp [Entry.precedes]

theorem precedes_trans (a b c : Entry) (hab : a.precedes b = true) (hbc : b.precedes c = true) :
    a.precedes c = true := by
  rw [precedes_iff] at hab hbc ⊢
  rcases hab with hab | ⟨hab, hname⟩
  · rcases hbc with hbc | ⟨hbc, -⟩
    · exact .inl (lt_trans hab hbc)
    · exact .inl (hbc ▸ hab)
  · rcases hbc with hbc | ⟨hbc, hname'⟩
    · exact .inl (hab ▸ hbc)
    · exact .inr ⟨hab.trans hbc, le_trans hname hname'⟩

theorem precedes_total (a b : Entry) : (a.precedes b || b.precedes a) = true := by
  rw [Bool.or_eq_true, precedes_iff, precedes_iff]
  rcases lt_trichotomy a.source b.source with h | h | h
  · exact .inl (.inl h)
  · exact (le_total a.exportedName b.exportedName).imp (fun hn => .inr ⟨h, hn⟩)
      fun hn => .inr ⟨h.symm, hn⟩
  · exact .inr (.inl h)

theorem pairwise_sorted (entries : List Entry) :
    (sorted entries).Pairwise fun a b => a.precedes b = true :=
  List.pairwise_mergeSort precedes_trans precedes_total entries

/-- Sorted entries use their sources in one order. -/
theorem sources_sorted_of_mem_iff {left right : List Entry}
    (h : ∀ x, x ∈ left.map Entry.unplaced ↔ x ∈ right.map Entry.unplaced) :
    sources (sorted left) = sources (sorted right) := by
  have hsorted (entries : List Entry) : (sources (sorted entries)).Pairwise (· ≤ ·) := by
    refine List.Pairwise.sublist (firstsAfter_sublist id [] _) (List.pairwise_map.2 ?_)
    refine (pairwise_sorted entries).imp fun {a b} hab => ?_
    rcases precedes_iff.1 hab with hlt | ⟨heq, -⟩
    · exact le_of_lt hlt
    · exact le_of_eq heq
  have hmem (entries : List Entry) (s : String) : s ∈ sources (sorted entries) ↔
      ∃ x ∈ entries.map Entry.unplaced, x.source = s := by
    rw [mem_sources_iff]
    constructor
    · rintro ⟨e, he, rfl⟩
      exact ⟨e.unplaced, List.mem_map_of_mem ((sorted_perm entries).mem_iff.1 he), rfl⟩
    · rintro ⟨_, hx, rfl⟩
      obtain ⟨e, he, rfl⟩ := List.mem_map.1 hx
      exact ⟨e, (sorted_perm entries).mem_iff.2 he, rfl⟩
  refine List.Perm.eq_of_pairwise (fun _ _ _ _ => le_antisymm) (hsorted left) (hsorted right) ?_
  rw [List.perm_ext_iff_of_nodup (nodup_sources _) (nodup_sources _)]
  intro s
  rw [hmem, hmem]
  simp only [h]

/-- Sorting leaves the part of one source, flavour and form as it is, if it is in order. -/
theorem part_sorted_of_pairwise
    (h : (part source form entries).Pairwise fun a b => a.precedes b = true) :
    part source form (sorted entries) = part source form entries := by
  have hparts {xs ys : List Entry} (hsub : xs.Sublist ys) :
      (part source form xs).Sublist (part source form ys) := (hsub.filter _).filter _
  have hkept : (part source form entries).Sublist (sorted entries) :=
    List.sublist_mergeSort precedes_trans precedes_total h
      (List.filter_sublist.trans List.filter_sublist)
  have hsub := hparts hkept
  rw [part_self fun x hx => (mem_part_iff.1 hx).2] at hsub
  have hlength : (part source form (sorted entries)).length = (part source form entries).length :=
    (((sorted_perm entries).filter _).filter _).length_eq
  exact (hsub.eq_of_length hlength.symm).symm

/-- Entries that were written in order are sorted and arranged as they are written. -/
theorem arranged_sorted_of_unplaced {written : List Entry}
    (h : written.map Entry.unplaced = arranged (sorted entries)) :
    arranged (sorted written) = arranged (sorted entries) := by
  have hsources : sources (sorted written) = sources (sorted entries) := by
    refine sources_sorted_of_mem_iff fun x => ?_
    rw [h, mem_arranged_iff, List.mem_map, List.mem_map]
    simp only [(sorted_perm entries).mem_iff]
  rw [arranged, arranged, hsources]
  refine List.flatMap_congr fun source _ => List.flatMap_congr fun form _ => ?_
  have hpart : (part source form written).map Entry.unplaced =
      firsts id ((part source form (sorted entries)).map Entry.unplaced) := by
    rw [← part_map_unplaced, h, part_arranged]
  have hordered : (part source form written).Pairwise fun a b => a.precedes b = true := by
    have hsorted : ((part source form (sorted entries)).map Entry.unplaced).Pairwise
        fun a b => a.precedes b = true :=
      List.pairwise_map.2 (((pairwise_sorted entries).filter _).filter _)
    have hwritten := hsorted.sublist (firstsAfter_sublist id [] _)
    rw [← firsts, ← hpart] at hwritten
    exact List.pairwise_map.1 hwritten
  rw [part_sorted_of_pairwise hordered, hpart]
  exact firsts_of_nodup (nodup_map_firsts id _)

end Reexport
