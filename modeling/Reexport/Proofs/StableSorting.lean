import Mathlib.Data.List.Basic
import Mathlib.Order.Lattice
import Reexport.Entry.Distinct

/-!
# Stable sorting

The library's `List.mergeSort` by a key in a linear order. Stability is said of the items of one key:
picked out of the sorted list, they are what they are in the list given, repetitions and order
included. Two items of one key may be told apart by anything else, so whatever a pair of them has in
the list given it has in the sorted one.

## What is proved

* `filter_mergeSort_byKey` — items of one key keep their order.
* `eq_mergeSort_byKey` — a list is the stable sort of another by a key if it is sorted and has, for
  each key, the items of that key in the order given.
* `pairwise_mergeSort_byKey_of` — the sorted items stand in the order of their keys and, of one key,
  in any order in which they stood before.
* `pairwise_idxOf_firsts` — first items stand in the order of first occurrence.
-/

namespace Reexport

variable {α γ : Type} [LinearOrder γ] {key : α → γ} {xs ys zs : List α}

/-- Whether an item may stand before another by its key. -/
def byKey (key : α → γ) (a b : α) : Bool :=
  decide (key a ≤ key b)

theorem byKey_iff {a b : α} : byKey key a b = true ↔ key a ≤ key b :=
  decide_eq_true_iff

theorem byKey_trans (a b c : α) (hab : byKey key a b = true) (hbc : byKey key b c = true) :
    byKey key a c = true :=
  byKey_iff.2 (le_trans (byKey_iff.1 hab) (byKey_iff.1 hbc))

theorem byKey_total (a b : α) : (byKey key a b || byKey key b a) = true := by
  rw [Bool.or_eq_true, byKey_iff, byKey_iff]
  exact le_total (key a) (key b)

theorem pairwise_mergeSort_byKey (key : α → γ) (xs : List α) :
    (xs.mergeSort (byKey key)).Pairwise fun a b => key a ≤ key b :=
  (List.pairwise_mergeSort byKey_trans byKey_total xs).imp byKey_iff.1

/-- Items of one key keep their order. -/
theorem filter_mergeSort_byKey (key : α → γ) (xs : List α) (k : γ) :
    (xs.mergeSort (byKey key)).filter (key · = k) = xs.filter (key · = k) := by
  have hties : (xs.filter (key · = k)).Pairwise fun a b => byKey key a b = true := by
    refine List.pairwise_of_forall_mem_list fun a ha b hb => byKey_iff.2 (le_of_eq ?_)
    have hkey {c : α} (hc : c ∈ xs.filter (key · = k)) : key c = k := by
      simpa using (List.mem_filter.1 hc).2
    rw [hkey ha, hkey hb]
  have hsub := (List.sublist_mergeSort byKey_trans byKey_total hties List.filter_sublist).filter
    (key · = k)
  rw [List.filter_filter] at hsub
  simp only [Bool.and_self] at hsub
  have hlength := ((List.mergeSort_perm xs (byKey key)).filter (key · = k)).length_eq
  exact (hsub.eq_of_length hlength.symm).symm

theorem mem_iff_of_filter_eq (h : ∀ k, ys.filter (key · = k) = zs.filter (key · = k)) (a : α) :
    a ∈ ys ↔ a ∈ zs := by
  have hclass : a ∈ ys.filter (key · = key a) ↔ a ∈ zs.filter (key · = key a) := by rw [h]
  simpa using hclass

/-- A sorted list is determined by its items of each key. -/
theorem eq_of_filter_eq (hys : ys.Pairwise fun a b => key a ≤ key b)
    (hzs : zs.Pairwise fun a b => key a ≤ key b)
    (h : ∀ k, ys.filter (key · = k) = zs.filter (key · = k)) : ys = zs := by
  induction ys generalizing zs with
  | nil =>
    exact (List.eq_nil_iff_forall_not_mem.2 fun a ha =>
      List.not_mem_nil ((mem_iff_of_filter_eq h a).2 ha)).symm
  | cons y ys ih =>
    have hmem := mem_iff_of_filter_eq h
    cases zs with
    | nil => exact absurd ((hmem y).1 List.mem_cons_self) List.not_mem_nil
    | cons z zs =>
      obtain ⟨hy, hys⟩ := List.pairwise_cons.1 hys
      obtain ⟨hz, hzs'⟩ := List.pairwise_cons.1 hzs
      -- Each first item is in the other list too, so neither has the smaller key.
      have hyz : key y ≤ key z := by
        rcases List.mem_cons.1 ((hmem z).2 List.mem_cons_self) with rfl | hz'
        · exact le_rfl
        · exact hy z hz'
      have hzy : key z ≤ key y := by
        rcases List.mem_cons.1 ((hmem y).1 List.mem_cons_self) with rfl | hy'
        · exact le_rfl
        · exact hz y hy'
      have hclass := h (key y)
      rw [List.filter_cons_of_pos (by simp),
        List.filter_cons_of_pos (by simpa using le_antisymm hzy hyz), List.cons.injEq] at hclass
      obtain ⟨rfl, -⟩ := hclass
      refine congrArg (y :: ·) (ih hys hzs' fun k => ?_)
      have hk := h k
      by_cases hyk : key y = k
      · simpa [hyk] using hk
      · simpa [hyk] using hk

/-- **What a stable sort is**: the sorted list that has the items of each key in the order given. -/
theorem eq_mergeSort_byKey (hys : ys.Pairwise fun a b => key a ≤ key b)
    (h : ∀ k, ys.filter (key · = k) = xs.filter (key · = k)) : ys = xs.mergeSort (byKey key) :=
  eq_of_filter_eq hys (pairwise_mergeSort_byKey key xs) fun k => by
    rw [h, filter_mergeSort_byKey]

/-- Sorted items stand in the order of their keys; those of one key stand in any order in which all
items stood before. -/
theorem pairwise_mergeSort_byKey_of {R : α → α → Prop} (key : α → γ) (h : xs.Pairwise R) :
    (xs.mergeSort (byKey key)).Pairwise fun a b => key a < key b ∨ key a = key b ∧ R a b := by
  rw [List.pairwise_iff_forall_sublist] at h ⊢
  intro a b hab
  have hle : key a ≤ key b :=
    List.pairwise_iff_forall_sublist.1 (pairwise_mergeSort_byKey key xs) hab
  refine hle.lt_or_eq.imp_right fun heq => ⟨heq, h ?_⟩
  -- Both items are among those of their key, which stood in this order before.
  have hpair : [a, b].filter (key · = key b) = [a, b] := by simp [heq]
  have hties := hab.filter (key · = key b)
  rw [hpair, filter_mergeSort_byKey] at hties
  exact hties.trans List.filter_sublist

/-- First items stand in the order of first occurrence. -/
theorem pairwise_idxOf_firsts {β : Type} [DecidableEq β] (xs : List β) :
    (firsts id xs).Pairwise fun a b => xs.idxOf a < xs.idxOf b := by
  suffices ∀ seen, (firstsAfter id seen xs).Pairwise fun a b => xs.idxOf a < xs.idxOf b from
    this []
  intro seen
  induction xs generalizing seen with
  | nil => exact .nil
  | cons x xs ih =>
    have hlater {seen : List β} (hx : x ∈ seen) :
        (firstsAfter id seen xs).Pairwise fun a b => (x :: xs).idxOf a < (x :: xs).idxOf b := by
      refine (ih seen).imp_of_mem fun {a b} ha hb hab => ?_
      have hne {c : β} (hc : c ∈ firstsAfter id seen xs) : x ≠ c := fun heq =>
        not_mem_seen_of_mem_firstsAfter hc (heq ▸ hx)
      rw [List.idxOf_cons_ne _ (hne ha), List.idxOf_cons_ne _ (hne hb)]
      exact Nat.succ_lt_succ hab
    unfold firstsAfter
    split
    · rename_i hx
      exact hlater hx
    · refine .cons (fun b hb => ?_) (hlater List.mem_cons_self)
      have hne : x ≠ b := fun heq =>
        not_mem_seen_of_mem_firstsAfter hb (heq ▸ List.mem_cons_self)
      rw [List.idxOf_cons_self, List.idxOf_cons_ne _ hne]
      exact Nat.succ_pos _

/-- First items stand in the order in which their keys occur first. -/
theorem pairwise_idxOf_map_firsts {β : Type} [DecidableEq β] (key : α → β) (xs : List α) :
    (firsts key xs).Pairwise fun a b =>
      (xs.map key).idxOf (key a) < (xs.map key).idxOf (key b) := by
  have h := pairwise_idxOf_firsts (xs.map key)
  rwa [firsts_map, List.pairwise_map] at h

end Reexport
