import Mathlib.Data.List.Induction
import Mathlib.Data.List.Nodup
import Reexport.Resolve

/-!
# Merging entries

Entries of one key cannot stand side by side in a barrel. `merged` puts entries together one after
another; an entry takes the place of the one with its key.

## What is proved

* `nodup_keys_merged` — no key is left twice.
* `exists_mem_merged_iff` — every key is left: merging drops no name, form or flavour.
* `exists_last_of_mem_merged` — an entry that is left is in the last group that has its key.
* `mem_merged_flatten_iff` — groups of entries that agree can be merged in any order.
-/

namespace Reexport

/-- Entries merged in their order: each in the place of the first with its key. -/
def merged (entries : List Entry) : List Entry :=
  entries.foldl mergeEntry []

variable {entries : List Entry} {e x : Entry}

theorem mem_mergeEntry (h : x ∈ mergeEntry entries e) :
    x = e ∨ x ∈ entries ∧ x.mergeKey ≠ e.mergeKey := by
  unfold mergeEntry at h
  split at h
  · obtain ⟨old, hold, heq⟩ := List.mem_map.1 h
    split at heq
    · exact .inl heq.symm
    · rename_i hkey
      rw [← heq]
      exact .inr ⟨hold, by simpa using hkey⟩
  · rename_i hany
    rcases List.mem_append.1 h with h | h
    · refine .inr ⟨h, fun hkey => hany ?_⟩
      exact List.any_eq_true.2 ⟨x, h, by simp [hkey]⟩
    · exact .inl (List.mem_singleton.1 h)

theorem self_mem_mergeEntry (entries : List Entry) (e : Entry) : e ∈ mergeEntry entries e := by
  unfold mergeEntry
  split
  · rename_i hany
    obtain ⟨old, hold, hkey⟩ := List.any_eq_true.1 hany
    exact List.mem_map.2 ⟨old, hold, by rw [if_pos hkey]⟩
  · simp

/-- An entry of another key stays. -/
theorem mem_mergeEntry_of_mem (h : x ∈ entries) (hkey : x.mergeKey ≠ e.mergeKey) :
    x ∈ mergeEntry entries e := by
  unfold mergeEntry
  split
  · exact List.mem_map.2 ⟨x, h, by rw [if_neg (by simpa using hkey)]⟩
  · exact List.mem_append_left _ h

theorem keys_mergeEntry (entries : List Entry) (e : Entry) :
    (mergeEntry entries e).map Entry.mergeKey =
      if e.mergeKey ∈ entries.map Entry.mergeKey then entries.map Entry.mergeKey
      else entries.map Entry.mergeKey ++ [e.mergeKey] := by
  have hany : entries.any (·.mergeKey == e.mergeKey) = true ↔
      e.mergeKey ∈ entries.map Entry.mergeKey := by simp
  unfold mergeEntry
  by_cases h : e.mergeKey ∈ entries.map Entry.mergeKey
  · rw [if_pos (hany.2 h), if_pos h, List.map_map]
    refine List.map_congr_left fun old _ => ?_
    show (if _ then e else old).mergeKey = old.mergeKey
    split
    · rename_i hkey
      exact (beq_iff_eq.1 hkey).symm
    · rfl
  · rw [if_neg (mt hany.1 h), if_neg h, List.map_append]
    rfl

theorem merged_append_singleton (entries : List Entry) (e : Entry) :
    merged (entries ++ [e]) = mergeEntry (merged entries) e := by
  simp [merged, List.foldl_append]

/-- Merging makes no entry. -/
theorem mem_of_mem_merged (h : x ∈ merged entries) : x ∈ entries := by
  induction entries using List.reverseRecOn with
  | nil => exact h
  | append_singleton entries e ih =>
    rw [merged_append_singleton] at h
    rcases mem_mergeEntry h with rfl | ⟨h, -⟩
    · exact List.mem_append_right _ List.mem_cons_self
    · exact List.mem_append_left _ (ih h)

theorem nodup_keys_merged (entries : List Entry) : ((merged entries).map Entry.mergeKey).Nodup := by
  induction entries using List.reverseRecOn with
  | nil => exact .nil
  | append_singleton entries e ih =>
    rw [merged_append_singleton, keys_mergeEntry]
    split
    · exact ih
    · rename_i hnew
      exact List.nodup_append.2 ⟨ih, by simp, by
        rintro k hk _ hk' rfl
        rw [List.mem_singleton] at hk'
        exact hnew (hk' ▸ hk)⟩

/-- Two entries that are left and have one key are one entry. -/
theorem eq_of_mem_merged {y : Entry} (hx : x ∈ merged entries) (hy : y ∈ merged entries)
    (hkey : x.mergeKey = y.mergeKey) : x = y :=
  List.inj_on_of_nodup_map (nodup_keys_merged entries) hx hy hkey

/-- Every key is left. -/
theorem exists_mem_merged_iff {key : MergeKey} :
    (∃ x ∈ merged entries, x.mergeKey = key) ↔ ∃ x ∈ entries, x.mergeKey = key := by
  constructor
  · rintro ⟨x, hx, hkey⟩
    exact ⟨x, mem_of_mem_merged hx, hkey⟩
  · intro h
    induction entries using List.reverseRecOn with
    | nil => exact h
    | append_singleton entries e ih =>
      rw [merged_append_singleton]
      by_cases hlast : e.mergeKey = key
      · exact ⟨e, self_mem_mergeEntry _ e, hlast⟩
      · obtain ⟨x, hx, hkey⟩ := h
        have hx : x ∈ entries := by
          rcases List.mem_append.1 hx with hx | hx
          · exact hx
          · exact absurd (List.mem_singleton.1 hx ▸ hkey) hlast
        obtain ⟨y, hy, hykey⟩ := ih ⟨x, hx, hkey⟩
        exact ⟨y, mem_mergeEntry_of_mem hy (by rw [hykey]; exact Ne.symm hlast), hykey⟩

/-- Where no key occurs twice, merging changes nothing. -/
theorem merged_of_nodup (h : (entries.map Entry.mergeKey).Nodup) : merged entries = entries := by
  induction entries using List.reverseRecOn with
  | nil => rfl
  | append_singleton entries e ih =>
    rw [List.map_append, List.nodup_append] at h
    obtain ⟨hentries, -, hapart⟩ := h
    have hnew : entries.any (·.mergeKey == e.mergeKey) = false := by
      rw [List.any_eq_false]
      intro x hx hkey
      exact hapart _ (List.mem_map_of_mem hx) _ (List.mem_map_of_mem List.mem_cons_self)
        (beq_iff_eq.1 hkey)
    rw [merged_append_singleton, ih hentries, mergeEntry, hnew]
    rfl

theorem mem_mergeEntry_iff :
    x ∈ mergeEntry entries e ↔ x = e ∨ x ∈ entries ∧ x.mergeKey ≠ e.mergeKey := by
  refine ⟨mem_mergeEntry, ?_⟩
  rintro (rfl | ⟨hx, hkey⟩)
  · exact self_mem_mergeEntry entries x
  · exact mem_mergeEntry_of_mem hx hkey

/-- What is left of two lists: what is left of the second, and what is left of the first under other
keys. -/
theorem mem_merged_append_iff {before after : List Entry} : x ∈ merged (before ++ after) ↔
    x ∈ merged after ∨ x ∈ merged before ∧ ∀ y ∈ after, y.mergeKey ≠ x.mergeKey := by
  induction after using List.reverseRecOn with
  | nil => simp [merged]
  | append_singleton after e ih =>
    rw [← List.append_assoc, merged_append_singleton, merged_append_singleton, mem_mergeEntry_iff,
      mem_mergeEntry_iff, ih]
    simp only [List.mem_append, List.mem_singleton, or_imp, forall_and, forall_eq]
    constructor
    · rintro (rfl | ⟨hx | ⟨hx, hafter⟩, hkey⟩)
      · exact .inl (.inl rfl)
      · exact .inl (.inr ⟨hx, hkey⟩)
      · exact .inr ⟨hx, hafter, Ne.symm hkey⟩
    · rintro ((rfl | ⟨hx, hkey⟩) | ⟨hx, hafter, hkey⟩)
      · exact .inl rfl
      · exact .inr ⟨.inl hx, hkey⟩
      · exact .inr ⟨.inr ⟨hx, hafter⟩, Ne.symm hkey⟩

/-- Groups of entries, no two of which leave different entries under one key. -/
def Agreeing (groups : List (List Entry)) : Prop :=
  ∀ g ∈ groups, ∀ g' ∈ groups, ∀ x ∈ merged g, ∀ y ∈ merged g', x.mergeKey = y.mergeKey → x = y

instance (groups : List (List Entry)) : Decidable (Agreeing groups) := by
  unfold Agreeing
  infer_instance

/-- Whether groups agree does not depend on their order. -/
theorem Agreeing.of_perm {groups groups' : List (List Entry)} (h : Agreeing groups)
    (hperm : groups.Perm groups') : Agreeing groups' :=
  fun g hg g' hg' => h g (hperm.mem_iff.2 hg) g' (hperm.mem_iff.2 hg')

/-- All that is left of each of some groups that agree is left of all of them. -/
theorem mem_merged_flatten_iff {groups : List (List Entry)} (h : Agreeing groups) :
    x ∈ merged groups.flatten ↔ ∃ g ∈ groups, x ∈ merged g := by
  induction groups generalizing x with
  | nil => simp [merged]
  | cons g groups ih =>
    have ih' {x : Entry} : x ∈ merged groups.flatten ↔ ∃ g ∈ groups, x ∈ merged g :=
      ih fun g hg g' hg' => h g (List.mem_cons_of_mem _ hg) g' (List.mem_cons_of_mem _ hg')
    rw [List.flatten_cons, mem_merged_append_iff]
    constructor
    · rintro (hx | ⟨hx, -⟩)
      · obtain ⟨g', hg', hx⟩ := ih'.1 hx
        exact ⟨g', List.mem_cons_of_mem _ hg', hx⟩
      · exact ⟨g, List.mem_cons_self, hx⟩
    · rintro ⟨g', hg', hx⟩
      rcases List.mem_cons.1 hg' with rfl | hlater
      · by_cases hkey : ∃ y ∈ groups.flatten, y.mergeKey = x.mergeKey
        · -- A later entry under the key is the same one.
          obtain ⟨y, hy, hykey⟩ := exists_mem_merged_iff.2 hkey
          obtain ⟨g'', hg'', hy'⟩ := ih'.1 hy
          obtain rfl := h g' List.mem_cons_self g'' (List.mem_cons_of_mem _ hg'') x hx y hy' hykey.symm
          exact .inl hy
        · exact .inr ⟨hx, fun y hy hykey => hkey ⟨y, hy, hykey⟩⟩
      · exact .inl (ih'.2 ⟨g', hlater, hx⟩)

/-- An entry is left, unless a later one has its key. -/
theorem mem_merged_append_cons {before after : List Entry}
    (h : x ∈ merged (before ++ e :: after)) (hkey : x.mergeKey = e.mergeKey) :
    x = e ∧ (∀ y ∈ after, y.mergeKey ≠ x.mergeKey) ∨ x ∈ merged after := by
  rcases mem_merged_append_iff.1 h with h | ⟨-, hafter⟩
  · rw [← List.singleton_append, mem_merged_append_iff] at h
    rcases h with h | ⟨h, hafter⟩
    · exact .inr h
    · exact .inl ⟨List.mem_singleton.1 (mem_of_mem_merged h), hafter⟩
  · exact absurd hkey.symm (hafter e List.mem_cons_self)

/-- **The last write wins**: an entry that is left is in the last group that has its key. -/
theorem exists_last_of_mem_merged {groups : List (List Entry)} (h : x ∈ merged groups.flatten) :
    ∃ earlier last later, groups = earlier ++ last :: later ∧ x ∈ last ∧
      ∀ group ∈ later, ∀ y ∈ group, y.mergeKey ≠ x.mergeKey := by
  induction groups using List.reverseRecOn with
  | nil => exact absurd h List.not_mem_nil
  | append_singleton groups last ih =>
    rw [List.flatten_append, List.flatten_singleton, mem_merged_append_iff] at h
    rcases h with h | ⟨h, hlast⟩
    · exact ⟨groups, last, [], rfl, mem_of_mem_merged h, nofun⟩
    · obtain ⟨earlier, group, later, rfl, hx, hlater⟩ := ih h
      refine ⟨earlier, group, later ++ [last], by simp, hx, fun other hother => ?_⟩
      rcases List.mem_append.1 hother with hother | hother
      · exact hlater other hother
      · rw [List.mem_singleton.1 hother]
        exact hlast

end Reexport
