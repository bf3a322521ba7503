import Mathlib.Data.List.Nodup

/-!
# Tables

A table is a list of keys and values, and what is found under a key is the first value with that key.
A value is put in place of those under its key, or at the end if there is none. Either way it is found
afterwards, and what is found under any other key stays.

## What is proved

* `lookup_put` — what is found under each key after a value is put.
* `lookup_of_mem` — a value is found if its key stands for it alone.
-/

namespace Reexport

variable {α : Type}

theorem lookup_replaced (table : List (String × α)) (key : String) (value : α) (other : String) :
    (table.map fun e => if e.1 == key then (key, value) else e).lookup other =
      (table.lookup other).map fun old => if other = key then value else old := by
  induction table with
  | nil => rfl
  | cons e table ih =>
    obtain ⟨first, old⟩ := e
    by_cases hother : other = first
    · subst hother
      by_cases hkey : other = key <;> simp [hkey]
    · have hne : (other == first) = false := by simpa using hother
      have hfirst : (if first == key then (key, value) else (first, old)).1 = first := by
        by_cases hkey : first = key <;> simp [hkey]
      rw [List.map_cons, List.lookup_cons, List.lookup_cons, hfirst, hne]
      exact ih

theorem lookup_eq_none_iff_any {table : List (String × α)} {key : String} :
    table.lookup key = none ↔ table.any (·.1 == key) = false := by
  simp only [List.lookup_eq_none_iff, List.any_eq_false, bne_iff_ne, beq_iff_eq, ne_comm]

/-- **A value that is put under a key** is found there, and nothing else is changed. -/
theorem lookup_put (table : List (String × α)) (key : String) (value : α) (other : String) :
    (if table.any (·.1 == key) then table.map fun e => if e.1 == key then (key, value) else e
      else table ++ [(key, value)]).lookup other =
      if other = key then some value else table.lookup other := by
  by_cases hany : table.any (·.1 == key) = true
  · have hsome : table.lookup key ≠ none := by
      rw [Ne, lookup_eq_none_iff_any, hany]
      simp
    obtain ⟨old, hold⟩ := Option.ne_none_iff_exists'.1 hsome
    rw [if_pos hany, lookup_replaced]
    by_cases hother : other = key
    · simp [hother, hold]
    · simp [hother]
  · have hnone : table.lookup key = none := lookup_eq_none_iff_any.2 (Bool.eq_false_iff.2 hany)
    rw [if_neg hany, List.lookup_append]
    by_cases hother : other = key
    · simp [hother, hnone]
    · have hne : (other == key) = false := by simpa using hother
      simp [List.lookup_cons, hne, hother]

/-- A value is found under its key if the keys are distinct. -/
theorem lookup_of_mem {table : List (String × α)} (hdistinct : (table.map (·.1)).Nodup) {key : String}
    {value : α} (h : (key, value) ∈ table) : table.lookup key = some value := by
  obtain ⟨left, right, rfl⟩ := List.append_of_mem h
  refine List.lookup_eq_some_iff.2 ⟨left, right, rfl, fun e he => ?_⟩
  rw [List.map_append, List.map_cons, List.nodup_middle, List.nodup_cons] at hdistinct
  have hne : key ≠ e.1 := by
    intro hkey
    exact hdistinct.1 (List.mem_append_left _ (List.mem_map.2 ⟨e, he, hkey.symm⟩))
  simpa using hne

end Reexport
