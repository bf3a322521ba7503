import Reexport.Resolve

/-!
# Inlining entries

What the entries made in place of an entry have in common with it and with those they are made from:
the source and the line are those of the entry replaced, a name is that of the entry passed on, and
nothing that is a type becomes a value.

## What is proved

* `through_eq_some` — an entry seen through an `export *`.
* `mem_inlined` and `inlined_of_not_isBareStar` — what a barrel puts in the place of an entry.
* `mem_namesOf`, `mem_typeNamesOf` — the names a module declares, in the place of an `export *`.
-/

namespace Reexport.Entry

variable {e n x y : Entry} {nested : List Entry}

theorem isBareStar_iff : e.isBareStar = true ↔ e.kind = .star ∧ e.asName = none := by
  simp [isBareStar]

theorem exportedName_of_isBareStar (h : e.isBareStar = true) : e.exportedName = starSpecifier := by
  obtain ⟨hkind, has⟩ := isBareStar_iff.1 h
  unfold exportedName
  rw [has]
  exact e.specifier_of_star hkind

/-! ### Keys -/

theorem mergeKey_eq_iff : x.mergeKey = y.mergeKey ↔ x.exportedName = y.exportedName ∧
    x.kind = y.kind ∧ x.isTypeOnly = y.isTypeOnly ∧ x.isBareStar = y.isBareStar ∧
    (x.isBareStar = true → x.source = y.source) := by
  unfold mergeKey
  rw [MergeKey.mk.injEq]
  by_cases hx : x.isBareStar = true <;> by_cases hy : y.isBareStar = true
  · simp [hx, hy]
  · simp [hx, hy, x.source_ne_empty]
  · simp [hx, hy, y.source_ne_empty.symm]
  · simp [hx, hy]

/-! ### Through a star -/

theorem through_eq_some (h : e.through n = some x) :
    x.source = e.source ∧ x.originLine = e.originLine ∧
      x.isTypeOnly = (n.isTypeOnly || e.isTypeOnly) ∧ x.asName = none ∧
      (n.isBareStar = true ∧ x.kind = .star ∨
        n.isBareStar = false ∧ x.kind = .named ∧ x.specifier = n.exportedName ∧
          n.exportedName ≠ defaultSpecifier) := by
  obtain ⟨f, hf, rfl⟩ := Option.map_eq_some_iff.1 h
  unfold forwardedThrough at hf
  split at hf
  · rename_i hbare
    obtain rfl := Option.some.inj hf
    obtain ⟨hkind, has⟩ := isBareStar_iff.1 hbare
    exact ⟨rfl, rfl, rfl, has, .inl ⟨hbare, hkind⟩⟩
  · rename_i hbare
    split at hf
    · cases hf
    · rename_i hne
      obtain rfl := Option.some.inj hf
      exact ⟨rfl, rfl, rfl, rfl, .inr ⟨by simpa using hbare, rfl, rfl, hne⟩⟩

/-- A whole namespace passes every star, and so does a name other than that of the default. -/
theorem exists_through (h : n.isBareStar = true ∨ n.exportedName ≠ defaultSpecifier) :
    ∃ x, e.through n = some x := by
  unfold through forwardedThrough
  by_cases hbare : n.isBareStar = true
  · rw [if_pos hbare]
    exact ⟨_, rfl⟩
  · rw [if_neg hbare, if_neg (h.resolve_left hbare)]
    exact ⟨_, rfl⟩

theorem isBareStar_of_through (h : e.through n = some x) : x.isBareStar = n.isBareStar := by
  obtain ⟨-, -, -, has, ⟨hn, hkind⟩ | ⟨hn, hkind, -⟩⟩ := through_eq_some h
  · rw [hn, isBareStar_iff]
    exact ⟨hkind, has⟩
  · rw [hn]
    simp [isBareStar, hkind]

/-- A name keeps its spelling on its way through a star, and is not that of the default. -/
theorem exportedName_of_through (h : e.through n = some x) (hn : n.isBareStar = false) :
    x.exportedName = n.exportedName ∧ n.exportedName ≠ defaultSpecifier := by
  obtain ⟨-, -, -, has, ⟨hn', -⟩ | ⟨-, -, hspec, hne⟩⟩ := through_eq_some h
  · rw [hn] at hn'
    cases hn'
  · refine ⟨?_, hne⟩
    rw [exportedName, has]
    exact hspec

/-! ### In the place of an entry -/

theorem inlined_of_isBareStar (nested : List Entry) (h : e.isBareStar = true) :
    e.inlined nested = [e] ∧ nested.filterMap e.through = [] ∨
      e.inlined nested = nested.filterMap e.through ∧ nested.filterMap e.through ≠ [] := by
  unfold inlined
  by_cases hnil : nested.isEmpty = true
  · rw [if_pos hnil, List.isEmpty_iff.1 hnil]
    exact .inl ⟨rfl, rfl⟩
  · rw [if_neg hnil, if_pos h]
    cases hs : nested.filterMap e.through with
    | nil => exact .inl ⟨rfl, rfl⟩
    | cons x rest => exact .inr ⟨rfl, by simp⟩

/-- A name of its own stays one entry, and at most becomes a type. -/
theorem inlined_of_not_isBareStar (nested : List Entry) (h : e.isBareStar = false) :
    ∃ t, e.inlined nested = [{ e with isTypeOnly := t }] ∧ (e.isTypeOnly = true → t = true) := by
  unfold inlined
  split
  · exact ⟨_, rfl, id⟩
  rw [if_neg (by simp [h])]
  split
  · exact ⟨_, rfl, id⟩
  split
  · exact ⟨true, rfl, fun _ => rfl⟩
  · exact ⟨_, rfl, id⟩

theorem inlined_ne_nil (e : Entry) (nested : List Entry) : e.inlined nested ≠ [] := by
  cases hbare : e.isBareStar with
  | true =>
    rcases inlined_of_isBareStar nested hbare with ⟨heq, -⟩ | ⟨heq, hne⟩
    · simp [heq]
    · rwa [heq]
  | false =>
    obtain ⟨t, heq, -⟩ := inlined_of_not_isBareStar nested hbare
    simp [heq]

theorem mem_inlined (h : x ∈ e.inlined nested) :
    x = e ∨ e.isBareStar = true ∧ (∃ n ∈ nested, e.through n = some x) ∨
      e.isBareStar = false ∧ x = { e with isTypeOnly := true } := by
  by_cases hbare : e.isBareStar = true
  · rcases inlined_of_isBareStar nested hbare with ⟨heq, -⟩ | ⟨heq, -⟩
    · rw [heq] at h
      exact .inl (List.mem_singleton.1 h)
    · rw [heq] at h
      exact .inr (.inl ⟨hbare, List.mem_filterMap.1 h⟩)
  · rw [Bool.not_eq_true] at hbare
    obtain ⟨t, heq, ht⟩ := inlined_of_not_isBareStar nested hbare
    rw [heq, List.mem_singleton] at h
    cases t with
    | true => exact .inr (.inr ⟨hbare, h⟩)
    | false =>
      have htype : e.isTypeOnly = false := by simpa using ht
      rw [← htype] at h
      exact .inl h

/-- What passes the star is there in its place. -/
theorem mem_inlined_of_through (hbare : e.isBareStar = true) (hn : n ∈ nested)
    (h : e.through n = some x) : x ∈ e.inlined nested := by
  have hx : x ∈ nested.filterMap e.through := List.mem_filterMap.2 ⟨n, hn, h⟩
  rcases inlined_of_isBareStar nested hbare with ⟨-, hnil⟩ | ⟨heq, -⟩
  · rw [hnil] at hx
    cases hx
  · rw [heq]
    exact hx

/-! ### Declared names -/

theorem mem_namesOf {scan : DeclarationScan} (h : x ∈ e.namesOf scan) :
    ∃ d ∈ scan.exports, x = e.ofDeclared (e.isTypeOnly || d.isTypeOnly) d := by
  unfold namesOf at h
  split at h
  · cases h
  · obtain ⟨d, hd, rfl⟩ := List.mem_map.1 h
    exact ⟨d, hd, rfl⟩

theorem mem_typeNamesOf {scan : DeclarationScan} (h : x ∈ e.typeNamesOf scan) :
    ∃ d ∈ scan.exports, x = e.ofDeclared true d := by
  obtain ⟨d, hd, rfl⟩ := List.mem_map.1 h
  exact ⟨d, (List.mem_filter.1 hd).1, rfl⟩

end Reexport.Entry
