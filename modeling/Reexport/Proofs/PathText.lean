import Reexport.Locate
import Reexport.Proofs.AbsolutePath
import Reexport.Script.Export
import Mathlib.Data.List.Infix

/-!
# What is read off the text of a path

Some tests look at the text of a path: how it ends, in which extension, and whether it holds
`.types.`. A slash belongs to no word and none of the texts that are looked for has one, so each of
them is found on one side of a slash or on the other: an ending concerns the last name alone, while
`.types.` may also stand in the directory.

## What is proved

* `Text.lowerFrom_append_slash` — small letters are the same on both sides of a slash.
* `holdsText_append_slash`, `endsWith_append_slash` — what is looked for stands on one side of it.
* `Absolute.isTypesModule_pathOf` — the test for modules of types, below a directory.
* `Absolute.candidates_pathOf` — the candidates for a path, as names below a directory.
-/

namespace Reexport

/-! ### Small letters -/

namespace Text

theorem lowerChar_slash : lowerChar '/' = ['/'] := by decide

/-- A slash has no case and is not passed over, so no word goes on behind it. -/
theorem slash_uncased : inRanges passedOverRanges '/'.toNat = false ∧
    inRanges casedRanges '/'.toNat = false := by
  decide +kernel

theorem meetsCase_append_slash (cs ds : List Char) : meetsCase (cs ++ '/' :: ds) = meetsCase cs := by
  obtain ⟨hpassed, hcased⟩ := slash_uncased
  induction cs with
  | nil =>
    unfold meetsCase
    rw [List.nil_append, List.dropWhile_cons, if_neg (Bool.eq_false_iff.1 hpassed)]
    exact hcased
  | cons c cs ih =>
    unfold meetsCase at ih ⊢
    rw [List.cons_append, List.dropWhile_cons, List.dropWhile_cons]
    by_cases hc : inRanges passedOverRanges c.toNat = true
    · rw [if_pos hc, if_pos hc]
      exact ih
    · rw [if_neg hc, if_neg hc]

/-- What stands before a slash does not matter behind it. -/
theorem lowerFrom_before_slash (before rest cs : List Char) :
    lowerFrom (before ++ '/' :: rest) cs = lowerFrom before cs := by
  induction cs generalizing before with
  | nil => rfl
  | cons c cs ih =>
    rw [lowerFrom, lowerFrom, meetsCase_append_slash, ← List.cons_append, ih]

/-- **Small letters are the same on both sides of a slash.** -/
theorem lowerFrom_append_slash (before cs ds : List Char) :
    lowerFrom before (cs ++ '/' :: ds) = lowerFrom before cs ++ '/' :: lowerFrom [] ds := by
  induction cs generalizing before with
  | nil =>
    have hslash : ('/' = capitalSigma) = False := by decide
    have hbehind : lowerFrom ('/' :: before) ds = lowerFrom [] ds := lowerFrom_before_slash [] before ds
    simp [lowerFrom, hslash, lowerChar_slash, hbehind]
  | cons c cs ih =>
    rw [List.cons_append, lowerFrom, lowerFrom, meetsCase_append_slash, ih]
    simp only [List.append_assoc]

theorem toList_lower (s : String) : (lower s).toList = lowerFrom [] s.toList :=
  String.toList_ofList

end Text

/-! ### Texts on one side of a slash -/

theorem holdsText_iff {part cs : List Char} : holdsText part cs = true ↔ part <:+: cs := by
  induction cs with
  | nil => simp [holdsText]
  | cons c cs ih =>
    rw [holdsText, Bool.or_eq_true, ih, List.isPrefixOf_iff_prefix, List.infix_cons_iff]

theorem prefix_append_slash {part : List Char} (h : '/' ∉ part) (cs ds : List Char) :
    part <+: cs ++ '/' :: ds ↔ part <+: cs := by
  induction part generalizing cs with
  | nil => simp
  | cons p part ih =>
    rw [List.mem_cons, not_or] at h
    cases cs with
    | nil => simp [Ne.symm h.1]
    | cons c cs => rw [List.cons_append, List.cons_prefix_cons, List.cons_prefix_cons, ih h.2]

/-- A text without a slash ends what stands behind a slash, if it ends the whole. -/
theorem suffix_append_slash {part : List Char} (h : '/' ∉ part) (cs ds : List Char) :
    part <:+ cs ++ '/' :: ds ↔ part <:+ ds := by
  have hreverse : (cs ++ '/' :: ds).reverse = ds.reverse ++ '/' :: cs.reverse := by simp
  have hpart : '/' ∉ part.reverse := fun hmem => h (List.mem_reverse.1 hmem)
  rw [← List.reverse_prefix, hreverse, prefix_append_slash hpart, List.reverse_prefix]

/-- A text without a slash stands on one side of a slash. -/
theorem infix_append_slash {part : List Char} (h : '/' ∉ part) (cs ds : List Char) :
    part <:+: cs ++ '/' :: ds ↔ part <:+: cs ∨ part <:+: ds := by
  induction cs with
  | nil =>
    have hnil := prefix_append_slash h [] ds
    rw [List.nil_append] at hnil ⊢
    rw [List.infix_cons_iff, hnil, List.infix_nil, List.prefix_nil]
  | cons c cs ih =>
    rw [List.cons_append, List.infix_cons_iff, ← List.cons_append, prefix_append_slash h, ih,
      List.infix_cons_iff, or_assoc]

theorem holdsText_append_slash {part : List Char} (h : '/' ∉ part) (cs ds : List Char) :
    holdsText part (cs ++ '/' :: ds) = (holdsText part cs || holdsText part ds) := by
  rw [Bool.eq_iff_iff, Bool.or_eq_true, holdsText_iff, holdsText_iff, holdsText_iff,
    infix_append_slash h]

theorem isSuffixOf_append_slash {part : List Char} (h : '/' ∉ part) (cs ds : List Char) :
    part.isSuffixOf (cs ++ '/' :: ds) = part.isSuffixOf ds := by
  rw [Bool.eq_iff_iff, List.isSuffixOf_iff_suffix, List.isSuffixOf_iff_suffix, suffix_append_slash h]

/-! ### Below a directory -/

namespace Path.Absolute

variable {names : List (List Char)}

/-- Small letters of a path of names. -/
theorem lower_pathOf_append (a : Absolute) (names : List (List Char)) {others : List (List Char)}
    (hne : others ≠ []) : (Text.lower (a.pathOf (names ++ others))).toList =
      Text.lowerFrom [] (a.front names) ++ '/' :: Text.lowerFrom [] (Text.join ['/'] others) := by
  rw [Text.toList_lower, a.toList_pathOf_append names hne, Text.lowerFrom_append_slash]

/-- Whether `.types.` stands before the names is told by the directory itself. -/
theorem holdsText_front (a : Absolute) :
    holdsText ".types.".toList (Text.lowerFrom [] (a.front [])) =
      holdsText ".types.".toList (Text.lower a.text).toList := by
  rw [Text.toList_lower, front, List.append_nil]
  by_cases hroot : a.names = []
  · rw [if_pos hroot, toList_text, hroot]
    rcases a.slashes_eq with h | h <;> rw [h] <;> decide +kernel
  · rw [if_neg hroot, pathOf_nil]

/-- What the small letters of a path end in is told by the names below a directory. -/
theorem endsWith_lower_pathOf_append (a : Absolute) (names : List (List Char))
    {others : List (List Char)} (hne : others ≠ []) {ending : String} (h : '/' ∉ ending.toList) :
    endsWith ending (Text.lower (a.pathOf (names ++ others))) =
      endsWith ending (Text.lower (String.ofList (Text.join ['/'] others))) := by
  rw [endsWith, endsWith, a.lower_pathOf_append names hne, isSuffixOf_append_slash h,
    Text.toList_lower, String.toList_ofList]

/-- **The test for modules of types**: the part of it that concerns the directory is whether it holds
`.types.`. -/
theorem isTypesModule_pathOf (a : Absolute) (specifier : String) (hne : names ≠ []) :
    isTypesModule specifier (a.pathOf names) =
      (isTypesModule specifier (String.ofList (Text.join ['/'] names)) ||
        holdsText ".types.".toList (Text.lower a.text).toList) := by
  have hholds : holdsText ".types.".toList (Text.lower (a.pathOf names)).toList =
      (holdsText ".types.".toList (Text.lower a.text).toList ||
        holdsText ".types.".toList (Text.lower (String.ofList (Text.join ['/'] names))).toList) := by
    have hlower := a.lower_pathOf_append [] hne
    rw [List.nil_append] at hlower
    rw [hlower, holdsText_append_slash (by decide), a.holdsText_front,
      Text.toList_lower (String.ofList _), @String.toList_ofList (Text.join ['/'] names)]
  have hends : ∀ ending : String, '/' ∉ ending.toList →
      endsWith ending (Text.lower (a.pathOf names)) =
        endsWith ending (Text.lower (String.ofList (Text.join ['/'] names))) :=
    fun _ h => a.endsWith_lower_pathOf_append [] hne h
  simp only [isTypesModule, hholds, List.any_cons, List.any_nil, hends ".d.ts" (by decide),
    hends ".d.mts" (by decide), hends ".d.cts" (by decide)]
  simp only [Bool.or_assoc, Bool.or_comm, Bool.or_left_comm]

/-- The extension of a path of names is that of the last one. -/
theorem endsWith_pathOf_concat (a : Absolute) {ending : String} (h : '/' ∉ ending.toList)
    (last : List Char) :
    endsWith ending (a.pathOf (names ++ [last])) = endsWith ending (String.ofList last) := by
  rw [endsWith, toList_pathOf_concat, isSuffixOf_append_slash h, endsWith, String.toList_ofList]

/-- Whether a module holds markup is told by its last name. -/
theorem holdsMarkup_pathOf_concat (a : Absolute) (last : List Char) :
    holdsMarkup (a.pathOf (names ++ [last])) = holdsMarkup (String.ofList last) := by
  have hends : ∀ ending : String, '/' ∉ ending.toList →
      ending.toList.isSuffixOf (Text.lower (a.pathOf (names ++ [last]))).toList =
        ending.toList.isSuffixOf (Text.lower (String.ofList last)).toList :=
    fun _ h => a.endsWith_lower_pathOf_append names (List.cons_ne_nil last []) h
  simp only [holdsMarkup, hends ".tsx" (by decide), hends ".jsx" (by decide)]

end Path.Absolute

/-! ### Candidates -/

open Reexport.Path

/-- An extension of modules is longer than two dots and has no slash. -/
theorem moduleExtensions_named {extension : String} (h : extension ∈ moduleExtensions) :
    2 < extension.toList.length ∧ '/' ∉ extension.toList := by
  revert extension
  decide

theorem sourceExtensions_named {emitted extension : String}
    (h : extension ∈ sourceExtensions emitted) :
    2 < extension.toList.length ∧ '/' ∉ extension.toList := by
  unfold sourceExtensions at h
  split at h <;> revert extension <;> decide

/-- A path ends in its extension. -/
theorem endsWith_recognizedExtension (extensions : List String) (path : String) :
    endsWith (recognizedExtension extensions path) path = true := by
  have hfold : ∀ (found : List String) (longest : String), endsWith longest path = true →
      (∀ x ∈ found, endsWith x path = true) → endsWith (found.foldl longer longest) path = true := by
    intro found
    induction found with
    | nil => exact fun _ hlongest _ => hlongest
    | cons x found ih =>
      intro longest hlongest hfound
      rw [List.forall_mem_cons] at hfound
      refine ih _ ?_ hfound.2
      unfold longer
      split
      · exact hfound.1
      · exact hlongest
  refine hfold _ "" (by simp [endsWith]) fun x hx => ?_
  exact (List.mem_filter.1 hx).2

/-- A name stays one with an extension, and so does what is left of one. -/
theorem isName_append {s extension : List Char} (hs : '/' ∉ s)
    (h : 2 < extension.length ∧ '/' ∉ extension) : IsName (s ++ extension) := by
  have hlong : 2 < (s ++ extension).length := by
    rw [List.length_append]
    omega
  refine ⟨?_, ?_, ?_, by simp [hs, h.2]⟩ <;> intro heq <;> simp [heq] at hlong

/-- The rows of names at which the module of a row of names may be found. -/
def candidateNames (init : List (List Char)) (last : List Char) : List (List (List Char)) :=
  let extension := recognizedExtension moduleExtensions (String.ofList last)
  if extension = "" then
    moduleExtensions.map (fun x => init ++ [last ++ x.toList]) ++
      moduleExtensions.map (fun x => init ++ [last] ++ ["index".toList ++ x.toList])
  else
    let stem := last.take (last.length - extension.length)
    (init ++ [last]) :: (sourceExtensions extension).map (fun x => init ++ [stem ++ x.toList])

theorem candidateNames_named {init : List (List Char)} {last : List Char}
    (hinit : ∀ s ∈ init, IsName s) (hlast : IsName last) {names : List (List Char)}
    (h : names ∈ candidateNames init last) : names ≠ [] ∧ ∀ s ∈ names, IsName s := by
  have hconcat : ∀ s, IsName s → init ++ [s] ≠ [] ∧ ∀ t ∈ init ++ [s], IsName t := by
    intro s hs
    refine ⟨by simp, fun t ht => ?_⟩
    rw [List.mem_append, List.mem_singleton] at ht
    rcases ht with ht | rfl
    · exact hinit t ht
    · exact hs
  simp only [candidateNames] at h
  split at h
  · rw [List.mem_append, List.mem_map, List.mem_map] at h
    rcases h with ⟨x, hx, rfl⟩ | ⟨x, hx, rfl⟩
    · exact hconcat _ (isName_append hlast.2.2.2 (moduleExtensions_named hx))
    · refine ⟨by simp, fun t ht => ?_⟩
      rw [List.mem_append, List.mem_singleton] at ht
      rcases ht with ht | rfl
      · exact (hconcat last hlast).2 t ht
      · exact isName_append (by decide) (moduleExtensions_named hx)
  · rw [List.mem_cons, List.mem_map] at h
    rcases h with rfl | ⟨x, hx, rfl⟩
    · exact hconcat last hlast
    · exact hconcat _ (isName_append (fun hmem => hlast.2.2.2 (List.mem_of_mem_take hmem))
        (sourceExtensions_named hx))

namespace Path.Absolute

/-- The extension of a path of names, of those that have no slash, is that of the last one. -/
theorem recognizedExtension_pathOf_concat (a : Absolute) (names : List (List Char))
    (last : List Char) : recognizedExtension moduleExtensions (a.pathOf (names ++ [last])) =
      recognizedExtension moduleExtensions (String.ofList last) := by
  have hfilter : moduleExtensions.filter (endsWith · (a.pathOf (names ++ [last]))) =
      moduleExtensions.filter (endsWith · (String.ofList last)) :=
    List.filter_congr fun x hx => a.endsWith_pathOf_concat (moduleExtensions_named hx).2 last
  rw [recognizedExtension, hfilter, recognizedExtension]

/-- An extension is written after the last name. -/
theorem pathOf_concat_append (a : Absolute) (names : List (List Char)) (last : List Char)
    (x : String) : a.pathOf (names ++ [last]) ++ x = a.pathOf (names ++ [last ++ x.toList]) := by
  rw [← String.toList_inj, String.toList_append, toList_pathOf_concat, toList_pathOf_concat]
  simp

/-- The index module of a directory, with an extension. -/
theorem join_index_append (a : Absolute) (x : String) :
    join a.text "index" ++ x = a.pathOf ["index".toList ++ x.toList] := by
  have hnamed : ∀ s ∈ ["index".toList], IsName s := by decide
  have hjoin := a.join_text (List.cons_ne_nil _ _) hnamed
  have hname : String.ofList (Text.join ['/'] ["index".toList]) = "index" := rfl
  rw [text_enter, hname] at hjoin
  rw [hjoin]
  exact a.pathOf_concat_append [] _ x

/-- What stands before the extension of the last name is cut off inside that name. -/
theorem take_pathOf_concat (a : Absolute) (names : List (List Char)) {last : List Char} {n : Nat}
    (hn : n ≤ last.length) :
    String.ofList ((a.pathOf (names ++ [last])).toList.take ((a.pathOf (names ++ [last])).length - n)) =
      a.pathOf (names ++ [last.take (last.length - n)]) := by
  have hlength : (a.pathOf (names ++ [last])).length - n =
      (a.front names ++ ['/']).length + (last.length - n) := by
    rw [← String.length_toList, toList_pathOf_concat]
    simp
    omega
  rw [← String.toList_inj, String.toList_ofList, toList_pathOf_concat, hlength,
    toList_pathOf_concat, List.append_cons _ _ last, List.take_length_add_append, ← List.append_cons]

/-- **The candidates for a path of names** are paths of names. -/
theorem candidates_pathOf (a : Absolute) {init : List (List Char)} {last : List Char}
    (hinit : ∀ s ∈ init, IsName s) (hlast : IsName last) :
    candidates moduleExtensions (a.pathOf (init ++ [last])) =
      (candidateNames init last).map a.pathOf := by
  have hindex : ∀ x : String, join (a.pathOf (init ++ [last])) "index" ++ x =
      a.pathOf (init ++ [last] ++ ["index".toList ++ x.toList]) := by
    have hnames : ∀ s ∈ init ++ [last], IsName s := by
      simpa [or_imp, forall_and, hlast] using hinit
    intro x
    rw [← text_enter hnames, join_index_append, pathOf_enter]
  simp only [candidates, candidateNames, a.recognizedExtension_pathOf_concat]
  split
  · simp only [hindex, pathOf_concat_append, List.map_append, List.map_map, Function.comp_def]
  · have hlength : (recognizedExtension moduleExtensions (String.ofList last)).length ≤
        last.length := by
      have h := endsWith_recognizedExtension moduleExtensions (String.ofList last)
      rw [endsWith, List.isSuffixOf_iff_suffix, String.toList_ofList] at h
      rw [← String.length_toList]
      exact h.length_le
    simp only [a.take_pathOf_concat init hlength, pathOf_concat_append, List.map_cons, List.map_map,
      Function.comp_def]

end Path.Absolute

end Reexport
