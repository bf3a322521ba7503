import Reexport.Text.WordRanges

/-!
# Words

The characters of which the names in a re-export statement are made: letters and numbers of any
script, the low line and the dollar sign.
-/

namespace Reexport.Text

/-- Whether a code point lies in one of the ranges. -/
def inRanges (ranges : List (Nat × Nat)) (n : Nat) : Bool :=
  ranges.any fun r => r.1 ≤ n && n ≤ r.2

/-- A letter or a number of any script. -/
def isLetterOrNumber (c : Char) : Bool :=
  if c.toNat < 128 then c.isAlphanum else inRanges wordRanges c.toNat

/-- A character that a name in a re-export statement may hold. -/
def isWordChar (c : Char) : Bool :=
  c == '_' || c == '$' || isLetterOrNumber c

/-- The word a text begins with, and what follows it. -/
def spanWord (cs : List Char) : List Char × List Char :=
  (cs.takeWhile isWordChar, cs.dropWhile isWordChar)

/-- A non-empty text of word characters. -/
def IsWord (s : List Char) : Prop :=
  s ≠ [] ∧ ∀ c ∈ s, isWordChar c = true

instance (s : List Char) : Decidable (IsWord s) :=
  decidable_of_iff (s ≠ [] ∧ s.all isWordChar = true) (by rw [IsWord, List.all_eq_true])

theorem spanWord_append (cs : List Char) : (spanWord cs).1 ++ (spanWord cs).2 = cs :=
  List.takeWhile_append_dropWhile

theorem isWordChar_of_mem_spanWord {cs : List Char} {c : Char} (h : c ∈ (spanWord cs).1) :
    isWordChar c = true := by
  have := List.all_takeWhile (p := isWordChar) (l := cs)
  exact List.all_eq_true.1 this c h

/-- What is cut off as a word is one, if it is not empty. -/
theorem isWord_of_spanWord {cs word rest : List Char} (h : spanWord cs = (word, rest))
    (hne : word ≠ []) : IsWord word := by
  refine ⟨hne, fun c hc => ?_⟩
  have hc : c ∈ (spanWord cs).1 := by rwa [h]
  exact isWordChar_of_mem_spanWord hc

end Reexport.Text
