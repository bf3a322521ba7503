/-!
# Blank characters

The blank characters of Unicode text and the operations that need them: `Text.trim` drops the blanks
at both ends of a text. The four separators `U+001C` to `U+001F` and the next-line mark `U+0085` are
blank; the zero-width space `U+200B` and the byte-order mark `U+FEFF` are not.
-/

namespace Reexport.Text

/-- The characters with the property *white space*, together with the information separators. -/
def isBlank (c : Char) : Bool :=
  let n := c.toNat
  (9 ≤ n && n ≤ 13) || (28 ≤ n && n ≤ 32) || n == 0x85 || n == 0xA0 || n == 0x1680 ||
    (0x2000 ≤ n && n ≤ 0x200A) || n == 0x2028 || n == 0x2029 || n == 0x202F || n == 0x205F ||
    n == 0x3000

/-- A text without the blanks it begins with. -/
def dropBlanks (cs : List Char) : List Char :=
  cs.dropWhile isBlank

/-- A text without the blanks it ends with. -/
def dropBlanksEnd (cs : List Char) : List Char :=
  (cs.reverse.dropWhile isBlank).reverse

/-- A text without the blanks at its two ends. -/
def trim (cs : List Char) : List Char :=
  dropBlanksEnd (dropBlanks cs)

/-- The blanks a text begins with, if there is at least one, are dropped; otherwise `none`. -/
def dropBlanks1? : List Char → Option (List Char)
  | [] => none
  | c :: cs => if isBlank c then some (dropBlanks cs) else none

/-- No blank is left at the front. -/
theorem head?_dropBlanks {cs : List Char} {c : Char} (h : (dropBlanks cs).head? = some c) :
    isBlank c = false := by
  induction cs with
  | nil => simp [dropBlanks] at h
  | cons d ds ih =>
    by_cases hd : isBlank d = true
    · exact ih (by simpa [dropBlanks, List.dropWhile_cons, hd] using h)
    · simp only [dropBlanks, List.dropWhile_cons, hd, Bool.false_eq_true, if_false,
        List.head?_cons, Option.some.injEq] at h
      simpa [h] using hd

theorem dropBlanks_cons_of_not {c : Char} (h : isBlank c = false) (cs : List Char) :
    dropBlanks (c :: cs) = c :: cs := by
  simp [dropBlanks, h]

theorem dropBlanks_cons_of_blank {c : Char} (h : isBlank c = true) (cs : List Char) :
    dropBlanks (c :: cs) = dropBlanks cs := by
  simp [dropBlanks, h]

theorem dropBlanksEnd_append_of_not {c : Char} (h : isBlank c = false) (cs : List Char) :
    dropBlanksEnd (cs ++ [c]) = cs ++ [c] := by
  simp [dropBlanksEnd, h]

/-- A text with no blank at its ends is left as it is. -/
theorem trim_of_ends {c d : Char} (hc : isBlank c = false) (hd : isBlank d = false)
    (cs : List Char) : trim (c :: (cs ++ [d])) = c :: (cs ++ [d]) := by
  rw [trim, dropBlanks_cons_of_not hc]
  exact dropBlanksEnd_append_of_not hd (c :: cs)

theorem trim_cons_blank {c : Char} (h : isBlank c = true) (cs : List Char) :
    trim (c :: cs) = trim cs := by
  simp [trim, dropBlanks, h]

theorem trim_append_blank {c : Char} (h : isBlank c = true) (cs : List Char) :
    trim (cs ++ [c]) = trim cs := by
  rw [trim, trim, dropBlanks, dropBlanks, List.dropWhile_append]
  split
  · rename_i hall
    rw [List.isEmpty_iff.1 hall]
    simp [dropBlanksEnd, h]
  · simp [dropBlanksEnd, h]

theorem mem_of_mem_dropBlanks {cs : List Char} {c : Char} (h : c ∈ dropBlanks cs) : c ∈ cs :=
  (List.dropWhile_sublist isBlank).subset h

theorem mem_of_mem_trim {cs : List Char} {c : Char} (h : c ∈ trim cs) : c ∈ cs := by
  have h : c ∈ (dropBlanks cs).reverse :=
    (List.dropWhile_sublist isBlank).subset (List.mem_reverse.1 h)
  exact mem_of_mem_dropBlanks (List.mem_reverse.1 h)

theorem mem_of_mem_dropBlanks1? {cs rest : List Char} (h : dropBlanks1? cs = some rest) {c : Char}
    (hc : c ∈ rest) : c ∈ cs := by
  cases cs with
  | nil => cases h
  | cons d ds =>
    by_cases hd : isBlank d = true
    · obtain rfl : dropBlanks ds = rest := by simpa [dropBlanks1?, hd] using h
      exact List.mem_cons_of_mem _ (mem_of_mem_dropBlanks hc)
    · simp [dropBlanks1?, hd] at h

end Reexport.Text
