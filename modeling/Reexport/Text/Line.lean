/-!
# Lines

A text is a sequence of lines, each ended by a line break. A carriage return followed by a line feed
is one break, and a break at the very end opens no further line. `Text.lines` reads the lines and
`Text.joinLines` puts them below one another.
-/

namespace Reexport.Text

/-- The characters that end a line. -/
def isLineBreak (c : Char) : Bool :=
  let n := c.toNat
  (10 ≤ n && n ≤ 13) || (28 ≤ n && n ≤ 30) || n == 0x85 || n == 0x2028 || n == 0x2029

/-- One more character at the front of the first line; it opens a line where there is none. -/
def consLine (c : Char) : List (List Char) → List (List Char)
  | [] => [[c]]
  | line :: rest => (c :: line) :: rest

/-- The lines of a text, without their breaks. -/
def lines : List Char → List (List Char)
  | [] => []
  | '\r' :: '\n' :: cs => [] :: lines cs
  | c :: cs => if isLineBreak c then [] :: lines cs else consLine c (lines cs)

/-- Lines put below one another, with a line feed between two of them. -/
def joinLines : List (List Char) → List Char
  | [] => []
  | [line] => line
  | line :: next :: rest => line ++ '\n' :: joinLines (next :: rest)

/-- No line holds a line break. -/
theorem not_isLineBreak_of_mem_lines {cs line : List Char} {c : Char} (hl : line ∈ lines cs)
    (hc : c ∈ line) : isLineBreak c = false := by
  fun_induction lines cs generalizing line with
  | case1 => simp at hl
  | case2 cs ih =>
    rcases List.mem_cons.1 hl with rfl | hl
    · simp at hc
    · exact ih hl hc
  | case3 d cs _ hd ih =>
    rcases List.mem_cons.1 hl with rfl | hl
    · simp at hc
    · exact ih hl hc
  | case4 d cs _ hd ih =>
    cases hcs : lines cs with
    | nil =>
      simp only [hcs, consLine, List.mem_cons, List.not_mem_nil, or_false] at hl
      subst hl
      simp only [List.mem_cons, List.not_mem_nil, or_false] at hc
      simpa [hc] using hd
    | cons first rest =>
      simp only [hcs, consLine, List.mem_cons] at hl
      rcases hl with rfl | hl
      · rcases List.mem_cons.1 hc with rfl | hc
        · simpa using hd
        · exact ih (by simp [hcs]) hc
      · exact ih (by simp [hcs, hl]) hc

/-- A line without breaks and the line feed after it. -/
theorem lines_append_lineFeed {line : List Char} (h : ∀ c ∈ line, isLineBreak c = false)
    (rest : List Char) : lines (line ++ '\n' :: rest) = line :: lines rest := by
  induction line with
  | nil => rfl
  | cons c line ih =>
    rw [List.forall_mem_cons] at h
    have hc : c ≠ '\r' := by
      rintro rfl
      exact absurd h.1 (by decide)
    rw [List.cons_append, lines.eq_3 _ _ (fun _ hr _ => hc hr), h.1, ih h.2]
    rfl

/-- Lines without breaks come back from what they are put together to. -/
theorem lines_joinLines {rows : List (List Char)} (hne : rows ≠ [])
    (h : ∀ row ∈ rows, ∀ c ∈ row, isLineBreak c = false) :
    lines (joinLines rows ++ ['\n']) = rows := by
  induction rows with
  | nil => exact absurd rfl hne
  | cons row rows ih =>
    rw [List.forall_mem_cons] at h
    cases rows with
    | nil => exact lines_append_lineFeed h.1 []
    | cons next rows =>
      rw [joinLines, List.append_assoc, List.cons_append, lines_append_lineFeed h.1,
        ih (by simp) h.2]

end Reexport.Text
