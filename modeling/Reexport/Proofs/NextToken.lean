import Reexport.Proofs.Onward

/-!
# The token that follows

Tokens are told apart by the characters with which they begin. So where one token is read, the
readers of all others fail, and the text goes on with the characters of the one that is read.

## What is proved

* `rest_of_mark?`, `rest_of_anyWord?` — a mark or a word that is read is what the text begins with.
* `char?_eq_none`, `mark?_eq_none` and their like — what a token does not begin with is not read.
* `readKey?_of_anyWord?`, `eq_none_of_readKey?` — a name is a key, and where a key is read nothing
  else of an object pattern is.
-/

namespace Reexport.Script

/-! ### By the first character -/

/-- Whether a name or a keyword can begin with a character. -/
def opensWord (ch : Char) : Bool :=
  isNameStart ch || ch == '\\'

namespace Cursor

variable {c d : Cursor} {ch ch' : Char} {mark word : String} {found : String × Cursor}

theorem char?_eq_some_iff : c.char? ch = some d ↔ c.next? = some ch ∧ c.pastGap.tail = d := by
  simp [char?, next?]

theorem char?_eq_none (hnext : c.next? = some ch) (hne : ch ≠ ch') : c.char? ch' = none := by
  simp only [next?] at hnext
  simp [char?, hnext, hne]

theorem char?_ahead_lt (h : c.char? ch = some d) : d.ahead < c.ahead := by
  obtain ⟨hnext, rfl⟩ := char?_eq_some_iff.mp h
  have hgap : c.pastGap.ahead ≤ c.ahead := pastGap_ahead_le
  cases hrest : c.pastGap.rest with
  | nil => simp [next?, hrest] at hnext
  | cons ch cs =>
    simp only [ahead, tail, hrest, List.drop_one, List.tail_cons, List.length_cons] at hgap ⊢
    omega

/-- A mark that is read is what the text goes on with. -/
theorem rest_of_mark? (h : c.mark? mark = some d) :
    c.pastGap.rest = mark.toList ++ d.rest := by
  have hsplit := spanMark_append c.pastGap.rest
  simp only [mark?, beq_iff_eq, Option.ite_none_right_eq_some, Option.some.injEq] at h
  obtain ⟨hmark, rfl⟩ := h
  rw [← hmark]
  exact hsplit.symm

theorem next?_of_mark? (h : c.mark? mark = some d) (hmark : mark.toList.head? = some ch) :
    c.next? = some ch := by
  simp [next?, rest_of_mark? h, hmark]

theorem mark?_eq_none (hnext : c.next? = some ch) (hmark : mark.toList.head? = some ch')
    (hne : ch ≠ ch') : c.mark? mark = none := by
  cases hfound : c.mark? mark with
  | none => rfl
  | some d => simp_all [next?_of_mark? hfound hmark]

theorem mark?_ahead_lt (h : c.mark? mark = some d) (hmark : mark.toList.head? = some ch) :
    d.ahead < c.ahead := by
  have hgap : c.pastGap.ahead ≤ c.ahead := pastGap_ahead_le
  cases hlist : mark.toList with
  | nil => simp [hlist] at hmark
  | cons ch cs =>
    simp only [ahead, rest_of_mark? h, hlist, List.length_append, List.length_cons] at hgap ⊢
    omega

/-- A word that is read is what the text goes on with, from a character on that opens a word. -/
theorem rest_of_anyWord? (h : c.anyWord? = some (word, d)) :
    c.pastGap.rest = word.toList ++ d.rest ∧ ∃ ch, c.next? = some ch ∧ opensWord ch = true := by
  have hsplit := spanName_append false c.pastGap.rest
  cases hrest : c.pastGap.rest with
  | nil => simp [anyWord?, hrest] at h
  | cons ch cs =>
    simp only [anyWord?, hrest, Option.ite_none_right_eq_some, Option.some.injEq,
      Prod.mk.injEq] at h
    obtain ⟨hch, rfl, rfl⟩ := h
    rw [hrest] at hsplit
    exact ⟨by simp [past, hsplit], ch, by simp [next?, hrest], hch⟩

/-- A word that is read is all that belongs to the name at its place. -/
theorem toList_of_anyWord? (h : c.anyWord? = some (word, d)) :
    word.toList = (spanName false c.pastGap.rest).1 := by
  cases hrest : c.pastGap.rest with
  | nil => simp [anyWord?, hrest] at h
  | cons ch cs =>
    simp only [anyWord?, hrest, Option.ite_none_right_eq_some, Option.some.injEq,
      Prod.mk.injEq] at h
    obtain ⟨-, rfl, -⟩ := h
    exact String.toList_ofList

theorem opensWord_of_anyWord? (h : c.anyWord? = some found) :
    ∃ ch, c.next? = some ch ∧ opensWord ch = true :=
  (rest_of_anyWord? h).2

theorem anyWord?_ahead_lt (h : c.anyWord? = some (word, d)) (hword : word ≠ "") :
    d.ahead < c.ahead := by
  have hgap : c.pastGap.ahead ≤ c.ahead := pastGap_ahead_le
  have hlist : word.toList ≠ [] := by simpa using hword
  have hlength := List.length_pos_iff.mpr hlist
  simp only [ahead, (rest_of_anyWord? h).1, List.length_append] at hgap ⊢
  omega

theorem anyWord?_eq_none (hnext : c.next? = some ch) (hch : opensWord ch = false) :
    c.anyWord? = none := by
  cases hfound : c.anyWord? with
  | none => rfl
  | some found =>
    obtain ⟨ch', hnext', hch'⟩ := opensWord_of_anyWord? hfound
    grind

theorem textUpTo_of_anyWord? (h : c.anyWord? = some (word, d)) :
    c.pastGap.textUpTo d = word := by
  simp [textUpTo, (rest_of_anyWord? h).1]

theorem word?_eq_some_iff : c.word? word = some d ↔ c.anyWord? = some (word, d) := by
  unfold word?
  cases c.anyWord? with
  | none => simp
  | some found => simp [Prod.ext_iff]

theorem opensWord_ne (hch : opensWord ch = true) (hch' : opensWord ch' = false) : ch ≠ ch' := by
  rintro rfl
  simp [hch] at hch'

theorem rest_of_next? (hnext : c.next? = some ch) : ∃ cs, c.pastGap.rest = ch :: cs :=
  List.head?_eq_some_iff.mp hnext

theorem string?_eq_none (hnext : c.next? = some ch) (hdouble : ch ≠ '"') (hsingle : ch ≠ '\x27') :
    c.string? = none := by
  obtain ⟨cs, hrest⟩ := rest_of_next? hnext
  simp [string?, hrest, hdouble, hsingle]

/-- A word is no text in quotes. -/
theorem string?_eq_none_of_anyWord? (h : c.anyWord? = some found) : c.string? = none := by
  obtain ⟨ch, hnext, hch⟩ := opensWord_of_anyWord? h
  exact string?_eq_none hnext (opensWord_ne hch (by decide)) (opensWord_ne hch (by decide))

theorem string?_eq_some (h : c.string? = some d) : ∃ quote cs, c.pastGap.rest = quote :: cs ∧
    (quote = '"' ∨ quote = '\x27') ∧
      c.pastGap.tail.past (spanQuoted quote c.pastGap.tail.rest) = d := by
  cases hrest : c.pastGap.rest with
  | nil => simp [string?, hrest] at h
  | cons quote cs => exact ⟨quote, cs, rfl, by simpa [string?, hrest] using h⟩

theorem string?_ahead_lt (h : c.string? = some d) : d.ahead < c.ahead := by
  obtain ⟨quote, cs, hrest, -, rfl⟩ := string?_eq_some h
  have hgap : c.pastGap.ahead ≤ c.ahead := pastGap_ahead_le
  have hbehind : (c.pastGap.tail.past (spanQuoted quote c.pastGap.tail.rest)).ahead ≤
      c.pastGap.tail.ahead := past_ahead_le (spanQuoted_append quote _)
  simp only [ahead, tail, hrest, List.drop_one, List.tail_cons, List.length_cons] at hgap hbehind ⊢
  omega

theorem privateName?_eq_none (hnext : c.next? = some ch) (hhash : ch ≠ '#') :
    c.privateName? = none := by
  obtain ⟨cs, hrest⟩ := rest_of_next? hnext
  simp [privateName?, hrest, hhash]

/-- A number begins with a digit, or with a dot and a digit. -/
theorem number?_eq_none (hnext : c.next? = some ch) (hdigit : ch.isDigit = false)
    (hdot : ch = '.' → ∃ rest, c.pastGap.rest = '.' :: '.' :: rest) : c.number? = none := by
  obtain ⟨cs, hrest⟩ := rest_of_next? hnext
  have hsecond : ch = '.' → (cs.head?.map Char.isDigit).getD false = false := by
    intro h
    obtain ⟨rest, hdots⟩ := hdot h
    obtain rfl : cs = '.' :: rest := by simpa [h, hrest] using hdots
    rfl
  simpa [number?, hrest, hdigit] using hsecond

end Cursor

open Cursor

/-! ### Keys -/

section Keys

variable {read : Reader} {c d : Cursor} {word : String}

/-- A name is a key. -/
theorem readKey?_of_anyWord? (h : c.anyWord? = some (word, d)) : readKey? read c = some d := by
  obtain ⟨ch, hnext, hch⟩ := opensWord_of_anyWord? h
  have hbracket : c.char? '[' = none := char?_eq_none hnext (opensWord_ne hch (by decide))
  have hstring : c.string? = none := string?_eq_none_of_anyWord? h
  have hdigit : ch.isDigit = false := by
    cases hdigit : ch.isDigit with
    | false => rfl
    | true =>
      obtain rfl : ch = '\\' := by simpa [opensWord, isNameStart, hdigit] using hch
      simp at hdigit
  have hnumber : c.number? = none :=
    number?_eq_none hnext hdigit fun hdot => absurd hdot (opensWord_ne hch (by decide))
  have hprivate : c.privateName? = none :=
    privateName?_eq_none hnext (opensWord_ne hch (by decide))
  simp [readKey?, hbracket, hstring, hnumber, hprivate, h]

/-- No key begins with a bracket that closes, with a comma or with two dots. -/
theorem readKey?_eq_none {ch : Char} (hnext : c.next? = some ch) (hch : ch ∈ ['\x7d', ',', '.'])
    (hdot : ch = '.' → ∃ rest, c.pastGap.rest = '.' :: '.' :: rest) : readKey? read c = none := by
  have hother : ch ≠ '[' ∧ ch ≠ '"' ∧ ch ≠ '\x27' ∧ ch ≠ '#' ∧ ch.isDigit = false ∧
      opensWord ch = false := by
    simp only [List.mem_cons, List.not_mem_nil, or_false] at hch
    obtain rfl | rfl | rfl := hch <;> decide
  obtain ⟨hbracket, hdouble, hsingle, hhash, hdigit, hword⟩ := hother
  simp [readKey?, char?_eq_none hnext hbracket, string?_eq_none hnext hdouble hsingle,
    number?_eq_none hnext hdigit hdot, privateName?_eq_none hnext hhash,
    anyWord?_eq_none hnext hword]

/-- What a key begins with begins nothing else inside of the braces. -/
theorem eq_none_of_readKey? (h : readKey? read c = some d) :
    c.char? '\x7d' = none ∧ c.mark? "," = none ∧ c.mark? "..." = none := by
  refine ⟨?_, ?_, ?_⟩ <;> refine Option.eq_none_iff_forall_ne_some.mpr fun e he => ?_
  · rw [readKey?_eq_none (char?_eq_some_iff.mp he).1 (by decide) (absurd · (by decide))] at h
    simp at h
  · rw [readKey?_eq_none (next?_of_mark? he rfl) (by decide) (absurd · (by decide))] at h
    simp at h
  · rw [readKey?_eq_none (next?_of_mark? he rfl) (by decide) fun _ => ⟨_, rest_of_mark? he⟩] at h
    simp at h

end Keys

end Reexport.Script
