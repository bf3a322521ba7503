import Reexport.Script.Pattern
import Reexport.Proofs.NextToken

/-!
# Binding patterns as they are written

A pattern is written with brackets, commas, colons and equals signs between its names. `Binding` is
its tree, in which nothing ill-formed can be said: what is left is bound behind all other parts, and
only a name is both a key and bound. `Binding.past?` tells whether a binding is what is written at a
cursor, with any gaps between its tokens, and where it ends; the keys in brackets and the default
values in it are the expressions that the reader finds there.

Reading a pattern gets the tree back from its text. The reader works with fuel, twice the length of
the text. A step of it takes one unit and two steps at least one character, so that the fuel lasts
as long as no expression inside leads back.

## What is proved

* `Binding.past?_ahead_lt` — a binding takes up text.
* `Binding.read?_eq` — what is read where a binding is written is that binding, by induction on it.
* `Binding.names_inner` — the names listed of what is read are those that the binding binds, a whole
  target `undefined` left out.
-/

namespace Reexport.Script

open Cursor

/-! ### Patterns as they are written -/

/-- Whether a word can be bound: whether it is no keyword. -/
def bindable (word : String) : Bool :=
  word != "" && word != "this" && !reservedWords.contains word

mutual

/-- What stands before the equals sign of a variable. -/
inductive Binding where
  /-- A name. -/
  | name (word : String)
  /-- An object pattern. -/
  | object (properties : Properties)
  /-- An array pattern. -/
  | array (elements : Elements)

/-- The parts of an object pattern. -/
inductive Properties where
  /-- No part. -/
  | nil
  /-- A name that is both a key and bound, with the text of its default value. -/
  | shorthand (word : String) (value : Option String) (more : Properties)
  /-- A key with what is bound to the value under it. -/
  | keyed (key : String) (target : Binding) (value : Option String) (more : Properties)
  /-- All that is left, behind the other parts. -/
  | rest (target : Binding)

/-- The places of an array pattern. -/
inductive Elements where
  /-- No place. -/
  | nil
  /-- A place that is passed over. -/
  | hole (more : Elements)
  /-- What is bound to the value at a place. -/
  | item (target : Binding) (value : Option String) (more : Elements)
  /-- All that is left, behind the other places. -/
  | rest (target : Binding)

end

/-- Whether there are no more parts. -/
def Properties.isNil : Properties → Bool
  | nil => true
  | _ => false

/-- Whether there are no more places. -/
def Elements.isNil : Elements → Bool
  | nil => true
  | _ => false

section Spelling

variable (read : Reader)

/-- Past a name, if it is the given one. -/
def pastName? (word : String) (c : Cursor) : Option Cursor :=
  if bindable word then c.word? word else none

/-- Past the default value of a part, if it has one. -/
def pastDefault? (value : Option String) (c : Cursor) : Option Cursor :=
  match value with
  | none => some c
  | some text => do
    let d ← c.mark? "="
    let e ← read (.expression .valueInside) d
    if d.textUpTo e = text then some e else none

/-- Past the key of a part and its colon. -/
def pastKey? (key : String) (c : Cursor) : Option Cursor := do
  let d ← readKey? read c
  if c.pastGap.textUpTo d = key then d.mark? ":" else none

/-- Past a comma and the parts behind it, or past the bracket behind the last part. -/
def pastMore? (close : Char) (isLast : Bool) (more : Cursor → Option Cursor) (c : Cursor) :
    Option Cursor :=
  match c.mark? "," with
  | some d => more d
  | none => if isLast then c.char? close else none

mutual

/-- Past a binding, if it is what is written at the cursor. -/
def Binding.past? : Binding → Cursor → Option Cursor
  | .name word, c => pastName? word c
  | .object properties, c => do properties.past? (← c.char? '\x7b')
  | .array elements, c => do elements.past? (← c.char? '[')

/-- Past the parts of an object pattern, from behind the brace. -/
def Properties.past? : Properties → Cursor → Option Cursor
  | .nil, c => c.char? '\x7d'
  | .shorthand word value more, c => do
    let d ← pastName? word c
    pastMore? '\x7d' more.isNil more.past? (← pastDefault? read value d)
  | .keyed key target value more, c => do
    let d ← target.past? (← pastKey? read key c)
    pastMore? '\x7d' more.isNil more.past? (← pastDefault? read value d)
  | .rest target, c => do (← target.past? (← c.mark? "...")).char? '\x7d'

/-- Past the places of an array pattern, from behind the bracket. -/
def Elements.past? : Elements → Cursor → Option Cursor
  | .nil, c => c.char? ']'
  | .hole more, c => do more.past? (← c.mark? ",")
  | .item target value more, c => do
    let d ← target.past? c
    pastMore? ']' more.isNil more.past? (← pastDefault? read value d)
  | .rest target, c => do (← target.past? (← c.mark? "...")).char? ']'

end

end Spelling

/-! ### What is read of it -/

/-- A part with its default value. -/
def valued (target : Pattern) (value : Option String) : Pattern :=
  match value with
  | none => target
  | some text => .withDefault target text

mutual

/-- What is read of a binding inside of a pattern. -/
def Binding.inner : Binding → Pattern
  | .name word => Pattern.ofName word
  | .object properties => .object properties.patterns
  | .array elements => .array elements.patterns

/-- What is read of the parts of an object pattern. -/
def Properties.patterns : Properties → List Pattern
  | .nil => []
  | .shorthand word value more => valued (.name word) value :: more.patterns
  | .keyed key target value more => .keyed key (valued target.inner value) :: more.patterns
  | .rest target => [.rest target.inner]

/-- What is read of the places of an array pattern. -/
def Elements.patterns : Elements → List Pattern
  | .nil => []
  | .hole more => .hole :: more.patterns
  | .item target value more => valued target.inner value :: more.patterns
  | .rest target => [.rest target.inner]

end

/-- What is read of the binding of a variable. -/
def Binding.outer : Binding → Pattern
  | .name word => .name word
  | b => b.inner

/-! ### The names bound -/

/-- A name where a pattern binds it. -/
structure Occurrence where
  /-- The name. -/
  word : String
  /-- Whether it is a whole target inside of a pattern, and no shorthand part. -/
  isTarget : Bool
deriving DecidableEq

mutual

/-- The names that a binding binds, in the order in which they stand there, each as often as it
does. The binding of a variable is no target of a pattern by itself. -/
def Binding.occurrences : Binding → (isTarget : Bool) → List Occurrence
  | .name word, isTarget => [⟨word, isTarget⟩]
  | .object properties, _ => properties.occurrences
  | .array elements, _ => elements.occurrences

/-- The names that the parts of an object pattern bind. -/
def Properties.occurrences : Properties → List Occurrence
  | .nil => []
  | .shorthand word _ more => ⟨word, false⟩ :: more.occurrences
  | .keyed _ target _ more => target.occurrences true ++ more.occurrences
  | .rest target => target.occurrences true

/-- The names that the places of an array pattern bind. -/
def Elements.occurrences : Elements → List Occurrence
  | .nil => []
  | .hole more => more.occurrences
  | .item target _ more => target.occurrences true ++ more.occurrences
  | .rest target => target.occurrences true

end

/-- The names that are listed of those bound: all but the name of the missing value where it is a
target. -/
def listed (found : List Occurrence) : List String :=
  (found.filter (· ≠ ⟨"undefined", true⟩)).map (·.word)

theorem listed_append (found more : List Occurrence) :
    listed (found ++ more) = listed found ++ listed more := by
  simp [listed]

theorem names_valued (target : Pattern) (value : Option String) :
    (valued target value).names = target.names := by
  cases value <;> rfl

mutual

theorem Binding.names_inner : ∀ b : Binding, b.inner.names = listed (b.occurrences true)
  | .name word => by
    by_cases h : word = "undefined" <;>
      simp [Binding.inner, Pattern.ofName, h, Pattern.names, Binding.occurrences, listed]
  | .object properties => properties.names_patterns
  | .array elements => elements.names_patterns

theorem Properties.names_patterns : ∀ ps : Properties,
    Pattern.namesOfAll ps.patterns = listed ps.occurrences
  | .nil => rfl
  | .shorthand word value more => by
    simp [Properties.patterns, Pattern.namesOfAll, names_valued, Pattern.names,
      more.names_patterns, Properties.occurrences, listed]
  | .keyed key target value more => by
    simp [Properties.patterns, Pattern.namesOfAll, Pattern.names, names_valued,
      target.names_inner, more.names_patterns, Properties.occurrences, listed_append]
  | .rest target => by
    simp [Properties.patterns, Pattern.namesOfAll, Pattern.names, target.names_inner,
      Properties.occurrences]

theorem Elements.names_patterns : ∀ es : Elements,
    Pattern.namesOfAll es.patterns = listed es.occurrences
  | .nil => rfl
  | .hole more => by
    simp [Elements.patterns, Pattern.namesOfAll, Pattern.names, more.names_patterns,
      Elements.occurrences]
  | .item target value more => by
    simp [Elements.patterns, Pattern.namesOfAll, names_valued, target.names_inner,
      more.names_patterns, Elements.occurrences, listed_append]
  | .rest target => by
    simp [Elements.patterns, Pattern.namesOfAll, Pattern.names, target.names_inner,
      Elements.occurrences]

end

theorem Binding.names_outer (b : Binding) : b.outer.names = listed (b.occurrences false) := by
  cases b with
  | name word => simp [Binding.outer, Pattern.names, Binding.occurrences, listed]
  | object properties => exact properties.names_patterns
  | array elements => exact elements.names_patterns

/-! ### Where the text of a pattern ends -/

section Ends

variable {r : OnwardReader} {c d e : Cursor} {close : Char} {word key : String}
  {value : Option String} {isLast : Bool} {more : Cursor → Option Cursor}

theorem pastName?_eq_some_iff :
    pastName? word c = some d ↔ bindable word = true ∧ c.anyWord? = some (word, d) := by
  simp [pastName?, word?_eq_some_iff]

theorem pastName?_ahead_lt (h : pastName? word c = some d) : d.ahead < c.ahead := by
  obtain ⟨hword, hfound⟩ := pastName?_eq_some_iff.mp h
  refine anyWord?_ahead_lt hfound ?_
  rintro rfl
  simp [bindable] at hword

theorem pastDefault?_ahead_le (h : pastDefault? r.read value c = some d) : d.ahead ≤ c.ahead := by
  cases value with
  | none => simp_all [pastDefault?]
  | some text =>
    simp only [pastDefault?, Option.bind_eq_bind, Option.bind_eq_some_iff,
      Option.ite_none_right_eq_some, Option.some.injEq] at h
    obtain ⟨e, hmark, f, hvalue, -, rfl⟩ := h
    exact Nat.le_trans (r.onward _ e f hvalue) (mark?_onward e hmark)

theorem pastKey?_ahead_lt (h : pastKey? r.read key c = some d) : d.ahead < c.ahead := by
  simp only [pastKey?, Option.bind_eq_bind, Option.bind_eq_some_iff,
    Option.ite_none_right_eq_some] at h
  obtain ⟨e, hkey, -, hmark⟩ := h
  exact Nat.lt_of_lt_of_le (mark?_ahead_lt hmark rfl) (readKey?_onward e hkey)

theorem pastMore?_eq_some (h : pastMore? close isLast more c = some d) :
    (∃ e, c.mark? "," = some e ∧ more e = some d) ∨
      isLast = true ∧ c.mark? "," = none ∧ c.char? close = some d := by
  unfold pastMore? at h
  split at h
  next e he => exact .inl ⟨e, he, h⟩
  next hnone => exact .inr (by simpa [hnone] using h)

theorem pastMore?_ahead_lt (hmore : ∀ e, more e = some d → d.ahead < e.ahead)
    (h : pastMore? close isLast more c = some d) : d.ahead < c.ahead := by
  obtain ⟨e, hmark, he⟩ | ⟨-, -, hclose⟩ := pastMore?_eq_some h
  · exact Nat.lt_trans (hmore e he) (mark?_ahead_lt hmark rfl)
  · exact char?_ahead_lt hclose

mutual

theorem Binding.past?_ahead_lt : ∀ (b : Binding) {c d : Cursor}, b.past? r.read c = some d →
    d.ahead < c.ahead
  | .name word, c, d, h => pastName?_ahead_lt h
  | .object properties, c, d, h => by
    obtain ⟨e, hopen, he⟩ := Option.bind_eq_some_iff.mp h
    exact Nat.lt_trans (properties.past?_ahead_lt he) (char?_ahead_lt hopen)
  | .array elements, c, d, h => by
    obtain ⟨e, hopen, he⟩ := Option.bind_eq_some_iff.mp h
    exact Nat.lt_trans (elements.past?_ahead_lt he) (char?_ahead_lt hopen)

theorem Properties.past?_ahead_lt : ∀ (ps : Properties) {c d : Cursor},
    ps.past? r.read c = some d → d.ahead < c.ahead
  | .nil, c, d, h => char?_ahead_lt h
  | .shorthand word value more, c, d, h => by
    simp only [Properties.past?, Option.bind_eq_bind, Option.bind_eq_some_iff] at h
    obtain ⟨e, hword, f, hvalue, hmore⟩ := h
    have := pastName?_ahead_lt hword
    have := pastDefault?_ahead_le hvalue
    have := pastMore?_ahead_lt (fun _ => more.past?_ahead_lt) hmore
    omega
  | .keyed key target value more, c, d, h => by
    simp only [Properties.past?, Option.bind_eq_bind, Option.bind_eq_some_iff] at h
    obtain ⟨e, hkey, f, htarget, g, hvalue, hmore⟩ := h
    have := pastKey?_ahead_lt hkey
    have := target.past?_ahead_lt htarget
    have := pastDefault?_ahead_le hvalue
    have := pastMore?_ahead_lt (fun _ => more.past?_ahead_lt) hmore
    omega
  | .rest target, c, d, h => by
    simp only [Properties.past?, Option.bind_eq_bind, Option.bind_eq_some_iff] at h
    obtain ⟨e, hmark, f, htarget, hclose⟩ := h
    have := mark?_onward e hmark
    have := target.past?_ahead_lt htarget
    have := char?_ahead_lt hclose
    omega

theorem Elements.past?_ahead_lt : ∀ (es : Elements) {c d : Cursor},
    es.past? r.read c = some d → d.ahead < c.ahead
  | .nil, c, d, h => char?_ahead_lt h
  | .hole more, c, d, h => by
    obtain ⟨e, hmark, he⟩ := Option.bind_eq_some_iff.mp h
    exact Nat.lt_trans (more.past?_ahead_lt he) (mark?_ahead_lt hmark rfl)
  | .item target value more, c, d, h => by
    simp only [Elements.past?, Option.bind_eq_bind, Option.bind_eq_some_iff] at h
    obtain ⟨e, htarget, f, hvalue, hmore⟩ := h
    have := target.past?_ahead_lt htarget
    have := pastDefault?_ahead_le hvalue
    have := pastMore?_ahead_lt (fun _ => more.past?_ahead_lt) hmore
    omega
  | .rest target, c, d, h => by
    simp only [Elements.past?, Option.bind_eq_bind, Option.bind_eq_some_iff] at h
    obtain ⟨e, hmark, f, htarget, hclose⟩ := h
    have := mark?_onward e hmark
    have := target.past?_ahead_lt htarget
    have := char?_ahead_lt hclose
    omega

end

end Ends

/-! ### Reading a pattern -/

section Reading

variable {r : OnwardReader} {c d e : Cursor} {close : Char} {word key : String}
  {value : Option String} {isLast : Bool} {more : Cursor → Option Cursor} {target : Pattern}

theorem next?_of_pastMore? (h : pastMore? close isLast more c = some d) :
    c.next? = some ',' ∨ c.next? = some close := by
  obtain ⟨e, hmark, -⟩ | ⟨-, -, hclose⟩ := pastMore?_eq_some h
  · exact .inl (next?_of_mark? hmark rfl)
  · exact .inr (char?_eq_some_iff.mp hclose).1

/-- What stands between a target and what follows the part is its default value. -/
theorem withDefault?_eq (h : pastDefault? r.read value c = some d) (hnone : d.mark? "=" = none) :
    Pattern.withDefault? r.read target c = some (valued target value, d) := by
  cases value with
  | none =>
    obtain rfl : c = d := by simpa [pastDefault?] using h
    simp [Pattern.withDefault?, hnone, valued]
  | some text =>
    simp only [pastDefault?, Option.bind_eq_bind, Option.bind_eq_some_iff,
      Option.ite_none_right_eq_some, Option.some.injEq] at h
    obtain ⟨e, hmark, f, hvalue, rfl, rfl⟩ := h
    simp [Pattern.withDefault?, hmark, hvalue, valued]

/-- Behind a part, no default value and no target of a key follows. -/
theorem eq_none_of_pastMore? (h : pastMore? close isLast more c = some d)
    (hclose : close ∈ ['\x7d', ']']) :
    c.mark? "=" = none ∧ c.mark? ":" = none := by
  have hother : close ≠ '=' ∧ close ≠ ':' := by
    simp only [List.mem_cons, List.not_mem_nil, or_false] at hclose
    obtain rfl | rfl := hclose <;> decide
  obtain hnext | hnext := next?_of_pastMore? h
  · exact ⟨mark?_eq_none hnext rfl (by decide), mark?_eq_none hnext rfl (by decide)⟩
  · exact ⟨mark?_eq_none hnext rfl hother.1, mark?_eq_none hnext rfl hother.2⟩

/-- Between a name and its default value, no target of a key follows. -/
theorem mark?_colon_of_pastDefault? (h : pastDefault? r.read value c = some d)
    (hnone : d.mark? ":" = none) : c.mark? ":" = none := by
  cases value with
  | none =>
    obtain rfl : c = d := by simpa [pastDefault?] using h
    exact hnone
  | some text =>
    obtain ⟨e, hmark, -⟩ := Option.bind_eq_some_iff.mp h
    exact mark?_eq_none (next?_of_mark? hmark rfl) rfl (by decide)

variable {fuel : Nat} {parts : List Pattern}

theorem readField?_shorthand (hword : pastName? word c = some d)
    (hvalue : pastDefault? r.read value d = some e)
    (hnone : e.mark? "=" = none ∧ e.mark? ":" = none) :
    Pattern.readField? r.read (fuel + 1) c = some (valued (.name word) value, e) := by
  obtain ⟨-, hfound⟩ := pastName?_eq_some_iff.mp hword
  have hkey : readKey? r.read c = some d := readKey?_of_anyWord? hfound
  have hcolon : d.mark? ":" = none := mark?_colon_of_pastDefault? hvalue hnone.2
  simp [Pattern.readField?, (eq_none_of_readKey? hkey).2.2, hkey, hcolon,
    textUpTo_of_anyWord? hfound, withDefault?_eq hvalue hnone.1]

theorem readField?_keyed {f : Cursor} (hkey : pastKey? r.read key c = some d)
    (htarget : Pattern.read? r.read fuel d = some (target, e))
    (hvalue : pastDefault? r.read value e = some f) (hnone : f.mark? "=" = none) :
    Pattern.readField? r.read (fuel + 1) c = some (.keyed key (valued target value), f) := by
  simp only [pastKey?, Option.bind_eq_bind, Option.bind_eq_some_iff,
    Option.ite_none_right_eq_some] at hkey
  obtain ⟨g, hkey, rfl, hcolon⟩ := hkey
  simp [Pattern.readField?, (eq_none_of_readKey? hkey).2.2, hkey, hcolon, htarget,
    withDefault?_eq hvalue hnone]

theorem readFields?_cons (hclose : c.char? '\x7d' = none) (hcomma : c.mark? "," = none)
    (hpart : Pattern.readField? r.read fuel c = some (target, d))
    (hparts : Pattern.readFields? r.read fuel d = some (parts, e)) :
    Pattern.readFields? r.read (fuel + 1) c = some (target :: parts, e) := by
  simp [Pattern.readFields?, hclose, hcomma, hpart, hparts]

/-- The rest of an object is its last part. -/
theorem readFields?_rest (hmark : c.mark? "..." = some d)
    (htarget : Pattern.read? r.read fuel d = some (target, e)) {f : Cursor}
    (hclose : e.char? '\x7d' = some f) :
    Pattern.readFields? r.read (fuel + 2) c = some ([.rest target], f) := by
  have hnext := next?_of_mark? hmark rfl
  have hpart : Pattern.readField? r.read (fuel + 1) c = some (.rest target, e) := by
    simp [Pattern.readField?, hmark, htarget]
  have hend : Pattern.readFields? r.read (fuel + 1) e = some ([], f) := by
    simp [Pattern.readFields?, hclose]
  exact readFields?_cons (char?_eq_none hnext (by decide)) (mark?_eq_none hnext rfl (by decide))
    hpart hend

theorem readPlaces?_hole (hmark : c.mark? "," = some d)
    (hparts : Pattern.readPlaces? r.read fuel d = some (parts, e)) :
    Pattern.readPlaces? r.read (fuel + 1) c = some (.hole :: parts, e) := by
  have hbracket : c.char? ']' = none := char?_eq_none (next?_of_mark? hmark rfl) (by decide)
  simp [Pattern.readPlaces?, hbracket, hmark, hparts]

theorem readPlaces?_cons {f : Cursor}
    (hnone : c.char? ']' = none ∧ c.mark? "," = none ∧ c.mark? "..." = none)
    (htarget : Pattern.read? r.read fuel c = some (target, d))
    (hvalue : pastDefault? r.read value d = some e) (heq : e.mark? "=" = none)
    (hparts : Pattern.readPlaces? r.read fuel (e.skip (·.mark? ",")) = some (parts, f)) :
    Pattern.readPlaces? r.read (fuel + 1) c = some (valued target value :: parts, f) := by
  obtain ⟨hbracket, hcomma, hdots⟩ := hnone
  have hskip : c.skip (·.mark? "...") = c := by simp [skip, hdots]
  simp [Pattern.readPlaces?, hbracket, hcomma, hdots, hskip, htarget, withDefault?_eq hvalue heq,
    hparts]

/-- The rest of an array is its last place. -/
theorem readPlaces?_rest (hmark : c.mark? "..." = some d)
    (htarget : Pattern.read? r.read (fuel + 1) d = some (target, e)) {f : Cursor}
    (hclose : e.char? ']' = some f) :
    Pattern.readPlaces? r.read (fuel + 2) c = some ([.rest target], f) := by
  have hnext := next?_of_mark? hmark rfl
  have hbracket : c.char? ']' = none := char?_eq_none hnext (by decide)
  have hcomma : c.mark? "," = none := mark?_eq_none hnext rfl (by decide)
  have hbehind := (char?_eq_some_iff.mp hclose).1
  have hvalue : e.mark? "=" = none := mark?_eq_none hbehind rfl (by decide)
  have hnoComma : e.mark? "," = none := mark?_eq_none hbehind rfl (by decide)
  have hend : Pattern.readPlaces? r.read (fuel + 1) e = some ([], f) := by
    simp [Pattern.readPlaces?, hclose]
  rw [Pattern.readPlaces?]
  simp [hbracket, hcomma, hmark, skip, htarget, Pattern.withDefault?, hvalue, hnoComma, hend]

/-- What stands behind a part is read as the rest of the parts. -/
theorem readFields?_of_pastMore? {more : Properties}
    (ih : ∀ {c : Cursor} {fuel : Nat}, more.past? r.read c = some e →
      2 * c.ahead ≤ fuel + 2 * e.ahead →
        Pattern.readFields? r.read fuel c = some (more.patterns, e))
    (h : pastMore? '\x7d' more.isNil (more.past? r.read) d = some e)
    (hfuel : 2 * d.ahead ≤ fuel + 2 * e.ahead) :
    Pattern.readFields? r.read fuel d = some (more.patterns, e) := by
  have hbehind := pastMore?_ahead_lt (fun _ => more.past?_ahead_lt) h
  obtain ⟨fuel, rfl⟩ : ∃ n, fuel = n + 1 := ⟨fuel - 1, by omega⟩
  obtain ⟨f, hcomma, hf⟩ | ⟨hlast, -, hclose⟩ := pastMore?_eq_some h
  · have hbrace : d.char? '\x7d' = none := char?_eq_none (next?_of_mark? hcomma rfl) (by decide)
    have := mark?_ahead_lt hcomma rfl
    have hparts : Pattern.readFields? r.read fuel f = some (more.patterns, e) := ih hf (by omega)
    simp [Pattern.readFields?, hbrace, hcomma, hparts]
  · cases more with
    | nil => simp [Pattern.readFields?, hclose, Properties.patterns]
    | _ => simp [Properties.isNil] at hlast

/-- What stands behind a place is read as the rest of the places. -/
theorem readPlaces?_of_pastMore? {more : Elements}
    (ih : ∀ {c : Cursor} {fuel : Nat}, more.past? r.read c = some e →
      2 * c.ahead ≤ fuel + 2 * e.ahead →
        Pattern.readPlaces? r.read fuel c = some (more.patterns, e))
    (h : pastMore? ']' more.isNil (more.past? r.read) d = some e)
    (hfuel : 2 * d.ahead ≤ fuel + 2 * e.ahead) :
    Pattern.readPlaces? r.read fuel (d.skip (·.mark? ",")) = some (more.patterns, e) := by
  have hbehind := pastMore?_ahead_lt (fun _ => more.past?_ahead_lt) h
  obtain ⟨f, hcomma, hf⟩ | ⟨hlast, hcomma, hclose⟩ := pastMore?_eq_some h
  · have := mark?_ahead_lt hcomma rfl
    have hplaces : Pattern.readPlaces? r.read fuel f = some (more.patterns, e) :=
      ih hf (by omega)
    simp [skip, hcomma, hplaces]
  · obtain ⟨fuel, rfl⟩ : ∃ n, fuel = n + 1 := ⟨fuel - 1, by omega⟩
    cases more with
    | nil => simp [skip, hcomma, Pattern.readPlaces?, hclose, Elements.patterns]
    | _ => simp [Elements.isNil] at hlast

/-- What a binding begins with begins nothing else inside of the brackets. -/
theorem Binding.eq_none_of_past? {b : Binding} (h : b.past? r.read c = some d) :
    c.char? ']' = none ∧ c.mark? "," = none ∧ c.mark? "..." = none := by
  have hnext : ∃ ch, c.next? = some ch ∧ ch ≠ ']' ∧ ch ≠ ',' ∧ ch ≠ '.' := by
    cases b with
    | name word =>
      obtain ⟨ch, hnext, hch⟩ := opensWord_of_anyWord? (pastName?_eq_some_iff.mp h).2
      exact ⟨ch, hnext, opensWord_ne hch (by decide), opensWord_ne hch (by decide),
        opensWord_ne hch (by decide)⟩
    | object properties =>
      obtain ⟨e, hopen, -⟩ := Option.bind_eq_some_iff.mp h
      exact ⟨_, (char?_eq_some_iff.mp hopen).1, by decide⟩
    | array elements =>
      obtain ⟨e, hopen, -⟩ := Option.bind_eq_some_iff.mp h
      exact ⟨_, (char?_eq_some_iff.mp hopen).1, by decide⟩
  obtain ⟨ch, hnext, hclose, hcomma, hdot⟩ := hnext
  exact ⟨char?_eq_none hnext hclose, mark?_eq_none hnext rfl hcomma, mark?_eq_none hnext rfl hdot⟩

mutual

/-- The reader of patterns gets back each binding inside of a pattern from its text. -/
theorem Binding.read?_eq : ∀ (b : Binding) {c d : Cursor} {fuel : Nat},
    b.past? r.read c = some d → 2 * c.ahead ≤ fuel + 2 * d.ahead →
      Pattern.read? r.read fuel c = some (b.inner, d)
  | b, c, d, 0, h, hfuel => by
    have := b.past?_ahead_lt h
    omega
  | .name word, c, d, fuel + 1, h, hfuel => by
    obtain ⟨-, hfound⟩ := pastName?_eq_some_iff.mp h
    obtain ⟨ch, hnext, hch⟩ := opensWord_of_anyWord? hfound
    have hbrace : c.char? '\x7b' = none := char?_eq_none hnext (opensWord_ne hch (by decide))
    have hbracket : c.char? '[' = none := char?_eq_none hnext (opensWord_ne hch (by decide))
    simp [Pattern.read?, hbrace, hbracket, hfound, Binding.inner]
  | .object properties, c, d, fuel + 1, h, hfuel => by
    obtain ⟨e, hopen, he⟩ := Option.bind_eq_some_iff.mp h
    have := char?_ahead_lt hopen
    have hparts : Pattern.readFields? r.read fuel e = some (properties.patterns, d) :=
      properties.readFields?_eq he (by omega)
    simp [Pattern.read?, hopen, hparts, Binding.inner]
  | .array elements, c, d, fuel + 1, h, hfuel => by
    obtain ⟨e, hopen, he⟩ := Option.bind_eq_some_iff.mp h
    have hbrace : c.char? '\x7b' = none :=
      char?_eq_none (char?_eq_some_iff.mp hopen).1 (by decide)
    have := char?_ahead_lt hopen
    have hplaces : Pattern.readPlaces? r.read fuel e = some (elements.patterns, d) :=
      elements.readPlaces?_eq he (by omega)
    simp [Pattern.read?, hbrace, hopen, hplaces, Binding.inner]

/-- It gets back the parts of each object pattern. -/
theorem Properties.readFields?_eq : ∀ (ps : Properties) {c d : Cursor} {fuel : Nat},
    ps.past? r.read c = some d → 2 * c.ahead ≤ fuel + 2 * d.ahead →
      Pattern.readFields? r.read fuel c = some (ps.patterns, d)
  | ps, c, d, 0, h, hfuel => by
    have := ps.past?_ahead_lt h
    omega
  | .nil, c, d, fuel + 1, h, hfuel => by
    have hclose : c.char? '\x7d' = some d := h
    simp [Pattern.readFields?, hclose, Properties.patterns]
  | .shorthand word value more, c, d, fuel + 1, h, hfuel => by
    simp only [Properties.past?, Option.bind_eq_bind, Option.bind_eq_some_iff] at h
    obtain ⟨e, hword, f, hvalue, hmore⟩ := h
    have := pastName?_ahead_lt hword
    have := pastDefault?_ahead_le hvalue
    have := pastMore?_ahead_lt (fun _ => more.past?_ahead_lt) hmore
    obtain ⟨fuel, rfl⟩ : ∃ n, fuel = n + 1 := ⟨fuel - 1, by omega⟩
    have hkey : readKey? r.read c = some e :=
      readKey?_of_anyWord? (pastName?_eq_some_iff.mp hword).2
    have hnone := eq_none_of_readKey? hkey
    exact readFields?_cons hnone.1 hnone.2.1
      (readField?_shorthand hword hvalue (eq_none_of_pastMore? hmore (by decide)))
      (readFields?_of_pastMore? more.readFields?_eq hmore (by omega))
  | .keyed key target value more, c, d, fuel + 1, h, hfuel => by
    simp only [Properties.past?, Option.bind_eq_bind, Option.bind_eq_some_iff] at h
    obtain ⟨e, hkey, f, htarget, g, hvalue, hmore⟩ := h
    have := pastKey?_ahead_lt hkey
    have := target.past?_ahead_lt htarget
    have := pastDefault?_ahead_le hvalue
    have := pastMore?_ahead_lt (fun _ => more.past?_ahead_lt) hmore
    obtain ⟨fuel, rfl⟩ : ∃ n, fuel = n + 1 := ⟨fuel - 1, by omega⟩
    have hnone := eq_none_of_readKey? (Option.bind_eq_some_iff.mp hkey).choose_spec.1
    exact readFields?_cons hnone.1 hnone.2.1
      (readField?_keyed hkey (target.read?_eq htarget (by omega)) hvalue
        (eq_none_of_pastMore? hmore (by decide)).1)
      (readFields?_of_pastMore? more.readFields?_eq hmore (by omega))
  | .rest target, c, d, fuel + 1, h, hfuel => by
    simp only [Properties.past?, Option.bind_eq_bind, Option.bind_eq_some_iff] at h
    obtain ⟨e, hmark, f, htarget, hclose⟩ := h
    have := mark?_ahead_lt hmark rfl
    have := target.past?_ahead_lt htarget
    have := char?_ahead_lt hclose
    obtain ⟨fuel, rfl⟩ : ∃ n, fuel = n + 1 := ⟨fuel - 1, by omega⟩
    exact readFields?_rest hmark (target.read?_eq htarget (by omega)) hclose

/-- It gets back the places of each array pattern. -/
theorem Elements.readPlaces?_eq : ∀ (es : Elements) {c d : Cursor} {fuel : Nat},
    es.past? r.read c = some d → 2 * c.ahead ≤ fuel + 2 * d.ahead →
      Pattern.readPlaces? r.read fuel c = some (es.patterns, d)
  | es, c, d, 0, h, hfuel => by
    have := es.past?_ahead_lt h
    omega
  | .nil, c, d, fuel + 1, h, hfuel => by
    have hclose : c.char? ']' = some d := h
    simp [Pattern.readPlaces?, hclose, Elements.patterns]
  | .hole more, c, d, fuel + 1, h, hfuel => by
    obtain ⟨e, hmark, he⟩ := Option.bind_eq_some_iff.mp h
    have := mark?_ahead_lt hmark rfl
    exact readPlaces?_hole hmark (more.readPlaces?_eq he (by omega))
  | .item target value more, c, d, fuel + 1, h, hfuel => by
    simp only [Elements.past?, Option.bind_eq_bind, Option.bind_eq_some_iff] at h
    obtain ⟨e, htarget, g, hvalue, hmore⟩ := h
    have := target.past?_ahead_lt htarget
    have := pastDefault?_ahead_le hvalue
    have := pastMore?_ahead_lt (fun _ => more.past?_ahead_lt) hmore
    exact readPlaces?_cons (Binding.eq_none_of_past? htarget)
      (target.read?_eq htarget (by omega)) hvalue (eq_none_of_pastMore? hmore (by decide)).1
      (readPlaces?_of_pastMore? more.readPlaces?_eq hmore (by omega))
  | .rest target, c, d, fuel + 1, h, hfuel => by
    simp only [Elements.past?, Option.bind_eq_bind, Option.bind_eq_some_iff] at h
    obtain ⟨e, hmark, f, htarget, hclose⟩ := h
    have := mark?_ahead_lt hmark rfl
    have := target.past?_ahead_lt htarget
    have := char?_ahead_lt hclose
    obtain ⟨fuel, rfl⟩ : ∃ n, fuel = n + 1 := ⟨fuel - 1, by omega⟩
    exact readPlaces?_rest hmark (target.read?_eq htarget (by omega)) hclose

end

end Reading

end Reexport.Script
