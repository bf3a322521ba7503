import Reexport.Script.Extent

/-!
# Reading goes onward

No reader of code goes back: what it reads past lies between the cursor from which it starts and the
one to which it leads, so that no more text is ahead of the second one than of the first one. This
is what bounds the work of a reader that goes from part to part by the length of the text.

A piece of one token and what follows it make up the text from which it was taken. The readers of
tokens therefore go onward, and each reader of a part does if the reader it is handed for the parts
inside of its own does. `readWithin` ties them together, and its fuel carries the induction.

## What is proved

* `spanGap_append` and its like — a piece and the rest are the text.
* `Cursor.Onward.bind`, `maybe_onward`, `itemThen_onward` — readers put together go onward.
* `readPart_onward` — so do the readers of all parts, one by one.
* `readWithin_onward` — hence reading never goes back.
-/

namespace Reexport.Script

/-! ### Pieces -/

theorem spanGap_append (part : GapPart) (cs : List Char) :
    (spanGap part cs).1 ++ (spanGap part cs).2 = cs := by
  fun_induction spanGap part cs <;> grind [push]

theorem spanName_append (braced : Bool) (cs : List Char) :
    (spanName braced cs).1 ++ (spanName braced cs).2 = cs := by
  fun_induction spanName braced cs <;> grind [push]

theorem spanQuoted_append (quote : Char) (cs : List Char) :
    (spanQuoted quote cs).1 ++ (spanQuoted quote cs).2 = cs := by
  fun_induction spanQuoted quote cs <;> grind [push]

theorem spanTemplate_append (cs : List Char) :
    (spanTemplate cs).1 ++ (spanTemplate cs).2 = cs := by
  fun_induction spanTemplate cs <;> grind [push]

theorem spanRegex?_append {inClass : Bool} {cs : List Char} {split : List Char × List Char}
    (h : spanRegex? inClass cs = some split) : split.1 ++ split.2 = cs := by
  fun_induction spanRegex? inClass cs generalizing split with
  | case1 => simp at h
  | case2 => simp at h
  | case3 inClass c cs hc ih =>
    obtain ⟨inner, hinner, rfl⟩ := Option.map_eq_some_iff.mp h
    simp [push, ih hinner]
  | case4 => simp at h
  | case5 => grind
  | case6 inClass c cs _ _ _ ih =>
    obtain ⟨inner, hinner, rfl⟩ := Option.map_eq_some_iff.mp h
    simp [push, ih hinner]

theorem spanLetters_append (cs : List Char) :
    (spanLetters cs).1 ++ (spanLetters cs).2 = cs :=
  List.takeWhile_append_dropWhile

theorem spanDigits_append (cs : List Char) :
    (spanDigits cs).1 ++ (spanDigits cs).2 = cs :=
  List.takeWhile_append_dropWhile

theorem spanExponent_append (cs : List Char) :
    (spanExponent cs).1 ++ (spanExponent cs).2 = cs := by
  fun_cases spanExponent cs <;> grind [push, spanLetters_append]

theorem spanNumber_append (cs : List Char) :
    (spanNumber cs).1 ++ (spanNumber cs).2 = cs := by
  have decimal (cs : List Char) :
      (spanNumber.spanDecimal cs).1 ++ (spanNumber.spanDecimal cs).2 = cs := by
    have := spanDigits_append cs
    fun_cases spanNumber.spanDecimal cs <;> grind [push, spanExponent_append, spanDigits_append]
  fun_cases spanNumber cs <;> grind [push, spanLetters_append]

theorem spanMark_append (cs : List Char) :
    (spanMark cs).1 ++ (spanMark cs).2 = cs := by
  fun_cases spanMark cs with
  | case1 => rfl
  | case2 => rfl
  | case3 _ mark hmark =>
    have hprefix := List.find?_some hmark
    simp only [List.isPrefixOf_iff_prefix] at hprefix
    obtain ⟨rest, rfl⟩ := hprefix
    simp [hmark, ← String.length_toList]
  | case4 _ hnone =>
    rw [hnone]
    exact List.take_append_drop 1 cs

/-! ### Places -/

namespace Cursor

variable {c d : Cursor} {o : Option Cursor}

/-- How much text is still to be read. -/
def ahead (c : Cursor) : Nat :=
  c.rest.length

/-- Whether what has been read from a cursor on, if anything, leads to no place before it. -/
def Onward (c : Cursor) (o : Option Cursor) : Prop :=
  ∀ d, o = some d → d.ahead ≤ c.ahead

@[grind .]
theorem onward_none : c.Onward none :=
  nofun

@[grind =]
theorem onward_some : c.Onward (some d) ↔ d.ahead ≤ c.ahead := by
  simp [Onward]

/-- What leads onward from a later place does so from an earlier one. -/
theorem Onward.trans (h : d.Onward o) (hd : d.ahead ≤ c.ahead) : c.Onward o :=
  fun e he => Nat.le_trans (h e he) hd

grind_pattern Onward.trans => d.Onward o, c.Onward o

@[grind .]
theorem onward_bind {α : Type} {a : Option α} {f : α → Option Cursor}
    (hf : ∀ e, a = some e → c.Onward (f e)) : c.Onward (a.bind f) := by
  cases a with
  | none => exact onward_none
  | some e => exact hf e rfl

/-- Two readers, the second one from where the first one leads to. -/
theorem Onward.bind {f : Cursor → Option Cursor} (h : c.Onward o)
    (hf : ∀ e : Cursor, e.Onward (f e)) : c.Onward (o.bind f) :=
  onward_bind fun e he => (hf e).trans (h e he)

theorem Onward.or {o' : Option Cursor} (h : c.Onward o) (h' : c.Onward o') :
    c.Onward (o.or o') := by
  cases o <;> assumption

theorem Onward.filter {keep : Cursor → Bool} (h : c.Onward o) : c.Onward (o.filter keep) :=
  fun e he => h e (Option.filter_eq_some_iff.mp he).1

theorem or_eq_left_or_right (a b : Option Cursor) : a.or b = a ∨ a.or b = b := by
  cases a <;> simp

grind_pattern or_eq_left_or_right => a.or b

theorem filter_eq_self_or_none (a : Option Cursor) (keep : Cursor → Bool) :
    a.filter keep = a ∨ a.filter keep = none := by
  cases a with
  | none => exact .inl rfl
  | some d => grind [Option.filter]

grind_pattern filter_eq_self_or_none => a.filter keep

theorem getD_ahead_le (h : c.Onward o) (hd : d.ahead ≤ c.ahead) :
    (o.getD d).ahead ≤ c.ahead := by
  cases o with
  | none => exact hd
  | some e => exact h e rfl

grind_pattern getD_ahead_le => o.getD d, c.ahead

theorem skip_ahead_le {find : Cursor → Option Cursor} (h : c.Onward (find c)) :
    (c.skip find).ahead ≤ c.ahead :=
  getD_ahead_le h (Nat.le_refl _)

theorem past_ahead_le {split : List Char × List Char} (h : split.1 ++ split.2 = c.rest) :
    (c.past split).ahead ≤ c.ahead := by
  simp [ahead, past, ← h]

@[grind! .]
theorem pastGap_ahead_le : c.pastGap.ahead ≤ c.ahead :=
  past_ahead_le (spanGap_append .blanks c.rest)

@[grind! .]
theorem tail_ahead_le : c.tail.ahead ≤ c.ahead := by
  simp [ahead, tail]

@[grind! .]
theorem char?_onward {ch : Char} : c.Onward (c.char? ch) := by
  grind [char?]

@[grind! .]
theorem mark?_onward {mark : String} : c.Onward (c.mark? mark) := by
  grind [mark?, past_ahead_le, spanMark_append]

@[grind! .]
theorem markOf?_onward {marks : List String} : c.Onward (c.markOf? marks) := by
  grind [markOf?, past_ahead_le, spanMark_append]

theorem anyWord?_ahead_le {found : String × Cursor} (h : c.anyWord? = some found) :
    found.2.ahead ≤ c.ahead := by
  grind [anyWord?, past_ahead_le, spanName_append]

grind_pattern anyWord?_ahead_le => c.anyWord?, some found

theorem anyWord?_bind_onward {f : String × Cursor → Option Cursor}
    (hf : ∀ word, ∀ e : Cursor, e.Onward (f (word, e))) : c.Onward (c.anyWord?.bind f) :=
  onward_bind fun ⟨word, e⟩ he => (hf word e).trans (anyWord?_ahead_le he)

@[grind! .]
theorem anyWord?_map_onward : c.Onward (c.anyWord?.map (·.2)) := by
  intro d h
  obtain ⟨found, hfound, rfl⟩ := Option.map_eq_some_iff.mp h
  exact anyWord?_ahead_le hfound

@[grind! .]
theorem word?_onward {word : String} : c.Onward (c.word? word) := by
  grind [word?]

@[grind! .]
theorem wordOf?_onward {words : List String} : c.Onward (c.wordOf? words) := by
  grind [wordOf?]

@[grind! .]
theorem privateName?_onward : c.Onward c.privateName? := by
  grind [privateName?, past_ahead_le, spanName_append]

@[grind! .]
theorem string?_onward : c.Onward c.string? := by
  grind [string?, past_ahead_le, spanQuoted_append]

@[grind! .]
theorem number?_onward : c.Onward c.number? := by
  grind [number?, past_ahead_le, spanNumber_append]

@[grind! .]
theorem regex?_onward : c.Onward c.regex? := by
  refine onward_bind fun d hd => onward_bind fun body hbody => onward_some.mpr ?_
  have hd : d.ahead ≤ c.ahead := char?_onward d hd
  have hbody : (d.past body).ahead ≤ d.ahead := past_ahead_le (spanRegex?_append hbody)
  exact Nat.le_trans (past_ahead_le (spanLetters_append _)) (Nat.le_trans hbody hd)

end Cursor

open Cursor

/-! ### Parts

A reader of a part is opened into its cases. Where each of them leads to follows from where the
readers in it do, one behind the other: what is tagged here lets `grind` put that together where the
cases are many.
-/

/-- A reader that never goes back. -/
structure OnwardReader where
  /-- The reader. -/
  read : Reader
  /-- Where it leads to. -/
  onward (part : Part) (c : Cursor) : c.Onward (read part c)

attribute [grind! .] OnwardReader.onward

attribute [grind =] maybe itemThen skip

variable {r : OnwardReader} {c d : Cursor} {o : Option Cursor} {p : Place} {word : String}
  {words : List String} {plain named types markup : Bool}

theorem maybe_onward {opening piece : Cursor → Option Cursor} (h : c.Onward (opening c))
    (hpiece : ∀ e : Cursor, e.Onward (piece e)) : c.Onward (maybe opening piece c) := by
  unfold maybe
  split <;> grind

theorem itemThen_onward {close : Char} {rest : Cursor → Option Cursor} (h : c.Onward o)
    (hrest : ∀ e : Cursor, e.Onward (rest e)) : c.Onward (itemThen close rest o) := by
  unfold itemThen
  refine h.bind fun e => ?_
  split <;> grind

@[grind! .]
theorem modifier?_onward : c.Onward (modifier? words c) := by
  simp only [modifier?, Option.bind_eq_bind]
  grind -mbtc

@[grind! .]
theorem someWord?_onward : c.Onward (someWord? c) :=
  anyWord?_map_onward

/-! ### Types -/

@[grind! .]
theorem readTypeParameters?_onward : c.Onward (readTypeParameters? r.read c) :=
  maybe_onward char?_onward (r.onward _)

@[grind! .]
theorem readAnnotation_onward : c.Onward <| readAnnotation r.read p c :=
  maybe_onward mark?_onward (r.onward _)

@[grind! .]
theorem readValue_onward : c.Onward (readValue r.read p c) :=
  maybe_onward mark?_onward (r.onward _)

@[grind! .]
theorem readSignature_onward : c.Onward (readSignature r.read p c) :=
  readTypeParameters?_onward.bind fun _ => char?_onward.bind fun d =>
    (r.onward _ d).bind fun _ => maybe_onward mark?_onward (r.onward _)

@[grind! .]
theorem readParameter_onward : c.Onward (readParameter r.read c) :=
  ((r.onward _ _).trans (skip_ahead_le mark?_onward)).bind fun _ =>
    (readAnnotation_onward.trans (skip_ahead_le mark?_onward)).bind fun _ => readValue_onward

@[grind! .]
theorem readParameters_onward : c.Onward (readParameters r.read c) := by
  simp only [readParameters, itemThen, Option.bind_eq_bind]
  (repeat' split) <;> grind -mbtc

@[grind! .]
theorem readPattern_onward : c.Onward (readPattern r.read c) := by
  unfold readPattern
  (repeat' split) <;> grind -mbtc

@[grind! .]
theorem readTarget_onward : c.Onward (readTarget r.read c) :=
  (r.onward _ c).bind fun _ => readValue_onward

@[grind! .]
theorem readKey?_onward : c.Onward (readKey? r.read c) := by
  simp only [readKey?, Option.bind_eq_bind, Option.orElse_eq_orElse, Option.orElse_eq_or]
  (repeat' split) <;> grind -mbtc

@[grind! .]
theorem readField_onward : c.Onward (readField r.read c) := by
  simp only [readField, Option.bind_eq_bind]
  (repeat' split) <;> grind -mbtc

@[grind! .]
theorem readObjectPattern_onward : c.Onward (readObjectPattern r.read c) := by
  simp only [readObjectPattern, itemThen, Option.bind_eq_bind]
  (repeat' split) <;> grind -mbtc

@[grind! .]
theorem readArrayPattern_onward : c.Onward (readArrayPattern r.read c) := by
  simp only [readArrayPattern, Cursor.skip, itemThen, Option.bind_eq_bind]
  (repeat' split) <;> grind -mbtc

@[grind! .]
theorem readFunctionType_onward : c.Onward (readFunctionType r.read p plain c) :=
  readTypeParameters?_onward.bind fun _ => char?_onward.bind fun d =>
    (r.onward _ d).bind fun _ => mark?_onward.bind (r.onward _)

@[grind! .]
theorem readInferred_onward : c.Onward (readInferred r.read p plain c) := by
  simp only [readInferred, Option.bind_eq_bind]
  grind -mbtc

@[grind! .]
theorem readGroupedType_onward : c.Onward (readGroupedType r.read p c) :=
  (r.onward _ c).bind fun _ => char?_onward.bind (r.onward _)

@[grind! .]
theorem readOperatedType_onward : c.Onward (readOperatedType r.read p plain c) := by
  unfold readOperatedType
  (repeat' split) <;> grind -mbtc

@[grind! .]
theorem readWordType_onward : c.Onward (readWordType r.read p plain word c) := by
  have imported : c.Onward ((c.word? "import").bind (·.char? '(')) :=
    word?_onward.bind fun _ => char?_onward
  simp only [readWordType, Option.bind_eq_bind, Option.orElse_eq_orElse, Option.orElse_eq_or]
  (repeat' split) <;> grind -mbtc

@[grind! .]
theorem readTypeOperand_onward : c.Onward (readTypeOperand r.read p plain c) := by
  simp only [readTypeOperand, Option.bind_eq_bind, Option.orElse_eq_orElse, Option.orElse_eq_or]
  (repeat' split) <;> grind -mbtc

@[grind! .]
theorem readTypeSuffix_onward : c.Onward (readTypeSuffix r.read p named c) := by
  have arguments : c.Onward (if named then
      (if p.operates then c.mark? "<" else c.char? '<').bind (r.read .typeArguments)
      else none) := by
    split <;> grind -mbtc
  have index {d : Cursor} : d.Onward ((d.char? ']').or
      ((r.read (.type .typeInside false) d).bind (·.char? ']'))) :=
    char?_onward.or ((r.onward _ d).bind fun _ => char?_onward)
  simp only [readTypeSuffix, Option.bind_eq_bind, Option.orElse_eq_orElse, Option.orElse_eq_or]
  (repeat' split) <;> grind -mbtc

@[grind! .]
theorem readTypeRest_onward : c.Onward (readTypeRest r.read p plain c) := by
  have branches : c.Onward ((c.word? "extends").bind fun d =>
      (r.read (.type .typeInside true) d).bind fun d => (d.mark? "?").bind fun d =>
        (r.read (.type .typeInside false) d).bind fun d =>
          (d.mark? ":").bind (r.read (.type p false))) :=
    word?_onward.bind fun d => (r.onward _ d).bind fun d => mark?_onward.bind fun d =>
      (r.onward _ d).bind fun d => mark?_onward.bind (r.onward _)
  simp only [readTypeRest, Option.bind_eq_bind, Option.orElse_eq_orElse, Option.orElse_eq_or]
  (repeat' split) <;> grind -mbtc

@[grind! .]
theorem readType_onward : c.Onward (readType r.read p plain c) :=
  ((r.onward _ _).trans (skip_ahead_le markOf?_onward)).bind (r.onward _)

@[grind! .]
theorem readPredicate_onward : c.Onward (readPredicate r.read p plain c) := by
  simp only [readPredicate, Option.bind_eq_bind]
  grind -mbtc

@[grind! .]
theorem readResult_onward : c.Onward (readResult r.read p plain c) := by
  simp only [readResult, Option.bind_eq_bind, Option.orElse_eq_orElse, Option.orElse_eq_or]
  grind -mbtc

@[grind! .]
theorem readGroupedResult_onward : c.Onward (readGroupedResult r.read c) := by
  simp only [readGroupedResult, maybe, Option.bind_eq_bind]
  (repeat' split) <;> grind -mbtc

@[grind! .]
theorem readTypeList_onward : c.Onward (readTypeList r.read c) :=
  (r.onward _ c).bind fun _ => maybe_onward mark?_onward (r.onward _)

@[grind! .]
theorem readTypeArguments_onward : c.Onward (readTypeArguments r.read c) := by
  simp only [readTypeArguments, itemThen, Option.bind_eq_bind]
  (repeat' split) <;> grind -mbtc

@[grind! .]
theorem readTypeParameters_onward : c.Onward (readTypeParameters r.read c) := by
  unfold readTypeParameters
  repeat' split
  · grind -mbtc
  · grind -mbtc
  · exact itemThen_onward ((r.onward _ c).bind fun d => (maybe_onward word?_onward
      (r.onward _)).bind fun d => maybe_onward mark?_onward (r.onward _)) (r.onward _)

@[grind! .]
theorem pastItemName_ahead_le : (pastItemName c).ahead ≤ c.ahead := by
  simp only [pastItemName, Cursor.skip, Option.bind_eq_bind]
  grind -mbtc

@[grind! .]
theorem readTuple_onward : c.Onward (readTuple r.read c) := by
  simp only [readTuple]
  split
  · grind -mbtc
  · refine itemThen_onward ?_ (r.onward _)
    grind -mbtc

@[grind! .]
theorem readIndex_onward : c.Onward (readIndex r.read c) := by
  have index : c.Onward (c.anyWord?.bind fun found => (found.2.mark? ":").bind fun d =>
      (r.read (.type .typeInside false) d).bind (·.char? ']')) :=
    anyWord?_bind_onward fun _ d => mark?_onward.bind fun d => (r.onward _ d).bind fun _ =>
      char?_onward
  have mapped : c.Onward (c.anyWord?.bind fun found => (found.2.word? "in").bind fun d =>
      (r.read (.type .typeInside false) d).bind fun d =>
        (maybe (·.word? "as") (r.read (.type .typeInside false)) d).bind (·.char? ']')) :=
    anyWord?_bind_onward fun _ d => word?_onward.bind fun d => (r.onward _ d).bind fun d =>
      (maybe_onward word?_onward (r.onward _)).bind fun _ => char?_onward
  have subscript : c.Onward ((r.read (.expressions .valueInside) c).bind (·.char? ']')) :=
    (r.onward _ c).bind fun _ => char?_onward
  simp only [readIndex, Option.bind_eq_bind, Option.orElse_eq_orElse, Option.orElse_eq_or]
  exact index.or (mapped.or subscript)

@[grind! .]
theorem readMemberKey_onward : c.Onward (readMemberKey r.read c) := by
  unfold readMemberKey
  (repeat' split) <;> grind -mbtc

@[grind! .]
theorem pastMissing_ahead_le : (pastMissing c).ahead ≤ c.ahead :=
  Nat.le_trans (skip_ahead_le markOf?_onward) (skip_ahead_le markOf?_onward)

@[grind! .]
theorem readMember.named_onward : c.Onward (readMember.named r.read c) := by
  simp only [readMember.named, Option.bind_eq_bind]
  (repeat' split) <;> grind -mbtc

@[grind! .]
theorem readMember_onward : c.Onward (readMember r.read c) := by
  simp only [readMember, Cursor.skip]
  (repeat' split) <;> grind -mbtc

@[grind! .]
theorem readMembers_onward : c.Onward (readMembers r.read c) := by
  simp only [readMembers, Option.bind_eq_bind]
  (repeat' split) <;> grind -mbtc

/-! ### Expressions -/

@[grind! .]
theorem readArgument_onward : c.Onward (readArgument r.read c) :=
  ((r.onward _ _).trans (skip_ahead_le mark?_onward)).bind fun _ =>
    (readAnnotation_onward.trans (skip_ahead_le mark?_onward)).bind fun _ => readValue_onward

@[grind! .]
theorem readArguments_onward : c.Onward (readArguments r.read c) := by
  simp only [readArguments, itemThen, Option.bind_eq_bind]
  (repeat' split) <;> grind -mbtc

@[grind! .]
theorem beforeArrow_onward (h : c.Onward o) : c.Onward (arrowResult?.beforeArrow o) := by
  cases o <;> grind [arrowResult?.beforeArrow]

@[grind! .]
theorem arrowResult?_onward : c.Onward (arrowResult? r.read c) := by
  simp only [arrowResult?, Option.orElse_eq_orElse, Option.orElse_eq_or]
  grind -mbtc

@[grind! .]
theorem readParenthesis_onward : c.Onward (readParenthesis r.read c) :=
  (r.onward _ c).bind fun _ => onward_some.mpr
    (getD_ahead_le (mark?_onward.bind fun _ => arrowResult?_onward) (Nat.le_refl _))

@[grind! .]
theorem readSubscript_onward : c.Onward (readSubscript r.read c) :=
  (r.onward _ c).bind fun _ => char?_onward

@[grind! .]
theorem readArrayItems_onward : c.Onward (readArrayItems r.read c) := by
  simp only [readArrayItems, Cursor.skip, itemThen, Option.bind_eq_bind]
  (repeat' split) <;> grind -mbtc

@[grind! .]
theorem readMethod_onward : c.Onward (readMethod r.read c) :=
  readSignature_onward.bind fun _ => char?_onward.bind (r.onward _)

@[grind! .]
theorem readObjectItem_onward : c.Onward (readObjectItem r.read c) := by
  simp only [readObjectItem, Option.bind_eq_bind]
  (repeat' split) <;> grind -mbtc

@[grind! .]
theorem readObjectItems_onward : c.Onward (readObjectItems r.read c) := by
  simp only [readObjectItems, itemThen, Option.bind_eq_bind, Option.orElse_eq_orElse,
    Option.orElse_eq_or]
  (repeat' split) <;> grind -mbtc

@[grind! .]
theorem readTemplate_onward : c.Onward (readTemplate r.read types c) := by
  have inside : (c.past (spanTemplate c.rest)).ahead ≤ c.ahead :=
    past_ahead_le (spanTemplate_append c.rest)
  simp only [readTemplate, Option.bind_eq_bind]
  split <;> grind -mbtc

@[grind! .]
theorem pastWord_ahead_le : (pastWord c).ahead ≤ c.ahead :=
  skip_ahead_le anyWord?_map_onward

@[grind! .]
theorem readFunction_onward : c.Onward (readFunction r.read c) :=
  readMethod_onward.trans (Nat.le_trans pastWord_ahead_le (skip_ahead_le mark?_onward))

@[grind! .]
theorem readCalls_onward : c.Onward (readCalls r.read c) := by
  simp only [readCalls, Option.bind_eq_bind, Option.orElse_eq_orElse, Option.orElse_eq_or]
  (repeat' split) <;> grind -mbtc

@[grind! .]
theorem readHeritage_onward : c.Onward (readHeritage r.read c) :=
  (r.onward _ c).bind (r.onward _)

@[grind! .]
theorem readClass_onward : c.Onward (readClass r.read c) := by
  simp only [readClass, maybe, Option.bind_eq_bind]
  (repeat' split) <;> grind -mbtc

@[grind! .]
theorem readClassMember_onward : c.Onward (readClassMember r.read c) := by
  simp only [readClassMember, maybe, Option.bind_eq_bind]
  grind -mbtc

@[grind! .]
theorem readClassBody_onward : c.Onward (readClassBody r.read c) := by
  have marks : c.Onward ((c.markOf? [";", ",", "*"]).or (modifier? classModifiers c)) :=
    markOf?_onward.or modifier?_onward
  have static : c.Onward ((c.word? "static").bind (·.char? '\x7b')) :=
    word?_onward.bind fun _ => char?_onward
  simp only [readClassBody, Option.bind_eq_bind, Option.orElse_eq_orElse, Option.orElse_eq_or]
  (repeat' split) <;> grind -mbtc

@[grind! .]
theorem readDecoratorCall_onward : c.Onward (readDecoratorCall r.read c) := by
  simp only [readDecoratorCall, maybe]
  (repeat' split) <;> grind -mbtc

@[grind! .]
theorem readDecoratorRest_onward : c.Onward (readDecoratorRest r.read c) := by
  simp only [readDecoratorRest, Option.bind_eq_bind, Option.orElse_eq_orElse, Option.orElse_eq_or]
  (repeat' split) <;> grind -mbtc

@[grind! .]
theorem readAsync_onward : c.Onward (readAsync r.read p c) := by
  have generic : c.Onward ((c.char? '<').bind fun d => (r.read .typeParameters d).bind fun d =>
      (d.char? '(').bind fun d => (r.read .parameters d).bind fun d =>
        (maybe (·.mark? ":") (arrowResult? r.read) d).bind fun d =>
          if (d.mark? "=>").isSome then some d else none) := by
    refine char?_onward.bind fun d => (r.onward _ d).bind fun d => char?_onward.bind fun d =>
      (r.onward _ d).bind fun d =>
        (maybe_onward mark?_onward fun _ => arrowResult?_onward).bind fun d => ?_
    split <;> grind
  have named : c.Onward ((someWord? c).filter fun d => (d.mark? "=>").isSome) :=
    someWord?_onward.filter
  have operand := generic.or named
  simp only [readAsync, Option.bind_eq_bind, Option.orElse_eq_orElse, Option.orElse_eq_or]
  (repeat' split) <;> grind -mbtc

@[grind! .]
theorem readNew_onward : c.Onward (readNew r.read p c) := by
  unfold readNew
  (repeat' split) <;> grind -mbtc

@[grind! .]
theorem readYield_onward : c.Onward (readYield r.read p c) := by
  simp only [readYield, Cursor.skip]
  (repeat' split) <;> grind -mbtc

@[grind! .]
theorem readWordOperand_onward : c.Onward (readWordOperand r.read p word c) := by
  unfold readWordOperand
  (repeat' split) <;> grind -mbtc

@[grind! .]
theorem readAngled_onward : c.Onward (readAngled r.read markup p c) := by
  simp only [readAngled, Option.bind_eq_bind]
  (repeat' split) <;> grind -mbtc

@[grind! .]
theorem readOperand_onward : c.Onward (readOperand r.read markup p c) := by
  simp only [readOperand, Option.bind_eq_bind, Option.orElse_eq_orElse, Option.orElse_eq_or]
  (repeat' split) <;> grind -mbtc

@[grind! .]
theorem greaterMark?_onward : c.Onward (greaterMark? c) := by
  simp only [greaterMark?, Option.bind_eq_bind]
  refine onward_bind fun d hd => ?_
  have := char?_onward d hd
  split <;> simp only [Option.pure_def, onward_some, ahead, tail, List.length_drop] at * <;> omega

@[grind! .]
theorem readCondition_onward : c.Onward (readCondition r.read p c) := by
  simp only [readCondition, Option.bind_eq_bind]
  grind -mbtc

@[grind! .]
theorem readArrowBody_onward : c.Onward (readArrowBody r.read p c) := by
  simp only [readArrowBody, Option.bind_eq_bind]
  (repeat' split) <;> grind -mbtc

@[grind! .]
theorem readProperty_onward : c.Onward (readProperty r.read p c) := by
  simp only [readProperty, Option.orElse_eq_orElse, Option.orElse_eq_or]
  grind -mbtc

@[grind! .]
theorem readMarked_onward : c.Onward (readMarked r.read p c) := by
  simp only [readMarked, Option.bind_eq_bind, Option.orElse_eq_orElse, Option.orElse_eq_or]
  (repeat' split) <;> grind -mbtc

@[grind! .]
theorem readOperators_onward : c.Onward (readOperators r.read p c) := by
  have typed {d : Cursor} :
      d.Onward (((d.mark? "<").bind (r.read .typeArguments)).filter followsTypeArguments) :=
    (mark?_onward.bind (r.onward _)).filter
  simp only [readOperators, Option.bind_eq_bind]
  (repeat' split) <;> grind -mbtc

@[grind! .]
theorem readExpression_onward : c.Onward (readExpression r.read p c) :=
  (r.onward _ c).bind (r.onward _)

@[grind! .]
theorem readExpressions_onward : c.Onward (readExpressions r.read p c) :=
  (r.onward _ c).bind fun _ => maybe_onward mark?_onward (r.onward _)

/-! ### Markup -/

@[grind! .]
theorem elementName?_onward : c.Onward (elementName? c) := by
  have hgap : c.pastGap.ahead ≤ c.ahead := pastGap_ahead_le
  have hname : (c.pastGap.rest.dropWhile isElementNameChar).length ≤ c.pastGap.rest.length :=
    (List.dropWhile_sublist _).length_le
  grind -mbtc [elementName?, ahead]

@[grind! .]
theorem readContainer_onward : c.Onward (readContainer r.read c) := by
  simp only [readContainer, Cursor.skip, Option.bind_eq_bind]
  (repeat' split) <;> grind -mbtc

@[grind! .]
theorem attributeText?_onward : c.Onward (attributeText? c) := by
  have hgap : c.pastGap.ahead ≤ c.ahead := pastGap_ahead_le
  simp only [attributeText?]
  split
  · exact onward_none
  next quote cs h =>
    have text : cs.takeWhile (· ≠ quote) ++ cs.dropWhile (· ≠ quote) = cs :=
      List.takeWhile_append_dropWhile
    split
    · split
      · exact onward_none
      next close rest hclose =>
        rw [hclose] at text
        have hlength := congrArg List.length text
        simp only [List.length_append, List.length_cons] at hlength
        simp only [ahead, h, List.length_cons] at hgap
        simp only [onward_some, ahead, past]
        omega
    · exact onward_none

@[grind! .]
theorem readAttributeValue_onward : c.Onward (readAttributeValue r.read c) := by
  unfold readAttributeValue
  (repeat' split) <;> grind -mbtc

@[grind! .]
theorem readElement_onward : c.Onward (readElement r.read c) := by
  simp only [readElement, maybe, Option.bind_eq_bind]
  (repeat' split) <;> grind -mbtc

@[grind! .]
theorem readAttributes_onward : c.Onward (readAttributes r.read c) := by
  simp only [readAttributes, maybe, Option.bind_eq_bind]
  (repeat' split) <;> grind -mbtc

@[grind! .]
theorem readChildren_onward : c.Onward (readChildren r.read c) := by
  simp only [readChildren, Option.bind_eq_bind]
  generalize htext : c.rest.takeWhile _ = text
  have hpast : (c.past (text, c.rest.drop text.length)).ahead ≤ c.ahead := by
    simp [ahead, past]
  (repeat' split) <;> grind -mbtc

/-! ### Statements -/

@[grind! .]
theorem pastSemicolon_ahead_le : (pastSemicolon c).ahead ≤ c.ahead :=
  skip_ahead_le mark?_onward

@[grind! .]
theorem pastExpressions_ahead_le : (pastExpressions r.read c).ahead ≤ c.ahead := by
  simp only [pastExpressions, Cursor.skip]
  (repeat' split) <;> grind -mbtc

@[grind! .]
theorem readDeclaratorRest_onward : c.Onward (readDeclaratorRest r.read p c) := by
  simp only [readDeclaratorRest, Cursor.skip, Option.bind_eq_bind]
  (repeat' split) <;> grind -mbtc

@[grind! .]
theorem readDeclarators_onward : c.Onward (readDeclarators r.read p c) :=
  (r.onward _ c).bind fun _ => readDeclaratorRest_onward.bind fun _ =>
    maybe_onward mark?_onward (r.onward _)

@[grind! .]
theorem readBlock_onward : c.Onward (readBlock r.read c) :=
  char?_onward.bind (r.onward _)

@[grind! .]
theorem readFunctionDeclaration_onward : c.Onward (readFunctionDeclaration r.read c) :=
  (readSignature_onward.trans
    (Nat.le_trans pastWord_ahead_le (skip_ahead_le mark?_onward))).bind fun _ =>
      maybe_onward char?_onward (r.onward _)

theorem pastDottedName_go_ahead_le {most : Nat} : (pastDottedName.go most c).ahead ≤ c.ahead := by
  induction most generalizing c with
  | zero => exact Nat.le_refl _
  | succ most ih =>
    have dot : c.Onward ((c.mark? ".").bind someWord?) :=
      mark?_onward.bind fun _ => someWord?_onward
    unfold pastDottedName.go
    split <;> grind -mbtc

@[grind! .]
theorem pastDottedName_onward : c.Onward (pastDottedName c) := by
  simp only [pastDottedName, Option.bind_eq_bind]
  split
  · grind
  · exact anyWord?_bind_onward fun _ d => onward_some.mpr pastDottedName_go_ahead_le

@[grind! .]
theorem readAlias_onward : c.Onward (readAlias r.read c) :=
  someWord?_onward.bind fun _ => readTypeParameters?_onward.bind fun _ =>
    mark?_onward.bind (r.onward _)

@[grind! .]
theorem readInterface_onward : c.Onward (readInterface r.read c) :=
  someWord?_onward.bind fun _ => readTypeParameters?_onward.bind fun _ =>
    (maybe_onward word?_onward (r.onward _)).bind fun _ => char?_onward.bind (r.onward _)

@[grind! .]
theorem readDeclarationOf_onward : c.Onward (readDeclarationOf r.read word c) := by
  simp only [readDeclarationOf, maybe, Option.bind_eq_bind]
  (repeat' split) <;> grind -mbtc

@[grind! .]
theorem readDeclaration_onward : c.Onward (readDeclaration r.read c) :=
  anyWord?_bind_onward fun _ _ => readDeclarationOf_onward

@[grind! .]
theorem readNameList_onward : c.Onward (readNameList r.read c) := by
  simp only [readNameList, Option.bind_eq_bind, Option.orElse_eq_orElse, Option.orElse_eq_or]
  (repeat' split) <;> grind -mbtc

@[grind! .]
theorem readOrigin_onward : c.Onward (readOrigin r.read c) := by
  have opening {d : Cursor} :
      d.Onward ((d.wordOf? ["with", "assert"]).bind (·.char? '\x7b')) :=
    wordOf?_onward.bind fun _ => char?_onward
  simp only [readOrigin, Option.bind_eq_bind]
  refine string?_onward.bind fun d => ?_
  split
  · grind
  · exact maybe_onward opening (r.onward _)

@[grind! .]
theorem readImported_onward : c.Onward (readImported r.read c) := by
  simp only [readImported, Option.bind_eq_bind, Option.orElse_eq_orElse, Option.orElse_eq_or]
  (repeat' split) <;> grind -mbtc

@[grind! .]
theorem readFrom_onward : c.Onward (readFrom r.read c) := by
  simp only [readFrom, maybe]
  (repeat' split) <;> grind -mbtc

@[grind! .]
theorem readDefault_onward : c.Onward (readDefault r.read c) := by
  simp only [readDefault, Cursor.skip, Option.bind_eq_bind, Option.orElse_eq_orElse,
    Option.orElse_eq_or]
  grind -mbtc

@[grind! .]
theorem readExported_onward : c.Onward (readExported r.read c) := by
  have types : (c.skip fun c => (c.word? "type").filter fun d =>
      (d.char? '\x7b').isSome || (d.mark? "*").isSome).ahead ≤ c.ahead :=
    skip_ahead_le word?_onward.filter
  have name {d : Cursor} : d.Onward ((d.word? "as").bind fun e => e.string?.or (someWord? e)) :=
    word?_onward.bind fun e => string?_onward.or someWord?_onward
  have space : c.Onward ((c.word? "as").bind (·.word? "namespace")) :=
    word?_onward.bind fun e => word?_onward
  unfold readExported
  generalize (c.skip fun c => (c.word? "type").filter fun d =>
    (d.char? '\x7b').isSome || (d.mark? "*").isSome) = e at types
  simp only [skip, Option.bind_eq_bind, Option.orElse_eq_orElse, Option.orElse_eq_or]
  (repeat' split) <;> grind -mbtc

@[grind! .]
theorem readTest_onward : c.Onward (readTest r.read c) :=
  char?_onward.bind fun d => (r.onward _ d).bind fun _ => char?_onward

@[grind! .]
theorem readLoopHead_onward : c.Onward (readLoopHead r.read c) := by
  have head (d : Cursor) : d.Onward (((d.wordOf? ["var", "let", "const"]).bind
      (r.read (.declarators .valueInside))).or (r.read (.expressions .valueInside) d)) :=
    (wordOf?_onward.bind (r.onward _)).or (r.onward _ d)
  have part (d : Cursor) :
      ((d.skip (·.mark? ";")).skip (r.read (.expressions .valueInside))).ahead ≤ d.ahead :=
    Nat.le_trans (skip_ahead_le (r.onward _ _)) (skip_ahead_le mark?_onward)
  simp only [readLoopHead, Option.bind_eq_bind, Option.orElse_eq_orElse, Option.orElse_eq_or]
  refine char?_onward.bind fun d => ?_
  have start := getD_ahead_le (head d) (Nat.le_refl _)
  split
  next e he =>
    exact ((r.onward _ e).bind fun _ => char?_onward).trans
      (Nat.le_trans (wordOf?_onward e he) start)
  · exact char?_onward.trans (Nat.le_trans (part _) (Nat.le_trans (part _) start))

@[grind! .]
theorem readHandlers_onward : c.Onward (readHandlers r.read c) := by
  have bound (d : Cursor) : d.Onward ((r.read .pattern d).bind fun d =>
      readAnnotation r.read .typeInside d |>.bind (·.char? ')')) :=
    (r.onward _ d).bind fun d => readAnnotation_onward.bind fun d => char?_onward
  have handler (d : Cursor) : d.Onward ((maybe (·.char? '(') (fun d =>
      (r.read .pattern d).bind fun d =>
        readAnnotation r.read .typeInside d |>.bind (·.char? ')')) d).bind (readBlock r.read)) :=
    (maybe_onward char?_onward bound).bind fun d => readBlock_onward
  exact (maybe_onward word?_onward handler).bind fun d =>
    maybe_onward word?_onward fun d => readBlock_onward

@[grind! .]
theorem readControl_onward : c.Onward (readControl r.read word c) := by
  simp only [readControl, Cursor.skip, maybe, Option.bind_eq_bind]
  (repeat' split) <;> grind -mbtc

@[grind! .]
theorem readExpressionStatement_onward : c.Onward (readExpressionStatement r.read c) := by
  simp only [readExpressionStatement, Option.bind_eq_bind]
  grind -mbtc

@[grind! .]
theorem readWordStatement_onward (h : d.ahead ≤ c.ahead) :
    c.Onward (readWordStatement r.read word c d) := by
  simp only [readWordStatement, Option.bind_eq_bind]
  (repeat' split) <;> grind -mbtc

@[grind! .]
theorem readStatement_onward : c.Onward (readStatement r.read c) := by
  simp only [readStatement, Option.bind_eq_bind]
  (repeat' split) <;> grind -mbtc

@[grind! .]
theorem readStatements_onward : c.Onward (readStatements r.read c) := by
  simp only [readStatements, Option.bind_eq_bind]
  (repeat' split) <;> grind -mbtc

/-! ### All parts -/

/-- The reader of any part goes onward if the one it is handed for the parts inside does. -/
theorem readPart_onward : ∀ part : Part, c.Onward (readPart markup r.read part c)
  | .type _ _ => readType_onward
  | .typeRest _ _ => readTypeRest_onward
  | .typeOperand _ _ => readTypeOperand_onward
  | .typeSuffix _ _ => readTypeSuffix_onward
  | .result _ _ => readResult_onward
  | .groupedResult => readGroupedResult_onward
  | .typeList => readTypeList_onward
  | .typeArguments => readTypeArguments_onward
  | .typeParameters => readTypeParameters_onward
  | .tuple => readTuple_onward
  | .members => readMembers_onward
  | .parameters => readParameters_onward
  | .pattern => readPattern_onward
  | .objectPattern => readObjectPattern_onward
  | .arrayPattern => readArrayPattern_onward
  | .expressions _ => readExpressions_onward
  | .expression _ => readExpression_onward
  | .operand _ => readOperand_onward
  | .operators _ => readOperators_onward
  | .arguments => readArguments_onward
  | .arrayItems => readArrayItems_onward
  | .objectItems => readObjectItems_onward
  | .template _ => readTemplate_onward
  | .classBody => readClassBody_onward
  | .calls => readCalls_onward
  | .decoratorRest => readDecoratorRest_onward
  | .element => readElement_onward
  | .attributes => readAttributes_onward
  | .children => readChildren_onward
  | .declarators _ => readDeclarators_onward
  | .statement => readStatement_onward
  | .statements => readStatements_onward
  | .declaration => readDeclaration_onward
  | .imported => readImported_onward
  | .nameList => readNameList_onward

/-- Reading never goes back, however deeply parts may nest. -/
theorem readWithin_onward (markup : Bool) (fuel : Nat) (part : Part) (c : Cursor) :
    c.Onward (readWithin markup fuel part c) := by
  induction fuel generalizing part c with
  | zero => exact onward_none
  | succ fuel ih => exact readPart_onward (r := ⟨readWithin markup fuel, ih⟩) part

end Reexport.Script
