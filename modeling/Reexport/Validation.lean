import Reexport.Json
import Reexport.Text.Integer

/-!
# Validation

Values that come from outside are checked against the type that is wanted. A check gives the typed
value, or a list of complaints that say where a value does not fit and why. A text may stand for a
truth value or for a number, and a number for a truth value, as far as its meaning is plain.
-/

namespace Reexport

/-- A step on the way to a part of a value. -/
inductive Step where
  /-- Into a member. -/
  | member (name : String)
  /-- Into an item of a list. -/
  | item (index : Nat)
  deriving DecidableEq, Repr

/-- Why a value does not fit. -/
inductive Mismatch where
  /-- A member is missing. -/
  | missing
  /-- A member is not known. -/
  | unknown
  /-- A text is wanted. -/
  | notText
  /-- A truth value is wanted. -/
  | notTruth
  /-- The text or number stands for no truth value. -/
  | unclearTruth
  /-- An integer is wanted. -/
  | notInteger
  /-- The text writes no integer. -/
  | unclearInteger
  /-- The text is too long for an integer. -/
  | endlessInteger
  /-- The number has a fraction. -/
  | fractional
  /-- A word stands in the place of a number. -/
  | notFinite
  /-- A list that can be a set is wanted. -/
  | notSet
  /-- An object is wanted. -/
  | notObject
  /-- An object with known members is wanted. -/
  | notRecord
  /-- The object has no members. -/
  | noMembers
  /-- The value breaks a rule of its own. -/
  | rule (text : String)
  deriving DecidableEq, Repr

/-- The word for a mismatch. -/
def Mismatch.label : Mismatch → String
  | missing => "missing"
  | unknown => "extra_forbidden"
  | notText => "string_type"
  | notTruth => "bool_type"
  | unclearTruth => "bool_parsing"
  | notInteger => "int_type"
  | unclearInteger => "int_parsing"
  | endlessInteger => "int_parsing_size"
  | fractional => "int_from_float"
  | notFinite => "finite_number"
  | notSet => "frozen_set_type"
  | notObject => "dict_type"
  | notRecord => "model_attributes_type"
  | noMembers => "too_short"
  | rule _ => "value_error"

/-- The wording of a mismatch. -/
def Mismatch.message : Mismatch → String
  | missing => "Field required"
  | unknown => "Extra inputs are not permitted"
  | notText => "Input should be a valid string"
  | notTruth => "Input should be a valid boolean"
  | unclearTruth => "Input should be a valid boolean, unable to interpret input"
  | notInteger => "Input should be a valid integer"
  | unclearInteger => "Input should be a valid integer, unable to parse string as an integer"
  | endlessInteger => "Unable to parse input string as an integer, exceeded maximum size"
  | fractional => "Input should be a valid integer, got a number with a fractional part"
  | notFinite => "Input should be a finite number"
  | notSet => "Input should be a valid frozenset"
  | notObject => "Input should be a valid dictionary"
  | notRecord => "Input should be a valid dictionary or object to extract fields from"
  | noMembers => "Dictionary should have at least 1 item after validation, not 0"
  | rule text => "Value error, " ++ text

/-- A mismatch and its place. -/
structure Complaint where
  /-- The way to the value. -/
  place : List Step
  /-- What is wrong with it. -/
  mismatch : Mismatch
  deriving DecidableEq, Repr

/-- The word for a step. -/
def Step.word : Step → String
  | member name => name
  | item index => toString index

/-- A complaint on one line: the way to the value, and what is wrong with it. -/
def Complaint.message (c : Complaint) : String :=
  String.intercalate "." (c.place.map (·.word)) ++ ": " ++ c.mismatch.message

/-- The part of a value that a step leads to. -/
def Json.part? (value : Json) : Step → Option Json
  | .member name => value.member? name
  | .item index => match value with
    | .array items => items[index]?
    | _ => none

/-- What does not fit: the value at the place of a complaint, or the one around it if that is where
something is missing. -/
def Complaint.culprit? (c : Complaint) (value : Json) : Option Json :=
  let way := if c.mismatch = .missing then c.place.dropLast else c.place
  way.foldlM Json.part? value

/-- The result of a check. -/
abbrev Checked (α : Type) := Except (List Complaint) α

namespace Checked

variable {α β : Type}

/-- A complaint about the value itself. -/
def fail (m : Mismatch) : Checked α :=
  .error [⟨[], m⟩]

/-- A check of a part of a value. -/
def within (step : Step) : Checked α → Checked α
  | .ok a => .ok a
  | .error cs => .error (cs.map fun c => { c with place := step :: c.place })

/-- Two checks, with the complaints of both. -/
def both : Checked α → Checked β → Checked (α × β)
  | .ok a, .ok b => .ok (a, b)
  | .ok _, .error cs => .error cs
  | .error cs, .ok _ => .error cs
  | .error cs, .error ds => .error (cs ++ ds)

/-- The checks of all items, with the complaints of all. -/
def all : List (Checked α) → Checked (List α)
  | [] => .ok []
  | c :: cs => (both c (all cs)).map fun (a, as) => a :: as

end Checked

namespace Json

open Checked

/-- A text. -/
def checkText : Json → Checked String
  | string s => .ok s
  | _ => fail .notText

/-- The truth value for which a word stands, in small or capital letters. -/
def truthOfWord? (word : String) : Option Bool :=
  let word := word.map Char.toLower
  if ["1", "t", "y", "on", "yes", "true"].contains word then some true
  else if ["0", "f", "n", "no", "off", "false"].contains word then some false
  else none

/-- The integer that a number with a fraction or an exponent is equal to, if there is one. -/
def integerOfDecimal? (digits exponent : Int) : Option Int :=
  if 0 ≤ exponent then some (digits * Int.pow 10 exponent.toNat)
  else
    let unit := Int.pow 10 exponent.natAbs
    if digits % unit = 0 then some (digits / unit) else none

/-- Whether an integer fits into 64 bits with a sign. -/
def isWord64 (n : Int) : Bool :=
  -0x8000000000000000 ≤ n && n < 0x8000000000000000

/-- The truth value for which an integer stands. -/
def truthOfInteger (n : Int) : Checked Bool :=
  if n = 0 then .ok false
  else if n = 1 then .ok true
  else if isWord64 n then fail .unclearTruth
  else fail .notTruth

/-- A truth value, or a word or number that stands for one. -/
def checkTruth : Json → Checked Bool
  | bool b => .ok b
  | string s => match truthOfWord? s with
    | some b => .ok b
    | none => fail .unclearTruth
  | int n => truthOfInteger n
  | decimal d e => match integerOfDecimal? d e with
    | some n => truthOfInteger n
    | none => fail .notTruth
  | _ => fail .notTruth

/-- A number without the zeros and low lines with which it goes on after the character `before`.
That character stays before a point or at the end. There is no answer if anything else than a digit
or a minus sign follows. -/
def dropMoreZeros? (before : Char) : List Char → Option (List Char)
  | [] => some [before]
  | c :: cs =>
    if c == '0' || c == '_' then dropMoreZeros? c cs
    else if c.isDigit || c == '-' then some (c :: cs)
    else if c == '.' then some (before :: c :: cs)
    else none

/-- A number without useless zeros at its front. There is no answer if the text begins with neither
a digit nor a minus sign. -/
def dropZeros? : List Char → Option (List Char)
  | '0' :: cs => dropMoreZeros? '0' cs
  | c :: cs => if c.isDigit || c == '-' then some (c :: cs) else none
  | [] => none

/-- A number without a fraction of zeros. -/
def dropFraction (cs : List Char) : List Char :=
  match cs.dropWhile (· ≠ '.') with
  | _ :: c :: fraction =>
    if (c :: fraction).all (· == '0') then cs.takeWhile (· ≠ '.') else cs
  | _ => cs

/-- A number without low lines, if each of them stands alone and has something on both sides. -/
def dropLowLines (cs : List Char) : List Char :=
  let groups := Text.split '_' cs
  if groups.any List.isEmpty then cs else groups.flatten

/-- The strict form of a number that is written freely: without the blanks around it, a plus sign,
zeros before it, a fraction of zeros, and low lines. -/
def strictForm? (cs : List Char) : Option (List Char) := do
  let cs ← match Text.trimNumber cs with
    | '+' :: '-' :: _ => none
    | '+' :: rest => dropZeros? rest
    | '-' :: rest => (dropZeros? rest).map ('-' :: ·)
    | rest => dropZeros? rest
  return dropLowLines (dropFraction cs)

/-- The number written by digits that do not begin with a useless zero. -/
def natural? : List Char → Option Nat
  | [] => none
  | ['0'] => some 0
  | c :: cs =>
    if c ≠ '0' && (c :: cs).all Char.isDigit then
      some ((c :: cs).foldl (fun n c => 10 * n + (c.toNat - 48)) 0)
    else none

/-- The integer written by digits that a minus sign may precede. -/
def strictInteger? : List Char → Option Int
  | '-' :: cs => (natural? cs).map fun n => -(n : Int)
  | cs => (natural? cs).map Int.ofNat

/-- Whether a text begins with more digits than an integer may have. A minus sign counts as one of
them. -/
def isEndless (cs : List Char) : Bool :=
  let (sign, rest) := match cs with
    | '-' :: rest => (1, rest)
    | rest => (0, rest)
  let digits := rest.takeWhile Char.isDigit
  digits.head? ≠ some '0' && Text.maxDigits < sign + digits.length

/-- The integer that a text writes. Only a text in the strict form is said to be too long. -/
def integerOfText (text : String) : Checked Int :=
  let cs := text.toList
  let free := do
    let strict ← strictForm? cs
    if isEndless strict then none else strictInteger? strict
  if isEndless cs then fail .endlessInteger
  else match strictInteger? cs <|> free with
    | some n => .ok n
    | none => fail .unclearInteger

/-- An integer, or a text or number that stands for one. -/
def checkInteger : Json → Checked Int
  | int n => .ok n
  | bool b => .ok (if b then 1 else 0)
  | string s => integerOfText s
  | decimal d e => match integerOfDecimal? d e with
    | some n => if isWord64 n then .ok n else fail .endlessInteger
    | none => fail .fractional
  | nonNumber _ => fail .notFinite
  | _ => fail .notInteger

/-- The texts of a list, in order and each once. -/
def checkTextSet : Json → Checked (List String)
  | array items =>
    (all (items.zipIdx.map fun (item, i) => within (.item i) item.checkText)).map fun texts =>
      (texts.mergeSort fun a b => decide (a ≤ b)).eraseDups
  | _ => fail .notSet

end Json

end Reexport
