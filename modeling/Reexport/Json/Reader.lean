import Reexport.Json
import Reexport.Text.Integer

/-!
# Reading JSON

`Json.read?` reads one JSON value that fills a whole text. A member named twice keeps its first
place and takes its last value. A text with an unescaped control character, with an integer of too
many digits, or with anything after the value, is refused.
-/

namespace Reexport.Json

/-- A text without the blanks it begins with, as JSON counts blanks. -/
def dropSpace (cs : List Char) : List Char :=
  cs.dropWhile fun c => c == ' ' || c == '\t' || c == '\n' || c == '\r'

/-- The value of a hexadecimal digit. -/
def hexDigit? (c : Char) : Option Nat :=
  if c.isDigit then some (c.toNat - 48)
  else if 'a' ≤ c && c ≤ 'f' then some (c.toNat - 87)
  else if 'A' ≤ c && c ≤ 'F' then some (c.toNat - 55)
  else none

/-- The number written by four hexadecimal digits, and what follows them. -/
def hex4? : List Char → Option (Nat × List Char)
  | a :: b :: c :: d :: cs => do
    return (((← hexDigit? a) * 16 + (← hexDigit? b)) * 256 + (← hexDigit? c) * 16 +
      (← hexDigit? d), cs)
  | _ => none

/-- The character of a pair of surrogates. -/
def ofSurrogates (high low : Nat) : Char :=
  Char.ofNat (0x10000 + (high - 0xD800) * 0x400 + (low - 0xDC00))

/-- A surrogate that stands alone is read as the replacement character. -/
def ofUnit (n : Nat) : Char :=
  if 0xD800 ≤ n && n ≤ 0xDFFF then Char.ofNat 0xFFFD else Char.ofNat n

/-- The character of an escape of one letter. -/
def simpleEscape? : Char → Option Char
  | '"' => some '"'
  | '\\' => some '\\'
  | '/' => some '/'
  | 'b' => some '\x08'
  | 'f' => some '\x0c'
  | 'n' => some '\n'
  | 'r' => some '\r'
  | 't' => some '\t'
  | _ => none

/-- One character of a quoted text, escapes decoded, and what follows it. -/
def readChar? : List Char → Option (Char × List Char)
  | '\\' :: 'u' :: cs => do
    let (high, cs) ← hex4? cs
    if 0xD800 ≤ high && high ≤ 0xDBFF then
      match cs with
      | '\\' :: 'u' :: ds =>
        let (low, ds) ← hex4? ds
        if 0xDC00 ≤ low && low ≤ 0xDFFF then return (ofSurrogates high low, ds)
        else return (ofUnit high, cs)
      | _ => return (ofUnit high, cs)
    else return (ofUnit high, cs)
  | '\\' :: c :: cs => (simpleEscape? c).map (·, cs)
  | c :: cs => if c.toNat < 32 || c == '\\' then none else some (c, cs)
  | [] => none

/-- The rest of a quoted text whose characters so far are `done`, backwards. -/
def readQuoted? : Nat → List Char → List Char → Option (String × List Char)
  | 0, _, _ => none
  | _ + 1, done, '"' :: cs => some (String.ofList done.reverse, cs)
  | fuel + 1, done, cs => do
    let (c, rest) ← readChar? cs
    readQuoted? fuel (c :: done) rest

/-- The number that a row of digits writes. -/
def natOfDigits (cs : List Char) : Nat :=
  cs.foldl (fun n c => 10 * n + (c.toNat - 48)) 0

/-- Digits, at least one, and what follows them. -/
def digits? (cs : List Char) : Option (List Char × List Char) :=
  match cs.takeWhile Char.isDigit with
  | [] => none
  | ds => some (ds, cs.dropWhile Char.isDigit)

/-- The part of a number before its fraction: digits that do not begin with a useless zero. -/
def integerPart? : List Char → Option (List Char × List Char)
  | '0' :: cs => some (['0'], cs)
  | cs => digits? cs

/-- A fraction, if one is written. -/
def fractionPart : List Char → List Char × List Char
  | '.' :: cs => (digits? cs).getD ([], '.' :: cs)
  | cs => ([], cs)

/-- An exponent with its sign, if one is written. -/
def exponentPart (cs : List Char) : Option Int × List Char :=
  match cs with
  | e :: rest =>
    if e == 'e' || e == 'E' then
      let signed := match rest with
        | '-' :: ds => (digits? ds).map fun (d, r) => (-(natOfDigits d : Int), r)
        | '+' :: ds => (digits? ds).map fun (d, r) => ((natOfDigits d : Int), r)
        | ds => (digits? ds).map fun (d, r) => ((natOfDigits d : Int), r)
      match signed with
      | some (n, r) => (some n, r)
      | none => (none, cs)
    else (none, cs)
  | [] => (none, cs)

/-- One of the words that stand in the place of a number, and what follows it. -/
def readNonNumber? (cs : List Char) : Option (Json × List Char) :=
  NonNumber.all.findSome? fun n => (Text.dropText? n.word.toList cs).map (nonNumber n, ·)

/-- A number, and what follows it. -/
def readNumber? (cs : List Char) : Option (Json × List Char) := do
  let (sign, unsigned) : Int × List Char := match cs with
    | '-' :: rest => (-1, rest)
    | rest => (1, rest)
  let (whole, cs) ← integerPart? unsigned
  let (fraction, cs) := fractionPart cs
  let (exponent, cs) := exponentPart cs
  let value := sign * natOfDigits (whole ++ fraction)
  if fraction.isEmpty && exponent.isNone then
    if Text.maxDigits < whole.length then none else return (int value, cs)
  else return (decimal value (exponent.getD 0 - fraction.length), cs)

mutual

/-- A value with the blanks around it, and what follows it. -/
def readValue? : Nat → List Char → Option (Json × List Char)
  | 0, _ => none
  | fuel + 1, cs => do
    let (value, rest) ← match dropSpace cs with
      | '"' :: cs => (readQuoted? fuel [] cs).map fun (s, r) => (string s, r)
      | '[' :: cs => match dropSpace cs with
        | ']' :: cs => some (array [], cs)
        | cs => (readItems? fuel cs).map fun (items, r) => (array items, r)
      | '\x7b' :: cs => match dropSpace cs with
        | '\x7d' :: cs => some (object [], cs)
        | cs => (readMembers? fuel [] cs).map fun (members, r) => (object members, r)
      | cs => ((Text.dropText? "null".toList cs).map (null, ·)) <|>
          ((Text.dropText? "true".toList cs).map (bool true, ·)) <|>
          ((Text.dropText? "false".toList cs).map (bool false, ·)) <|> readNonNumber? cs <|>
          readNumber? cs
    return (value, dropSpace rest)

/-- The items of a list up to its closing bracket. -/
def readItems? : Nat → List Char → Option (List Json × List Char)
  | 0, _ => none
  | fuel + 1, cs => do
    let (item, rest) ← readValue? fuel cs
    match rest with
    | ',' :: rest =>
      let (items, rest) ← readItems? fuel rest
      return (item :: items, rest)
    | ']' :: rest => return ([item], rest)
    | _ => none

/-- The members of an object up to its closing brace, after the members already read. -/
def readMembers? : Nat → List (String × Json) → List Char →
    Option (List (String × Json) × List Char)
  | 0, _, _ => none
  | fuel + 1, done, cs => do
    let '"' :: cs := dropSpace cs | none
    let (name, cs) ← readQuoted? fuel [] cs
    let ':' :: cs := dropSpace cs | none
    let (value, rest) ← readValue? fuel cs
    let done := setMember done name value
    match rest with
    | ',' :: rest => readMembers? fuel done rest
    | '\x7d' :: rest => return (done, rest)
    | _ => none

end

/-- The value that a whole text writes. Every step of the reader that spends fuel has read a
character since the step before the last, so that twice the length is enough. -/
def read? (text : String) : Option Json :=
  let cs := text.toList
  match readValue? (2 * cs.length + 4) cs with
  | some (value, []) => some value
  | _ => none

end Reexport.Json
