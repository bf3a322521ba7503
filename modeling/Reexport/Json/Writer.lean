import Reexport.Json

/-!
# Writing JSON

A value is written on one line (`Json.render`) or with one item a line (`Json.renderIndented`). Only
printable ASCII characters are written as they are; any other is written by its number, in two parts
where it lies beyond `U+FFFF`.
-/

namespace Reexport.Json

/-- The small hexadecimal digit of a number below sixteen. -/
def hexChar (n : Nat) : Char :=
  if n < 10 then Char.ofNat (48 + n) else Char.ofNat (87 + n)

/-- The escape of a number below `0x10000`. -/
def escapeUnit (n : Nat) : List Char :=
  ['\\', 'u', hexChar (n / 4096 % 16), hexChar (n / 256 % 16), hexChar (n / 16 % 16),
    hexChar (n % 16)]

/-- A character as it stands in a quoted text. -/
def encodeChar (c : Char) : List Char :=
  match c with
  | '"' => ['\\', '"']
  | '\\' => ['\\', '\\']
  | '\n' => ['\\', 'n']
  | '\r' => ['\\', 'r']
  | '\t' => ['\\', 't']
  | '\x08' => ['\\', 'b']
  | '\x0c' => ['\\', 'f']
  | c =>
    let n := c.toNat
    if 32 ≤ n && n < 127 then [c]
    else if n < 0x10000 then escapeUnit n
    else escapeUnit (0xD800 + (n - 0x10000) / 0x400) ++ escapeUnit (0xDC00 + (n - 0x10000) % 0x400)

/-- A text in quotes. -/
def encodeString (s : String) : String :=
  String.ofList ('"' :: (s.toList.flatMap encodeChar ++ ['"']))

/-- A number with a fraction or an exponent, in exponent notation. -/
def encodeDecimal (digits exponent : Int) : String :=
  toString digits ++ "e" ++ toString exponent

mutual

/-- A value on one line. -/
def render : Json → String
  | null => "null"
  | bool b => if b then "true" else "false"
  | int n => toString n
  | decimal d e => encodeDecimal d e
  | nonNumber n => n.word
  | string s => encodeString s
  | array items => "[" ++ renderItems items ++ "]"
  | object members => "\x7b" ++ renderMembers members ++ "\x7d"

/-- The items of a list on one line. -/
def renderItems : List Json → String
  | [] => ""
  | [item] => render item
  | item :: next :: rest => render item ++ ", " ++ renderItems (next :: rest)

/-- The members of an object on one line. -/
def renderMembers : List (String × Json) → String
  | [] => ""
  | [(name, value)] => encodeString name ++ ": " ++ render value
  | (name, value) :: next :: rest =>
    encodeString name ++ ": " ++ render value ++ ", " ++ renderMembers (next :: rest)

end

/-- A line break and the margin of a depth, two spaces for each level. -/
def newLine (depth : Nat) : String :=
  String.ofList ('\n' :: List.replicate (2 * depth) ' ')

mutual

/-- A value at a depth; a list or object that is not empty has one item on each line. -/
def renderAt (depth : Nat) : Json → String
  | array (item :: rest) =>
    "[" ++ newLine (depth + 1) ++ renderItemsAt (depth + 1) (item :: rest) ++ newLine depth ++ "]"
  | object (member :: rest) =>
    "\x7b" ++ newLine (depth + 1) ++ renderMembersAt (depth + 1) (member :: rest) ++
      newLine depth ++ "\x7d"
  | array [] => "[]"
  | object [] => "\x7b\x7d"
  | null => "null"
  | bool b => if b then "true" else "false"
  | int n => toString n
  | decimal d e => encodeDecimal d e
  | nonNumber n => n.word
  | string s => encodeString s

/-- The items of a list, one on each line. -/
def renderItemsAt (depth : Nat) : List Json → String
  | [] => ""
  | [item] => renderAt depth item
  | item :: next :: rest =>
    renderAt depth item ++ "," ++ newLine depth ++ renderItemsAt depth (next :: rest)

/-- The members of an object, one on each line. -/
def renderMembersAt (depth : Nat) : List (String × Json) → String
  | [] => ""
  | [(name, value)] => encodeString name ++ ": " ++ renderAt depth value
  | (name, value) :: next :: rest =>
    encodeString name ++ ": " ++ renderAt depth value ++ "," ++ newLine depth ++
      renderMembersAt depth (next :: rest)

end

/-- A value with one item on each line. -/
def renderIndented (value : Json) : String :=
  renderAt 0 value

end Reexport.Json
