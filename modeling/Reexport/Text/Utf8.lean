import Reexport.Text.Quoted

/-!
# Texts as bytes

`Text.encode` gives the UTF-8 bytes of a text. `Text.decode` reads any bytes as a text: a row of
bytes that begins a character but does not end it, and a byte that begins none, is read as the
replacement character. `Text.undecodable?` finds the first such bytes for a reader that has no use
for replacements.
-/

namespace Reexport.Text

/-- The bytes of a text. -/
def encode (s : String) : List UInt8 :=
  s.toList.flatMap String.utf8EncodeChar

/-- The character read in place of bytes that are none. -/
def replacement : Char := Char.ofNat 0xFFFD

/-- How many bytes follow a byte that begins a character of several bytes, and the range in which
the first of them lies. -/
def leadByte? (b : UInt8) : Option (Nat × UInt8 × UInt8) :=
  if 0xC2 ≤ b && b ≤ 0xDF then some (1, 0x80, 0xBF)
  else if b = 0xE0 then some (2, 0xA0, 0xBF)
  else if b = 0xED then some (2, 0x80, 0x9F)
  else if 0xE1 ≤ b && b ≤ 0xEF then some (2, 0x80, 0xBF)
  else if b = 0xF0 then some (3, 0x90, 0xBF)
  else if 0xF1 ≤ b && b ≤ 0xF3 then some (3, 0x80, 0xBF)
  else if b = 0xF4 then some (3, 0x80, 0x8F)
  else none

/-- The six bits that a byte adds to a character. -/
def lowBits (b : UInt8) : Nat :=
  b.toNat % 64

/-- What the reader of bytes expects next. -/
inductive Expected where
  /-- The beginning of a character. -/
  | start
  /-- `count` more bytes of a character whose bits so far are `bits`; the next one lies between
  `low` and `high`. -/
  | more (count bits : Nat) (low high : UInt8)

/-- The text of bytes from a given state on. -/
def decodeFrom : Expected → List UInt8 → List Char
  | .start, [] => []
  | .more .., [] => [replacement]
  | .start, b :: bs => fresh b (fun e => decodeFrom e bs)
  | .more count bits low high, b :: bs =>
    if low ≤ b && b ≤ high then
      match count with
      | 0 | 1 => Char.ofNat (bits * 64 + lowBits b) :: decodeFrom .start bs
      | count + 1 => decodeFrom (.more count (bits * 64 + lowBits b) 0x80 0xBF) bs
    else replacement :: fresh b (fun e => decodeFrom e bs)
where
  /-- The text of bytes of which the first one has to begin a character; `rest` reads the others. -/
  fresh (b : UInt8) (rest : Expected → List Char) : List Char :=
    if b < 0x80 then Char.ofNat b.toNat :: rest .start
    else match leadByte? b with
      | some (count, low, high) =>
        let lead := b.toNat % (if count = 1 then 32 else if count = 2 then 16 else 8)
        rest (.more count lead low high)
      | none => replacement :: rest .start

/-- The text of bytes. -/
def decode (bytes : List UInt8) : String :=
  String.ofList (decodeFrom .start bytes)

/-! ### Bytes that are no text -/

/-- Why bytes are no character. -/
inductive ByteFault where
  /-- No character begins with the byte. -/
  | start
  /-- The character that the bytes begin does not go on with the byte after them. -/
  | continuation
  /-- The character that the bytes begin is cut off by the end. -/
  | cut
  deriving DecidableEq, Repr

/-- The wording of the fault of bytes. -/
def ByteFault.reason : ByteFault → String
  | start => "invalid start byte"
  | continuation => "invalid continuation byte"
  | cut => "unexpected end of data"

/-- Bytes that are no character. -/
structure Undecodable where
  /-- How many bytes stand before them. -/
  place : Nat
  /-- The first of them. -/
  first : UInt8
  /-- How many follow the first. -/
  more : Nat
  /-- Why they are no character. -/
  fault : ByteFault
  deriving DecidableEq, Repr

/-- The wording of bytes that are no character. -/
def Undecodable.message (u : Undecodable) : String :=
  let bytes :=
    if u.more = 0 then
      "byte 0x" ++ String.ofList (hexDigits 2 u.first.toNat) ++ " in position " ++ toString u.place
    else "bytes in position " ++ toString u.place ++ "-" ++ toString (u.place + u.more)
  "'utf-8' codec can't decode " ++ bytes ++ ": " ++ u.fault.reason

/-- The first bytes that are no character among bytes read from a given state on. A character begun
before them has the bytes of `begun`, of which the first stands at `place`. -/
def undecodableFrom (place : Nat) (begun : List UInt8) : Expected → List UInt8 → Option Undecodable
  | expected, [] =>
    match expected, begun with
    | .more .., first :: more => some ⟨place, first, more.length, .cut⟩
    | _, _ => none
  | .start, b :: bs =>
    if b < 0x80 then undecodableFrom (place + 1) [] .start bs
    else match leadByte? b with
      | some (count, low, high) => undecodableFrom place [b] (.more count 0 low high) bs
      | none => some ⟨place, b, 0, .start⟩
  | .more count _ low high, b :: bs =>
    if low ≤ b && b ≤ high then
      match count with
      | 0 | 1 => undecodableFrom (place + begun.length + 1) [] .start bs
      | count + 1 => undecodableFrom place (begun ++ [b]) (.more count 0 0x80 0xBF) bs
    else some ⟨place, begun.headD b, begun.length - 1, .continuation⟩

/-- The first bytes that are no character. -/
def undecodable? (bytes : List UInt8) : Option Undecodable :=
  undecodableFrom 0 [] .start bytes

end Reexport.Text
