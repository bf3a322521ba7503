import Reexport.Text.Quoted
import Reexport.Text.Split
import Reexport.Text.Utf8

/-!
# Addresses of requests

A request names what it is for by an address: a whole one with a scheme and a host, or only a path.
`Address.target` gives the path as routes know it, without dots and with percent signs decoded. An
address that cannot be read is refused.
-/

namespace Reexport.Service

/-- Why an address cannot be read. -/
inductive AddressFault where
  /-- There is a control character at a place. -/
  | control (c : Char) (place : Nat)
  /-- The path of an address without a host begins with two slashes. -/
  | slashes
  /-- The path of an address without a host begins with a colon. -/
  | colon
  deriving DecidableEq, Repr

/-- The wording of a fault. -/
def AddressFault.message : AddressFault → String
  | control c place =>
    "Invalid non-printable ASCII character in URL, " ++ Text.quoted (String.singleton c) ++
      " at position " ++ toString place ++ "."
  | slashes => "Relative URLs cannot have a path starting with '//'"
  | colon => "Relative URLs cannot have a path starting with ':'"

namespace Address

/-- Whether a character is an ASCII character that does not print. -/
def isControl (c : Char) : Bool :=
  c.toNat < 32 || c.toNat = 127

/-- Whether a character may stand in a scheme. -/
def isSchemeChar (c : Char) : Bool :=
  c.isAlphanum || c = '+' || c = '.' || c = '-'

/-- The scheme with which an address begins, which may be empty, and what follows its colon. -/
def splitScheme (cs : List Char) : List Char × List Char :=
  let scheme := cs.takeWhile isSchemeChar
  match scheme.head?.all Char.isAlpha, cs.dropWhile isSchemeChar with
  | true, ':' :: rest => (scheme, rest)
  | _, _ => ([], cs)

/-- The host with which the rest of an address begins, and what follows it. -/
def splitHost : List Char → List Char × List Char
  | '/' :: '/' :: cs =>
    let isHostChar (c : Char) : Bool := c ≠ '/' && c ≠ '?' && c ≠ '#'
    (cs.takeWhile isHostChar, cs.dropWhile isHostChar)
  | cs => ([], cs)

/-- Adds a segment of a path to those before it, which stand backwards. A dot adds nothing; two dots
undo the segment before them, but not an empty one that stands first. -/
def addSegment (before : List (List Char)) (segment : List Char) : List (List Char) :=
  if segment = ['.'] then before
  else if segment = ['.', '.'] then
    match before with
    | [[]] => before
    | _ => before.drop 1
  else segment :: before

/-- A path without segments of dots. -/
def dropDots (path : List Char) : List Char :=
  Text.join ['/'] ((Text.split '/' path).foldl addSegment []).reverse

/-- The path in an address, up to a query or a fragment. An address without a scheme or without a
host is completed by those of the service, and its path then begins with one slash. -/
def path? (address : List Char) : Except AddressFault (List Char) :=
  match address.zipIdx.find? fun (c, _) => isControl c with
  | some (c, place) => .error (.control c place)
  | none =>
    let (scheme, rest) := splitScheme address
    let (host, rest) := splitHost rest
    let path := rest.takeWhile fun c => c ≠ '?' && c ≠ '#'
    let complete (path : List Char) : List Char := '/' :: path.dropWhile (· = '/')
    let hasHost := host.any fun c => c ≠ ':' && c ≠ '@'
    if !scheme.isEmpty && hasHost then .ok (dropDots path)
    else if !scheme.isEmpty || hasHost then .ok (dropDots (complete (dropDots path)))
    else match path with
      | '/' :: '/' :: _ => .error .slashes
      | ':' :: _ => .error .colon
      | _ => .ok (dropDots (complete path))

/-- The value of a hexadecimal digit. -/
def digit? (c : Char) : Option Nat :=
  if c.isDigit then some (c.toNat - 48)
  else if 'a' ≤ c.toLower && c.toLower ≤ 'f' then some (c.toLower.toNat - 87)
  else none

/-- The bytes of a path, in which a percent sign and two digits stand for a byte. -/
def bytes : List Char → List UInt8
  | '%' :: a :: b :: cs =>
    match digit? a, digit? b with
    | some high, some low => UInt8.ofNat (16 * high + low) :: bytes cs
    | _, _ => String.utf8EncodeChar '%' ++ bytes (a :: b :: cs)
  | c :: cs => String.utf8EncodeChar c ++ bytes cs
  | [] => []

/-- The path of an address as routes know it. Slashes at its end do not count, nor does a line feed
before them. -/
def target (address : String) : Except AddressFault String := do
  let path ← path? address.toList
  let backwards := (Text.decode (bytes path)).toList.reverse.dropWhile (· = '/')
  return String.ofList (match backwards with
    | '\n' :: rest => rest.reverse
    | cs => cs.reverse)

end Address

end Reexport.Service
