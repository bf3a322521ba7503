import Reexport.Text.CasedRanges
import Reexport.Text.CaseRuns
import Reexport.Text.Word

/-!
# Small and capital letters

`Text.lower` writes every capital as its small letter. All but one have the same small letter
wherever they stand; a capital sigma becomes the small sigma of the end of a word where a word ends
with it. `Text.upperAscii` is the part of the opposite direction that can lead to a text of ASCII
letters.
-/

namespace Reexport.Text

/-- Whether a code point is one of the capitals of a run. -/
def CaseRun.holds (r : CaseRun) (n : Nat) : Bool :=
  r.first ≤ n && n ≤ r.last && (n - r.first) % r.step == 0

/-- The small letter of a capital, as one or two characters; any other character itself. -/
def lowerChar (c : Char) : List Char :=
  let n := c.toNat
  if n < 128 then [c.toLower]
  else if n == 0x130 then ['i', Char.ofNat 0x307]
  else match caseRuns.find? (·.holds n) with
    | some r => [Char.ofNat (Int.toNat (n + r.distance))]
    | none => [c]

/-- The capital sigma. -/
def capitalSigma : Char := Char.ofNat 0x3A3

/-- The small sigma of the end of a word. -/
def finalSigma : Char := Char.ofNat 0x3C2

/-- Whether the first of some characters that is not passed over has case. -/
def meetsCase (cs : List Char) : Bool :=
  match cs.dropWhile fun c => inRanges passedOverRanges c.toNat with
  | c :: _ => inRanges casedRanges c.toNat
  | [] => false

/-- The small letters of a text that follows the characters `before`, which stand backwards. -/
def lowerFrom (before : List Char) : List Char → List Char
  | [] => []
  | c :: cs =>
    let small :=
      if c = capitalSigma && meetsCase before && !meetsCase cs then [finalSigma] else lowerChar c
    small ++ lowerFrom (c :: before) cs

/-- A text in small letters. -/
def lower (s : String) : String :=
  String.ofList (lowerFrom [] s.toList)

/-- The capital of a letter, for the letters whose capital is an ASCII letter: the small ASCII
letters, the dotless i and the long s. -/
def upperCharAscii (c : Char) : Char :=
  if c.toNat == 0x131 then 'I' else if c.toNat == 0x17F then 'S' else c.toUpper

/-- A text in capitals, exact wherever the result is to be compared with a text of ASCII letters. -/
def upperAscii (s : String) : String :=
  String.ofList (s.toList.map upperCharAscii)

end Reexport.Text
