import Reexport.Text.HiddenRanges
import Reexport.Text.Word

/-!
# Quoted texts

`Text.quoted` shows a text between quotes: single ones, or double ones where that saves escaping.
Characters without a visible form are shown by their number.
-/

namespace Reexport.Text

/-- The digits of a number in base sixteen, as many as asked for, the last ones. -/
def hexDigits : (width : Nat) → Nat → List Char
  | 0, _ => []
  | width + 1, n =>
    let d := n % 16
    hexDigits width (n / 16) ++ [if d < 10 then Char.ofNat (48 + d) else Char.ofNat (87 + d)]

/-- A character as it is shown between quotes of the given form. -/
def showChar (quote c : Char) : List Char :=
  let n := c.toNat
  if c = quote || c = '\\' then ['\\', c]
  else if c = '\n' then ['\\', 'n']
  else if c = '\r' then ['\\', 'r']
  else if c = '\t' then ['\\', 't']
  else if n < 32 || n == 127 then '\\' :: 'x' :: hexDigits 2 n
  else if n < 128 || !inRanges hiddenRanges n then [c]
  else if n < 0x100 then '\\' :: 'x' :: hexDigits 2 n
  else if n < 0x10000 then '\\' :: 'u' :: hexDigits 4 n
  else '\\' :: 'U' :: hexDigits 8 n

/-- The quotes that a text is shown in. -/
def quoteFor (cs : List Char) : Char :=
  if cs.contains '\x27' && !cs.contains '"' then '"' else '\x27'

/-- A text between quotes. -/
def quoted (s : String) : String :=
  let quote := quoteFor s.toList
  String.ofList (quote :: (s.toList.flatMap (showChar quote) ++ [quote]))

end Reexport.Text
