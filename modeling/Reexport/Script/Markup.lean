import Reexport.Script.Expressions

/-!
# Markup

How to read past elements of markup. An element has a name, attributes and content, or is a fragment
without name and attributes. Expressions in braces stand among the attributes, as their values, and
in the content.
-/

namespace Reexport.Script

variable (read : Reader)

/-- The characters of the names of elements and their attributes. -/
def isElementNameChar (c : Char) : Bool :=
  isNameChar c || c == '-' || c == '.' || c == ':'

/-- Past the name of an element or an attribute. -/
def elementName? (c : Cursor) : Option Cursor :=
  let d := c.pastGap
  match d.rest with
  | [] => none
  | ch :: _ =>
    if isNameStart ch then some ⟨d.rest.dropWhile isElementNameChar, d.line⟩ else none

/-- Past an expression in braces, or past braces around nothing, from behind the first one. -/
def readContainer (c : Cursor) : Option Cursor :=
  match c.char? '\x7d' with
  | some d => some d
  | none => do (← read (.expressions .valueInside) (c.skip (·.mark? "..."))).char? '\x7d'

/-- Past the text in quotes that is the value of an attribute. No escape stands in it. -/
def attributeText? (c : Cursor) : Option Cursor :=
  let d := c.pastGap
  match d.rest with
  | [] => none
  | quote :: cs =>
    if quote == '"' || quote == '\x27' then
      let text := cs.takeWhile (· ≠ quote)
      match cs.dropWhile (· ≠ quote) with
      | [] => none
      | _ :: rest => some (d.past (quote :: text, rest))
    else none

/-- Past the value of an attribute. -/
def readAttributeValue (c : Cursor) : Option Cursor :=
  match c.char? '\x7b' with
  | some d => readContainer read d
  | none =>
    match c.char? '<' with
    | some d => read .element d
    | none => attributeText? c

/-- Past an element, from behind its first angle bracket. -/
def readElement (c : Cursor) : Option Cursor :=
  match c.char? '>' with
  | some d => read .children d
  | none => do
    read .attributes (← maybe (·.char? '<') (read .typeArguments) (← elementName? c))

/-- Past the attributes of an element and all that follows them. -/
def readAttributes (c : Cursor) : Option Cursor :=
  match c.char? '>' with
  | some d => read .children d
  | none =>
    match c.char? '/' with
    | some d => d.char? '>'
    | none =>
      match c.char? '\x7b' with
      | some d => do read .attributes (← readContainer read d)
      | none => do
        read .attributes (← maybe (·.char? '=') (readAttributeValue read) (← elementName? c))

/-- Past the content of an element and its closing tag. -/
def readChildren (c : Cursor) : Option Cursor :=
  let text := c.rest.takeWhile fun ch => !"<>\x7b\x7d".toList.contains ch
  let d := c.past (text, c.rest.drop text.length)
  match d.rest with
  | '\x7b' :: _ => do read .children (← readContainer read d.tail)
  | '<' :: _ =>
    match d.tail.char? '/' with
    | some e => (e.skip elementName?).char? '>'
    | none => do read .children (← read .element d.tail)
  | _ => none

end Reexport.Script
