import Reexport.Script.Cursor

/-!
# Parts of code

The parts that code is made of, as far as reading past them is concerned. A `Reader` passes any of
them; the readers of single parts take one for the parts inside of theirs.
-/

namespace Reexport.Script

/-- Where a type or an expression stands, as far as that decides where it ends. -/
structure Place where
  /-- Whether a statement may end behind it. -/
  mayEnd : Bool
  /-- Whether an operator may follow it. -/
  operates : Bool

namespace Place

/-- A type inside of brackets. -/
def typeInside : Place := ⟨false, false⟩

/-- A type with which a statement or a member may end. -/
def typeAtEnd : Place := ⟨true, false⟩

/-- An expression inside of brackets. -/
def valueInside : Place := ⟨false, true⟩

/-- An expression with which a statement may end. -/
def valueAtEnd : Place := ⟨true, true⟩

/-- The place of a type instead of an expression. -/
def forType (p : Place) : Place := ⟨p.mayEnd, false⟩

/-- The place of an expression instead of a type. -/
def forValue (p : Place) : Place := ⟨p.mayEnd, true⟩

/-- Whether the statement ends at a cursor without a semicolon. -/
def ends (p : Place) (c : Cursor) : Bool :=
  p.mayEnd && c.semicolonDue p.operates

end Place

/-- The parts of code. One that a bracket opens is read from behind it, up to behind its partner. -/
inductive Part where
  /-- A type; a `plain` one is no condition. -/
  | type (p : Place) (plain : Bool)
  /-- What follows the first operand of a type. -/
  | typeRest (p : Place) (plain : Bool)
  /-- One operand of a union or an intersection. -/
  | typeOperand (p : Place) (plain : Bool)
  /-- Square brackets behind a type and, behind a `named` one, a dotted name and type arguments. -/
  | typeSuffix (p : Place) (named : Bool)
  /-- The type of a result, which may be a statement on a parameter. -/
  | result (p : Place) (plain : Bool)
  /-- The type of a result of which no operand is the type of a function. -/
  | groupedResult
  /-- Types between commas. -/
  | typeList
  /-- Type arguments, from behind the angle bracket. -/
  | typeArguments
  /-- Type parameters, or a type, from behind the angle bracket. -/
  | typeParameters
  /-- The items of a tuple type, from behind the bracket. -/
  | tuple
  /-- The members of an object type, from behind the brace. -/
  | members
  /-- The parameters of a function, from behind the parenthesis. -/
  | parameters
  /-- A name or a pattern to which a value is bound. -/
  | pattern
  /-- The parts of an object pattern, from behind the brace. -/
  | objectPattern
  /-- The places of an array pattern, from behind the bracket. -/
  | arrayPattern
  /-- Expressions between commas. -/
  | expressions (p : Place)
  /-- One expression. -/
  | expression (p : Place)
  /-- An operand with the operators before it. -/
  | operand (p : Place)
  /-- What follows an operand: operators with their operands, calls and other suffixes. -/
  | operators (p : Place)
  /-- The arguments of a call, or the parameters of an arrow function, from behind the bracket. -/
  | arguments
  /-- The items of an array, from behind the bracket. -/
  | arrayItems
  /-- The items of an object, from behind the brace. -/
  | objectItems
  /-- A template, from behind the back quote, with types or with expressions in it. -/
  | template (types : Bool)
  /-- The members of a class, from behind the brace. -/
  | classBody
  /-- Names, calls and type arguments behind the class that another one extends. -/
  | calls
  /-- Names, type arguments and calls behind the name of a decorator. -/
  | decoratorRest
  /-- An element of markup, from behind the angle bracket. -/
  | element
  /-- The attributes of an element and all that follows them. -/
  | attributes
  /-- The content of an element and its closing tag. -/
  | children
  /-- The declared variables of a statement. -/
  | declarators (p : Place)
  /-- A statement. -/
  | statement
  /-- The statements of a block, from behind the brace. -/
  | statements
  /-- A declaration, from its first keyword. -/
  | declaration
  /-- What stands behind the word `import`. -/
  | imported
  /-- The names of an import or export list, from behind the brace. -/
  | nameList

/-- A way to read past any part, if it follows. -/
abbrev Reader := Part → Cursor → Option Cursor

/-- Past a piece that a token opens, if that token follows. -/
def maybe (opening : Cursor → Option Cursor) (piece : Cursor → Option Cursor) (c : Cursor) :
    Option Cursor :=
  match opening c with
  | some d => piece d
  | none => some c

/-- Past an item of a list, and past the rest of the list behind a comma or past its bracket. -/
def itemThen (close : Char) (rest : Cursor → Option Cursor) (item : Option Cursor) :
    Option Cursor := do
  let c ← item
  match c.mark? "," with
  | some d => rest d
  | none => c.char? close

/-- Whether the name of a member or of a property can begin here. -/
def startsName (c : Cursor) : Bool :=
  match c.next? with
  | none => false
  | some ch => isNameStart ch || ch.isDigit || "\\\"\x27[#".toList.contains ch

/-- Past one of the given words, if a name or the star of a generator follows it, so that it marks
what is named. -/
def modifier? (words : List String) (c : Cursor) : Option Cursor := do
  let d ← c.wordOf? words
  if startsName d || d.next? == some '*' then some d else none

/-- Past the name that follows, if there is one. -/
def pastWord (c : Cursor) : Cursor :=
  c.skip fun c => c.anyWord?.map (·.2)

/-- Past a name or a keyword. -/
def someWord? (c : Cursor) : Option Cursor :=
  c.anyWord?.map (·.2)

end Reexport.Script
