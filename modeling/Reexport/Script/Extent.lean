import Reexport.Script.Markup
import Reexport.Script.Statements

/-!
# Where parts of code end

`past` reads past a part of code of any kind. The readers of single parts, which take a reader for
the parts inside of theirs, are tied together here: a reader that may nest `fuel + 1` parts hands
one that may nest `fuel` parts to the reader of the outermost part.
-/

namespace Reexport.Script

/-- Past one part, with a reader for the parts inside of it. Elements of markup are read where
`markup` is set. -/
def readPart (markup : Bool) (read : Reader) : Reader
  | .type p plain => readType read p plain
  | .typeRest p plain => readTypeRest read p plain
  | .typeOperand p plain => readTypeOperand read p plain
  | .typeSuffix p named => readTypeSuffix read p named
  | .result p plain => readResult read p plain
  | .groupedResult => readGroupedResult read
  | .typeList => readTypeList read
  | .typeArguments => readTypeArguments read
  | .typeParameters => readTypeParameters read
  | .tuple => readTuple read
  | .members => readMembers read
  | .parameters => readParameters read
  | .pattern => readPattern read
  | .objectPattern => readObjectPattern read
  | .arrayPattern => readArrayPattern read
  | .expressions p => readExpressions read p
  | .expression p => readExpression read p
  | .operand p => readOperand read markup p
  | .operators p => readOperators read p
  | .arguments => readArguments read
  | .arrayItems => readArrayItems read
  | .objectItems => readObjectItems read
  | .template types => readTemplate read types
  | .classBody => readClassBody read
  | .calls => readCalls read
  | .decoratorRest => readDecoratorRest read
  | .element => readElement read
  | .attributes => readAttributes read
  | .children => readChildren read
  | .declarators p => readDeclarators read p
  | .statement => readStatement read
  | .statements => readStatements read
  | .declaration => readDeclaration read
  | .imported => readImported read
  | .nameList => readNameList read

/-- The reader that nests parts as deeply as its fuel says. -/
def readWithin (markup : Bool) : (fuel : Nat) → Reader
  | 0 => fun _ _ => none
  | fuel + 1 => readPart markup (readWithin markup fuel)

/-- The reader for a text. On the way from one part to another one inside of it, a character is read
at least at every eighth step, so that the fuel given here is never used up. -/
def readerFor (markup : Bool) (cs : List Char) : Reader :=
  readWithin markup (8 * cs.length + 64)

end Reexport.Script
