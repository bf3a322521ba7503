import Reexport.Script.Types

/-!
# Expressions

How to read past expressions. An expression is an operand and what follows it: since only its end is
asked for, all operators are alike, and each of them takes the rest of the expression. An arrow is
an operator between parameters and a body, and an assignment one between two expressions.

Three readers look ahead. Parentheses with a colon behind them hold the parameters of a function if
a type and an arrow follow. Angle brackets hold the type arguments of an expression if none begins
behind them. A question mark opens a condition unless it marks a parameter that may be missing.
-/

namespace Reexport.Script

variable (read : Reader)

/-! ### Brackets -/

/-- Past one argument of a call, or one parameter of an arrow function. -/
def readArgument (c : Cursor) : Option Cursor := do
  let c ← read (.expression .valueInside) (c.skip (·.mark? "..."))
  let c ← readAnnotation read .typeInside (c.skip (·.mark? "?"))
  readValue read .valueInside c

/-- Past arguments, from behind the parenthesis. -/
def readArguments (c : Cursor) : Option Cursor :=
  match c.char? ')' with
  | some d => some d
  | none => itemThen ')' (read .arguments) (readArgument read c)

/-- Past the type of the result of an arrow function, from behind its colon, up to the arrow. -/
def arrowResult? (c : Cursor) : Option Cursor :=
  beforeArrow (read (.result .typeInside false) c) <|> beforeArrow (read .groupedResult c)
where
  /-- What has been read, if an arrow follows. -/
  beforeArrow (c : Option Cursor) : Option Cursor :=
    c.filter fun d => (d.mark? "=>").isSome

/-- Past an operand that begins with a parenthesis, from behind it. If it holds the parameters of an
arrow function, then the type of its result belongs to it. -/
def readParenthesis (c : Cursor) : Option Cursor := do
  let d ← read .arguments c
  return ((d.mark? ":").bind (arrowResult? read)).getD d

/-- Past an expression and a closing square bracket. -/
def readSubscript (c : Cursor) : Option Cursor := do
  (← read (.expressions .valueInside) c).char? ']'

/-- Past the items of an array, from behind the bracket. -/
def readArrayItems (c : Cursor) : Option Cursor :=
  match c.char? ']' with
  | some d => some d
  | none =>
    match c.mark? "," with
    | some d => read .arrayItems d
    | none =>
      itemThen ']' (read .arrayItems) (read (.expression .valueInside) (c.skip (·.mark? "...")))

/-- Past the rest of a function, from its parameters on. -/
def readMethod (c : Cursor) : Option Cursor := do
  let c ← readSignature read .typeInside c
  read .statements (← c.char? '\x7b')

/-- Past one item of an object. -/
def readObjectItem (c : Cursor) : Option Cursor :=
  match c.mark? "..." with
  | some d => read (.expression .valueInside) d
  | none => do
    let d ← readKey? read c
    if startsSignature d then readMethod read d
    else match d.mark? ":" with
      | some e => read (.expression .valueInside) e
      | none => readValue read .valueInside d

/-- Past the items of an object, from behind the brace. -/
def readObjectItems (c : Cursor) : Option Cursor :=
  match c.char? '\x7d' with
  | some d => some d
  | none =>
    match modifier? ["async", "get", "set"] c <|> c.mark? "*" with
    | some d => read .objectItems d
    | none => itemThen '\x7d' (read .objectItems) (readObjectItem read c)

/-- Past a template, from behind the back quote. -/
def readTemplate (types : Bool) (c : Cursor) : Option Cursor :=
  let split := spanTemplate c.rest
  let d := c.past split
  if split.1.getLast? == some '\x7b' then do
    let inside := if types then Part.type .typeInside false else .expressions .valueInside
    read (.template types) (← (← read inside d).char? '\x7d')
  else some d

/-! ### Functions and classes -/

/-- Past a function, from behind its keyword. -/
def readFunction (c : Cursor) : Option Cursor :=
  readMethod read (pastWord (c.skip (·.mark? "*")))

/-- Past names, calls and type arguments behind the class that another one extends. -/
def readCalls (c : Cursor) : Option Cursor :=
  match c.markOf? [".", "?."] with
  | some d => do read .calls (← d.privateName? <|> someWord? d)
  | none =>
    match c.char? '(' with
    | some d => do read .calls (← read .arguments d)
    | none =>
      match c.char? '[' with
      | some d => do read .calls (← readSubscript read d)
      | none =>
        match c.char? '<' with
        | some d => do read .calls (← read .typeArguments d)
        | none => some c

/-- Past a class that is extended. -/
def readHeritage (c : Cursor) : Option Cursor := do
  read .calls (← read (.operand .valueInside) c)

/-- Past a class, from behind its keyword. -/
def readClass (c : Cursor) : Option Cursor := do
  let c := if (c.wordOf? ["extends", "implements"]).isSome then c else pastWord c
  let c ← readTypeParameters? read c
  let c ← maybe (·.word? "extends") (readHeritage read) c
  let c ← maybe (·.word? "implements") (read .typeList) c
  read .classBody (← c.char? '\x7b')

/-- The words that may stand before a member of a class. -/
def classModifiers : List String :=
  ["static", "public", "private", "protected", "readonly", "abstract", "declare", "override",
    "async", "get", "set", "accessor"]

/-- Past one member of a class. -/
def readClassMember (c : Cursor) : Option Cursor := do
  let c := pastMissing (← readMemberKey read c)
  if startsSignature c then
    maybe (·.char? '\x7b') (read .statements) (← readSignature read .typeAtEnd c)
  else if Place.typeAtEnd.ends c then some c
  else readValue read .valueAtEnd (← readAnnotation read .typeAtEnd c)

/-- Past the members of a class, from behind the brace. -/
def readClassBody (c : Cursor) : Option Cursor :=
  match c.char? '\x7d' with
  | some d => some d
  | none =>
    match c.markOf? [";", ",", "*"] <|> modifier? classModifiers c with
    | some d => read .classBody d
    | none =>
      match c.char? '@' with
      | some d => do read .classBody (← read .decoratorRest d)
      | none =>
        match (c.word? "static").bind (·.char? '\x7b') with
        | some d => do read .classBody (← read .statements d)
        | none => do read .classBody (← readClassMember read c)

/-- Past what is called in a decorator, with its type arguments and arguments. -/
def readDecoratorCall (c : Cursor) : Option Cursor :=
  let typed := ((c.char? '<').bind (read .typeArguments)).filter fun d => (d.char? '(').isSome
  maybe (·.char? '(') (read .arguments) (typed.getD c)

/-- Past a decorator, from behind its sign or from behind a dot in its name. -/
def readDecoratorRest (c : Cursor) : Option Cursor :=
  match c.char? '(' with
  | some d => read .arguments d
  | none => do
    let d ← c.privateName? <|> someWord? c
    match d.mark? "." with
    | some e => read .decoratorRest e
    | none => readDecoratorCall read d

/-! ### Operands -/

/-- The words with which no operand begins. -/
def statementWords : List String :=
  ["const", "var", "return", "throw", "if", "else", "for", "while", "do", "switch", "case",
    "default", "break", "continue", "try", "catch", "finally", "with", "debugger", "extends",
    "enum", "in", "instanceof"]

/-- Past an operand that begins with the word `async`, from behind it. The word stands for a name
unless a function follows. -/
def readAsync (p : Place) (c : Cursor) : Option Cursor :=
  if p.ends c then some c
  else match c.word? "function" with
    | some d => readFunction read d
    | none =>
      match c.char? '(' with
      | some d => readParenthesis read d
      | none =>
        let generic := do
          let d ← read .parameters (← (← read .typeParameters (← c.char? '<')).char? '(')
          let d ← maybe (·.mark? ":") (arrowResult? read) d
          if (d.mark? "=>").isSome then some d else none
        let named := (someWord? c).filter fun d => (d.mark? "=>").isSome
        some ((generic <|> named).getD c)

/-- Past an operand that begins with the word `new`, from behind it. Where a statement ends behind
the word, and where no operand follows, it stands for a name. -/
def readNew (p : Place) (c : Cursor) : Option Cursor :=
  if p.ends c then some c else (read (.operand p) c).getD c

/-- Past an operand that begins with the word `yield`, from behind it. -/
def readYield (p : Place) (c : Cursor) : Option Cursor :=
  if p.ends c then some c
  else some ((read (.operand p) (c.skip (·.mark? "*"))).getD c)

/-- Past an operand that begins with a word, from behind it. -/
def readWordOperand (p : Place) (word : String) (c : Cursor) : Option Cursor :=
  match word with
  | "function" => readFunction read c
  | "class" => readClass read c
  | "async" => readAsync read p c
  | "new" => readNew read p c
  | "yield" => readYield read p c
  | "typeof" | "void" | "delete" | "await" => read (.operand p) c
  | _ => if statementWords.contains word then none else some c

/-- Whether an angle bracket in markup, from behind it, opens type parameters and no element: a
comma, an equals sign or a constraint follows the first name. -/
def opensParameters (c : Cursor) : Bool :=
  match ((modifier? ["const"] c).getD c).anyWord? with
  | none => false
  | some (_, d) =>
    (d.markOf? [",", "="]).isSome ||
      match d.word? "extends" with
      | some e => !((e.next?.map "=>/".toList.contains).getD true)
      | none => false

/-- Past an operand that begins with an angle bracket, from behind it. -/
def readAngled (markup : Bool) (p : Place) (c : Cursor) : Option Cursor :=
  if markup && !opensParameters c then read .element c
  else do read (.operand p) (← read .typeParameters c)

/-- Past an operand, with the operators before it. -/
def readOperand (markup : Bool) (p : Place) (c : Cursor) : Option Cursor :=
  let d := c.pastGap
  match d.rest with
  | '(' :: _ => readParenthesis read d.tail
  | '[' :: _ => read .arrayItems d.tail
  | '\x7b' :: _ => read .objectItems d.tail
  | '\x60' :: _ => read (.template false) d.tail
  | '/' :: _ => d.regex?
  | '<' :: _ => readAngled read markup p d.tail
  | '@' :: _ => do read (.operand p) (← read .decoratorRest d.tail)
  | _ =>
    match d.markOf? ["+", "-", "~", "!", "++", "--"] with
    | some e => read (.operand p) e
    | none =>
      match d.string? <|> d.number? <|> d.privateName? with
      | some e => some e
      | none => do
        let (word, e) ← d.anyWord?
        readWordOperand read p word e

/-! ### Operators -/

/-- The operators between two operands, but for those that begin with a closing angle bracket. -/
def binaryMarks : List String :=
  ["+", "-", "*", "/", "%", "**", "<", "<=", "<<", "==", "!=", "===", "!==", "&", "|", "^", "&&",
    "||", "??", "=", "+=", "-=", "*=", "/=", "%=", "**=", "<<=", "&=", "|=", "^=", "&&=",
    "||=", "??="]

/-- Past an operator that begins with a closing angle bracket. -/
def greaterMark? (c : Cursor) : Option Cursor := do
  let d ← c.char? '>'
  let d := ⟨d.rest.drop ((d.rest.take 2).takeWhile (· == '>')).length, d.line⟩
  return if d.rest.head? == some '=' then d.tail else d

/-- Whether angle brackets that end here hold type arguments and not two comparisons. -/
def followsTypeArguments (c : Cursor) : Bool :=
  match c.rest.head?, c.next? with
  | _, none => true
  | beside, some ch =>
    if beside == some '>' || beside == some '=' then false
    else if ch == '(' || ch == '\x60' then true
    else if "<>+-".toList.contains ch then false
    else c.breaks || (c.markOf? binaryMarks).isSome ||
      (c.wordOf? ["in", "instanceof", "as", "satisfies"]).isSome || !startsOperand ch
where
  /-- Whether an operand can begin with a character that no operator begins with. -/
  startsOperand (ch : Char) : Bool :=
    isNameStart ch || ch.isDigit || "\\\"\x27[\x7b!~@#".toList.contains ch

/-- Past a condition, from behind its question mark. The second branch is missing if the first one,
an arrow function, took it for its body. -/
def readCondition (p : Place) (c : Cursor) : Option Cursor := do
  let d ← read (.expression .valueInside) c
  match d.mark? ":" with
  | some e => read (.expression p) e
  | none => some d

/-- Past the body of an arrow function and what follows it. -/
def readArrowBody (p : Place) (c : Cursor) : Option Cursor :=
  match c.char? '\x7b' with
  | some d => do read (.operators p) (← read .statements d)
  | none => read (.expression p) c

/-- Past a name behind a dot, or what else may follow a question mark and a dot, and the operators
behind it. -/
def readProperty (p : Place) (c : Cursor) : Option Cursor :=
  read (.operators p) ((c.privateName? <|> someWord? c).getD c)

/-- Past an operator that no bracket opens, and all that follows it. -/
def readMarked (p : Place) (c : Cursor) : Option Cursor :=
  match c.markOf? [".", "?."] with
  | some d => readProperty read p d
  | none =>
    match c.mark? "=>" with
    | some d => readArrowBody read p d
    | none =>
      match c.markOf? ["!", "++", "--"] with
      | some d => read (.operators p) d
      | none =>
        match c.markOf? binaryMarks <|> greaterMark? c <|> c.wordOf? ["in", "instanceof"] with
        | some d => read (.expression p) d
        | none =>
          match c.wordOf? ["as", "satisfies"] with
          | some d => do read (.operators p) (← read (.type ⟨p.mayEnd, true⟩ false) d)
          | none =>
            match c.mark? "?" with
            | none => some c
            | some d =>
              if (d.markOf? [":", ")", ","]).isSome then some c else readCondition read p d

/-- Past the operators behind an operand, with all that belongs to them. -/
def readOperators (p : Place) (c : Cursor) : Option Cursor :=
  if p.ends c then some c
  else
    let d := c.pastGap
    match d.rest with
    | '(' :: _ => do read (.operators p) (← read .arguments d.tail)
    | '[' :: _ => do read (.operators p) (← readSubscript read d.tail)
    | '\x60' :: _ => do read (.operators p) (← read (.template false) d.tail)
    | '<' :: _ =>
      match (((d.mark? "<").bind (read .typeArguments)).filter followsTypeArguments) with
      | some e => read (.operators p) e
      | none => readMarked read p c
    | _ => readMarked read p c

/-- Past an expression. -/
def readExpression (p : Place) (c : Cursor) : Option Cursor := do
  read (.operators p) (← read (.operand p) c)

/-- Past expressions between commas. -/
def readExpressions (p : Place) (c : Cursor) : Option Cursor := do
  maybe (·.mark? ",") (read (.expressions p)) (← read (.expression p) c)

end Reexport.Script
