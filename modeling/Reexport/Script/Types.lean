import Reexport.Script.Part

/-!
# Types

How to read past types, type parameters, signatures and the patterns in them.
-/

namespace Reexport.Script

variable (read : Reader)

/-! ### Signatures -/

/-- Past type parameters, if there are any. -/
def readTypeParameters? (c : Cursor) : Option Cursor :=
  maybe (·.char? '<') (read .typeParameters) c

/-- Past type parameters, parameters and the type of the result. -/
def readSignature (p : Place) (c : Cursor) : Option Cursor := do
  let c ← readTypeParameters? read c
  let c ← read .parameters (← c.char? '(')
  maybe (·.mark? ":") (read (.result p false)) c

/-- Past the annotation of a name, if there is one. -/
def readAnnotation (p : Place) (c : Cursor) : Option Cursor :=
  maybe (·.mark? ":") (read (.type p.forType false)) c

/-- Past an initial or default value, if there is one. -/
def readValue (p : Place) (c : Cursor) : Option Cursor :=
  maybe (·.mark? "=") (read (.expression p.forValue)) c

/-- The words that may stand before a parameter. -/
def parameterModifiers : List String :=
  ["public", "private", "protected", "readonly", "override"]

/-- Past the name or pattern of a parameter, its annotation and its default value. -/
def readParameter (c : Cursor) : Option Cursor := do
  let c ← read .pattern (c.skip (·.mark? "..."))
  let c ← readAnnotation read .typeInside (c.skip (·.mark? "?"))
  readValue read .valueInside c

/-- Past parameters, from behind the parenthesis. -/
def readParameters (c : Cursor) : Option Cursor :=
  match c.char? ')' with
  | some d => some d
  | none =>
    match c.char? '@' with
    | some d => do read .parameters (← read .decoratorRest d)
    | none =>
      match c.wordOf? parameterModifiers with
      | some d =>
        if startsName d || d.next? == some '\x7b' then read .parameters d
        else itemThen ')' (read .parameters) (readParameter read c)
      | none => itemThen ')' (read .parameters) (readParameter read c)

/-! ### Patterns -/

/-- Past a name or a pattern. -/
def readPattern (c : Cursor) : Option Cursor :=
  match c.char? '\x7b' with
  | some d => read .objectPattern d
  | none =>
    match c.char? '[' with
    | some d => read .arrayPattern d
    | none => c.anyWord?.map (·.2)

/-- Past a pattern and its default value. -/
def readTarget (c : Cursor) : Option Cursor := do
  readValue read .valueInside (← read .pattern c)

/-- Past the key of a part of an object. -/
def readKey? (c : Cursor) : Option Cursor :=
  match c.char? '[' with
  | some d => do (← read (.expressions .valueInside) d).char? ']'
  | none => c.string? <|> c.number? <|> c.privateName? <|> c.anyWord?.map (·.2)

/-- Past one part of an object pattern. -/
def readField (c : Cursor) : Option Cursor :=
  match c.mark? "..." with
  | some d => read .pattern d
  | none => do
    let d ← readKey? read c
    match d.mark? ":" with
    | some e => readTarget read e
    | none => readValue read .valueInside d

/-- Past the parts of an object pattern, from behind the brace. -/
def readObjectPattern (c : Cursor) : Option Cursor :=
  match c.char? '\x7d' with
  | some d => some d
  | none => itemThen '\x7d' (read .objectPattern) (readField read c)

/-- Past the places of an array pattern, from behind the bracket. -/
def readArrayPattern (c : Cursor) : Option Cursor :=
  match c.char? ']' with
  | some d => some d
  | none =>
    match c.mark? "," with
    | some d => read .arrayPattern d
    | none => itemThen ']' (read .arrayPattern) (readTarget read (c.skip (·.mark? "...")))

/-! ### Operands of types -/

/-- The words that are types by themselves and take no arguments. -/
def plainTypes : List String :=
  ["any", "number", "boolean", "string", "symbol", "void", "unknown", "never", "object", "null",
    "undefined", "true", "false", "this"]

/-- The words that no parameter can have as its name. -/
def reservedWords : List String :=
  ["null", "true", "false", "void", "typeof", "new", "function", "class", "import", "in",
    "instanceof", "delete", "enum", "extends", "super", "const", "var", "return", "throw", "if",
    "else", "for", "while", "do", "switch", "case", "default", "break", "continue", "try", "catch",
    "finally", "with", "debugger", "export"]

/-- Whether a type can begin here. -/
def startsType (c : Cursor) : Bool :=
  match c.next? with
  | none => false
  | some ch => isNameStart ch || ch.isDigit || "\\\"\x27\x60([\x7b<-".toList.contains ch

/-- Whether a parameter has been read, and not a type in parentheses. -/
def followsParameter (c : Cursor) : Bool :=
  (c.markOf? [":", ",", "?", "="]).isSome || ((c.char? ')').bind (·.mark? "=>")).isSome

/-- Whether a parenthesis, from behind it, opens the parameters of a function type. -/
def opensFunctionType (c : Cursor) : Bool :=
  match c.next? with
  | none => false
  | some ch =>
    if ch == ')' then ((c.char? ')').bind (·.mark? "=>")).isSome
    else if ch == '.' then (c.mark? "...").isSome
    else if ch == '\x7b' || ch == '[' then
      match read .pattern c with
      | some d => followsParameter d
      | none => false
    else
      match c.anyWord? with
      | some (word, d) => !reservedWords.contains word && followsParameter d
      | none => false

/-- Past the type of a function, from its type parameters on. -/
def readFunctionType (p : Place) (plain : Bool) (c : Cursor) : Option Cursor := do
  let c ← readTypeParameters? read c
  let c ← read .parameters (← c.char? '(')
  read (.result p plain) (← c.mark? "=>")

/-- Past the name of an inferred type and its constraint. Where the type is a condition itself, a
constraint that a question mark follows belongs to that condition. -/
def readInferred (p : Place) (plain : Bool) (c : Cursor) : Option Cursor := do
  let (_, c) ← c.anyWord?
  let constrained := do
    let d ← read (.type .typeInside true) (← c.word? "extends")
    if plain || (d.mark? "?").isNone then some d else none
  read (.typeSuffix p false) (constrained.getD c)

/-- Past a type in parentheses, from behind the first one. -/
def readGroupedType (p : Place) (c : Cursor) : Option Cursor := do
  read (.typeSuffix p false) (← (← read (.type .typeInside false) c).char? ')')

/-- Past what a word stands before that makes another type of a type. A parenthesis there encloses a
type. -/
def readOperatedType (p : Place) (plain : Bool) (c : Cursor) : Option Cursor :=
  match c.char? '(' with
  | some d => readGroupedType read p d
  | none => read (.typeOperand p plain) c

/-- Past a type that begins with a word, from behind it. -/
def readWordType (p : Place) (plain : Bool) (word : String) (c : Cursor) : Option Cursor :=
  let named := read (.typeSuffix p true) c
  match word with
  | "keyof" | "unique" | "readonly" =>
    if startsType c then readOperatedType read p plain c else named
  | "typeof" =>
    match (c.word? "import").bind (·.char? '(') with
    | some d => do read (.typeSuffix p true) (← read .arguments d)
    | none => do read (.typeSuffix p true) (← c.anyWord?).2
  | "infer" => readInferred read p plain c <|> named
  | "new" => readFunctionType read p plain c
  | "abstract" =>
    match c.word? "new" with
    | some d => readFunctionType read p plain d
    | none => named
  | "import" => do read (.typeSuffix p true) (← read .arguments (← c.char? '('))
  | _ => if plainTypes.contains word then read (.typeSuffix p false) c else named

/-- Past one operand of a type. -/
def readTypeOperand (p : Place) (plain : Bool) (c : Cursor) : Option Cursor :=
  let d := c.pastGap
  match d.rest with
  | '<' :: _ => readFunctionType read p plain d
  | '(' :: _ =>
    if opensFunctionType read d.tail then readFunctionType read p plain d
    else readGroupedType read p d.tail
  | '\x7b' :: _ => do read (.typeSuffix p false) (← read .members d.tail)
  | '[' :: _ => do read (.typeSuffix p false) (← read .tuple d.tail)
  | '\x60' :: _ => do read (.typeSuffix p false) (← read (.template true) d.tail)
  | '-' :: _ => do read (.typeSuffix p false) (← d.tail.number?)
  | _ =>
    match d.string? <|> d.number? with
    | some e => read (.typeSuffix p false) e
    | none => do
      let (word, e) ← d.anyWord?
      readWordType read p plain word e

/-- Past what may stand behind a type. What cannot be read as a type in square brackets belongs to
no type. -/
def readTypeSuffix (p : Place) (named : Bool) (c : Cursor) : Option Cursor :=
  if p.ends c then some c
  else match if named then c.mark? "." else none with
    | some d => do read (.typeSuffix p true) (← d.privateName? <|> d.anyWord?.map (·.2))
    | none =>
      let opening := if p.operates then c.mark? "<" else c.char? '<'
      match if named then opening.bind (read .typeArguments) else none with
      | some d => read (.typeSuffix p false) d
      | none =>
        match c.char? '[' with
        | none => some c
        | some d =>
          match d.char? ']' <|> (read (.type .typeInside false) d).bind (·.char? ']') with
          | some e => read (.typeSuffix p false) e
          | none => some c

/-! ### Whole types -/

/-- Past the other operands of a type and the branches of a condition. -/
def readTypeRest (p : Place) (plain : Bool) (c : Cursor) : Option Cursor :=
  if p.ends c then some c
  else match c.markOf? ["|", "&"] with
    | some d => do read (.typeRest p plain) (← read (.typeOperand p plain) d)
    | none =>
      let branches := do
        let d ← read (.type .typeInside true) (← c.word? "extends")
        let d ← read (.type .typeInside false) (← d.mark? "?")
        read (.type p false) (← d.mark? ":")
      if plain then some c else branches <|> some c

/-- Past a type. -/
def readType (p : Place) (plain : Bool) (c : Cursor) : Option Cursor := do
  read (.typeRest p plain) (← read (.typeOperand p plain) (c.skip (·.markOf? ["|", "&"])))

/-- Past what a result says of a parameter: that it is of a type. -/
def readPredicate (p : Place) (plain : Bool) (c : Cursor) : Option Cursor := do
  let (_, d) ← c.anyWord?
  if d.breaks then none else read (.type p plain) (← d.word? "is")

/-- Past the type of a result. -/
def readResult (p : Place) (plain : Bool) (c : Cursor) : Option Cursor :=
  let asserted := do
    let d ← c.word? "asserts"
    if d.breaks then none
    else readPredicate read p plain d <|> d.anyWord?.map (·.2)
  readPredicate read p plain c <|> asserted <|> read (.type p plain) c

/-- Past the type of a result in which each parenthesis encloses a type. -/
def readGroupedResult (c : Cursor) : Option Cursor := do
  let d ← match c.char? '(' with
    | some d => readGroupedType read .typeInside d
    | none => read (.typeOperand .typeInside false) c
  maybe (·.markOf? ["|", "&"]) (read .groupedResult) d

/-- Past types between commas. -/
def readTypeList (c : Cursor) : Option Cursor := do
  maybe (·.mark? ",") (read .typeList) (← read (.type .typeInside false) c)

/-- Past type arguments, from behind the angle bracket. -/
def readTypeArguments (c : Cursor) : Option Cursor :=
  match c.char? '>' with
  | some d => some d
  | none => itemThen '>' (read .typeArguments) (read (.type .typeInside false) c)

/-- Past type parameters, from behind the angle bracket. -/
def readTypeParameters (c : Cursor) : Option Cursor :=
  match c.char? '>' with
  | some d => some d
  | none =>
    match modifier? ["const", "in", "out"] c with
    | some d => read .typeParameters d
    | none => itemThen '>' (read .typeParameters) do
      let d ← read (.type .typeInside false) c
      let d ← maybe (·.word? "extends") (read (.type .typeInside false)) d
      maybe (·.mark? "=") (read (.type .typeInside false)) d

/-- Past the name of an item of a tuple, if there is one. -/
def pastItemName (c : Cursor) : Cursor :=
  c.skip fun c => do
    let (_, d) ← c.anyWord?
    (d.skip (·.mark? "?")).mark? ":"

/-- Past the items of a tuple type, from behind the bracket. -/
def readTuple (c : Cursor) : Option Cursor :=
  match c.char? ']' with
  | some d => some d
  | none => itemThen ']' (read .tuple) do
    let d ← read (.type .typeInside false) (pastItemName (c.skip (·.mark? "...")))
    return d.skip (·.mark? "?")

/-! ### Members of object types -/

/-- The words that may stand before a member. -/
def memberModifiers : List String :=
  ["readonly", "get", "set", "static", "public", "private", "protected", "abstract", "declare"]

/-- Past the key of a member in square brackets, from behind the first bracket: the name and the
type of an index, the types that a name goes through, or an expression. -/
def readIndex (c : Cursor) : Option Cursor :=
  let index := do
    let (_, d) ← c.anyWord?
    (← read (.type .typeInside false) (← d.mark? ":")).char? ']'
  let mapped := do
    let (_, d) ← c.anyWord?
    let d ← read (.type .typeInside false) (← d.word? "in")
    (← maybe (·.word? "as") (read (.type .typeInside false)) d).char? ']'
  index <|> mapped <|> do (← read (.expressions .valueInside) c).char? ']'

/-- Past the key of a member. -/
def readMemberKey (c : Cursor) : Option Cursor :=
  match c.char? '[' with
  | some d => readIndex read d
  | none => readKey? read c

/-- Past the signs that a member may be missing or must not be missing. -/
def pastMissing (c : Cursor) : Cursor :=
  (c.skip (·.markOf? ["+", "-"])).skip (·.markOf? ["?", "!"])

/-- Whether parameters or type parameters follow. -/
def startsSignature (c : Cursor) : Bool :=
  c.next? == some '(' || c.next? == some '<'

/-- Past one member of an object type, or past a word that marks one. -/
def readMember (c : Cursor) : Option Cursor :=
  match (c.skip (·.markOf? ["+", "-"])).wordOf? memberModifiers with
  | some d => if startsName d then some d else named c
  | none => named c
where
  /-- Past a member without the words that mark it. -/
  named (c : Cursor) : Option Cursor :=
    if startsSignature c then readSignature read .typeAtEnd c
    else match (c.word? "new").filter startsSignature with
      | some d => readSignature read .typeAtEnd d
      | none => do
        let d := pastMissing (← readMemberKey read c)
        if startsSignature d then readSignature read .typeAtEnd d
        else readAnnotation read .typeAtEnd d

/-- Past the members of an object type, from behind the brace. -/
def readMembers (c : Cursor) : Option Cursor :=
  match c.char? '\x7d' with
  | some d => some d
  | none =>
    match c.markOf? [",", ";"] with
    | some d => read .members d
    | none => do read .members (← readMember read c)

end Reexport.Script
