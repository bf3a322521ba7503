import Reexport.Script.Expressions

/-!
# Statements

How to read past statements. The words with which some declarations begin are names elsewhere: what
follows such a word tells whether it opens a declaration, which it does not where a statement ends
behind it. A statement may lack its semicolon, whatever follows it.
-/

namespace Reexport.Script

variable (read : Reader)

/-- Past the semicolon of a statement, if it has one. -/
def pastSemicolon (c : Cursor) : Cursor :=
  c.skip (·.mark? ";")

/-- Past an expression with which a statement may end, if there is one. -/
def pastExpressions (c : Cursor) : Cursor :=
  if Place.valueAtEnd.ends c then c else c.skip (read (.expressions .valueAtEnd))

/-! ### Declarations -/

/-- Past the annotation and the initial value of a variable. -/
def readDeclaratorRest (p : Place) (c : Cursor) : Option Cursor :=
  if p.forType.ends c then some c
  else do readValue read p (← readAnnotation read p (c.skip (·.mark? "!")))

/-- Past the variables of a declaration, from behind its keyword. -/
def readDeclarators (p : Place) (c : Cursor) : Option Cursor := do
  let c ← readDeclaratorRest read p (← read .pattern c)
  maybe (·.mark? ",") (read (.declarators p)) c

/-- Past a block, from its brace on. -/
def readBlock (c : Cursor) : Option Cursor := do
  read .statements (← c.char? '\x7b')

/-- Past the declaration of a function, from behind its keyword. It may lack its body. -/
def readFunctionDeclaration (c : Cursor) : Option Cursor := do
  let c ← readSignature read .typeAtEnd (pastWord (c.skip (·.mark? "*")))
  maybe (·.char? '\x7b') (read .statements) c

/-- Past the name of a space and the names behind dots in it. -/
def pastDottedName (c : Cursor) : Option Cursor :=
  match c.string? with
  | some d => some d
  | none => do
    let (_, d) ← c.anyWord?
    go d.rest.length d
where
  /-- Past as many names as are given at most. -/
  go : (most : Nat) → Cursor → Cursor
    | 0, c => c
    | most + 1, c =>
      match (c.mark? ".").bind someWord? with
      | some d => go most d
      | none => c

/-- Past a declared type, from behind its keyword. -/
def readAlias (c : Cursor) : Option Cursor := do
  let c ← readTypeParameters? read (← someWord? c)
  read (.type .typeAtEnd false) (← c.mark? "=")

/-- Past an interface, from behind its keyword. -/
def readInterface (c : Cursor) : Option Cursor := do
  let c ← readTypeParameters? read (← someWord? c)
  let c ← maybe (·.word? "extends") (read .typeList) c
  read .members (← c.char? '\x7b')

/-- Past a declaration, from behind its first keyword. -/
def readDeclarationOf (word : String) (c : Cursor) : Option Cursor :=
  match word with
  | "var" | "let" => read (.declarators .valueAtEnd) c
  | "const" =>
    match c.word? "enum" with
    | some _ => read .declaration c
    | none => read (.declarators .valueAtEnd) c
  | "function" => readFunctionDeclaration read c
  | "async" => (c.word? "function").bind (readFunctionDeclaration read)
  | "class" => readClass read c
  | "abstract" => (c.word? "class").bind (readClass read)
  | "enum" => do read .objectItems (← (← someWord? c).char? '\x7b')
  | "interface" => readInterface read c
  | "type" => readAlias read c
  | "namespace" | "module" => do maybe (·.char? '\x7b') (read .statements) (← pastDottedName c)
  | "declare" => read .declaration c
  | "global" => readBlock read c
  | _ => none

/-- Past a declaration. -/
def readDeclaration (c : Cursor) : Option Cursor := do
  let (word, c) ← c.anyWord?
  readDeclarationOf read word c

/-! ### Imports and exports -/

/-- Past a list of names, from behind the brace. -/
def readNameList (c : Cursor) : Option Cursor :=
  match c.char? '\x7d' with
  | some d => some d
  | none => do read .nameList (← c.mark? "," <|> c.string? <|> someWord? c)

/-- Past the path of another module and the attributes of an import. -/
def readOrigin (c : Cursor) : Option Cursor := do
  let c ← c.string?
  if Place.typeAtEnd.ends c then return c
  maybe (fun d => (d.wordOf? ["with", "assert"]).bind (·.char? '\x7b')) (read .objectItems) c

/-- Past what stands behind the word `import`. -/
def readImported (c : Cursor) : Option Cursor :=
  match readOrigin read c with
  | some d => some d
  | none =>
    match c.mark? "=" with
    | some d => read (.expressions .valueAtEnd) d
    | none =>
      match c.char? '\x7b' with
      | some d => do read .imported (← read .nameList d)
      | none => do read .imported (← c.markOf? [",", "*"] <|> someWord? c)

/-- Past what may tell from which module names come. -/
def readFrom (c : Cursor) : Option Cursor :=
  if Place.typeAtEnd.ends c then some c else maybe (·.word? "from") (readOrigin read) c

/-- Past the value that is exported as default. -/
def readDefault (c : Cursor) : Option Cursor :=
  let declared := do
    let (word, d) ← c.anyWord?
    match word with
    | "function" => if named (d.skip (·.mark? "*")) then read .declaration c else none
    | "async" => do
      if named ((← d.word? "function").skip (·.mark? "*")) then read .declaration c else none
    | "class" => if named d then read .declaration c else none
    | "abstract" | "interface" => read .declaration c
    | _ => none
  declared <|> read (.expressions .valueAtEnd) c
where
  /-- Whether a function or a class has a name. -/
  named (c : Cursor) : Bool :=
    (someWord? c).isSome && (c.wordOf? ["extends", "implements"]).isNone

/-- Past what stands behind the word `export`. -/
def readExported (c : Cursor) : Option Cursor :=
  let types := c.skip fun c => (c.word? "type").filter fun d =>
    (d.char? '\x7b').isSome || (d.mark? "*").isSome
  match types.char? '\x7b' with
  | some d => do readFrom read (← read .nameList d)
  | none =>
    match types.mark? "*" with
    | some d => do
      readFrom read (d.skip fun d => (d.word? "as").bind fun e => e.string? <|> someWord? e)
    | none =>
      match c.mark? "=" with
      | some d => read (.expressions .valueAtEnd) d
      | none =>
        match c.word? "default" with
        | some d => readDefault read d
        | none =>
          match c.word? "import" with
          | some d => read .imported d
          | none =>
            match (c.word? "as").bind (·.word? "namespace") with
            | some d => someWord? d
            -- Decorators may stand behind the word `export` as well.
            | none => if (c.char? '@').isSome then read .statement c else read .declaration c

/-! ### Control flow -/

/-- Past an expression in parentheses. -/
def readTest (c : Cursor) : Option Cursor := do
  (← read (.expressions .valueInside) (← c.char? '(')).char? ')'

/-- Past the parentheses of a loop over a range or over values. -/
def readLoopHead (c : Cursor) : Option Cursor := do
  let c ← c.char? '('
  let start := (c.wordOf? ["var", "let", "const"]).bind (read (.declarators .valueInside))
  let c := (start <|> read (.expressions .valueInside) c).getD c
  match c.wordOf? ["of", "in"] with
  | some d => (← read (.expressions .valueInside) d).char? ')'
  | none =>
    let c := (c.skip (·.mark? ";")).skip (read (.expressions .valueInside))
    ((c.skip (·.mark? ";")).skip (read (.expressions .valueInside))).char? ')'

/-- Past the parts of a statement that tries, behind its first block. -/
def readHandlers (c : Cursor) : Option Cursor := do
  let bound (c : Cursor) : Option Cursor := do
    (← readAnnotation read .typeInside (← read .pattern c)).char? ')'
  let handler (c : Cursor) : Option Cursor := do
    readBlock read (← maybe (·.char? '(') bound c)
  maybe (·.word? "finally") (readBlock read) (← maybe (·.word? "catch") handler c)

/-- Past a statement of control flow, from behind its keyword, or past the words before a group of
statements. -/
def readControl (word : String) (c : Cursor) : Option Cursor :=
  match word with
  | "if" => do
    maybe (·.word? "else") (read .statement) (← read .statement (← readTest read c))
  | "while" | "with" => do read .statement (← readTest read c)
  | "for" => do read .statement (← readLoopHead read (c.skip (·.word? "await")))
  | "do" => do
    let c ← (← read .statement c).word? "while"
    return pastSemicolon (← readTest read c)
  | "switch" => do readBlock read (← readTest read c)
  | "try" => do readHandlers read (← readBlock read c)
  | "return" | "throw" => some (pastSemicolon (pastExpressions read c))
  | "break" | "continue" =>
    some (pastSemicolon (if Place.typeAtEnd.ends c then c else pastWord c))
  | "debugger" => some (pastSemicolon c)
  | "case" => do return (← read (.expressions .valueInside) c).skip (·.mark? ":")
  | "default" => c.mark? ":"
  | _ => none

/-! ### Statements -/

/-- The words with which only statements of control flow begin. -/
def controlWords : List String :=
  ["if", "while", "with", "for", "do", "switch", "try", "return", "throw", "break", "continue",
    "debugger", "case", "default"]

/-- The words with which only declarations begin. -/
def declarationWords : List String :=
  ["var", "const", "function", "class", "enum"]

/-- The words with which declarations begin and that are names elsewhere. -/
def openingWords : List String :=
  ["let", "async", "abstract", "type", "interface", "namespace", "module", "global", "declare"]

/-- The words with which other statements begin and that are no names. -/
def operatorWords : List String :=
  ["import", "await", "typeof", "void", "delete"]

/-- Whether a word opens a declaration, by what follows it. -/
def opensDeclaration (word : String) (c : Cursor) : Bool :=
  match word with
  | "let" => (c.char? '\x7b' <|> c.char? '[' <|> someWord? c).isSome
  | "async" => (c.word? "function").isSome
  | "abstract" => (c.word? "class").isSome
  | "type" => ((someWord? c).bind fun d => d.mark? "=" <|> d.char? '<').isSome
  | "interface" =>
    ((someWord? c).bind fun d => d.char? '\x7b' <|> d.char? '<' <|> d.word? "extends").isSome
  | "namespace" | "module" => (c.string? <|> (pastDottedName c).bind (·.char? '\x7b')).isSome
  | "global" => (c.char? '\x7b').isSome
  | "declare" => (c.wordOf? (declarationWords ++ openingWords)).isSome
  | _ => false

/-- Past an expression that is a statement. -/
def readExpressionStatement (c : Cursor) : Option Cursor := do
  return pastSemicolon (← read (.expressions .valueAtEnd) c)

/-- Past a statement that begins with a word, from the word and from behind it. -/
def readWordStatement (word : String) (c d : Cursor) : Option Cursor :=
  if controlWords.contains word then readControl read word d
  else if declarationWords.contains word then do
    return pastSemicolon (← readDeclarationOf read word d)
  else match d.mark? ":" with
    | some e => read .statement e
    | none =>
      if !operatorWords.contains word && Place.valueAtEnd.ends d then some (pastSemicolon d)
      else if word == "import" && (d.markOf? [".", "("]).isNone then do
        return pastSemicolon (← read .imported d)
      else if word == "export" then do return pastSemicolon (← readExported read d)
      else if opensDeclaration word d then do return pastSemicolon (← readDeclarationOf read word d)
      else readExpressionStatement read c

/-- Past a statement. -/
def readStatement (c : Cursor) : Option Cursor :=
  let d := c.pastGap
  match d.rest with
  | '\x7b' :: _ => read .statements d.tail
  | ';' :: _ => some d.tail
  | '@' :: _ => do read .statement (← read .decoratorRest d.tail)
  | _ =>
    match d.anyWord? with
    | some (word, e) => readWordStatement read word d e
    | none => readExpressionStatement read d

/-- Past the statements of a block, from behind the brace. -/
def readStatements (c : Cursor) : Option Cursor :=
  match c.char? '\x7d' with
  | some d => some d
  | none => do read .statements (← read .statement c)

end Reexport.Script
