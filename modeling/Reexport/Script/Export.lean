import Reexport.Declared
import Reexport.Script.Pattern
import Reexport.Text.Case

/-!
# The exports of a module

`scan` finds the names that a module exports by its own top-level `export` statements. The default
export is no name: an `export *` never passes it on.

The scan is a walk over the syntax tree that a parser makes of the text. Here no tree stands between
the two, so that a definition which reads the text does the work of both. The walk is in what counts
as a name: in the keywords of `foundIn`, in `itemName`, in the texts in quotes that `foundSpace`
passes over, in the empty name that `exportedStar` leaves out, and in `addFound`. All else stands for
the parser: which words belong together, where a statement ends, and what cannot be read. In two
places the parser takes valid code for something else, and nothing in the walk is at fault:

* `exportAt?` — the word `export` in front of a line break is taken for a statement of its own.
* `exportedStar` — the mark of types in front of `* as` is not known.
-/

namespace Reexport.Script

/-- A name in the text of a statement, still with the quotes it may stand in. -/
structure Found where
  /-- The name as written. -/
  text : String
  /-- Whether it is exported as a type only. -/
  isTypeOnly : Bool
  /-- How it is declared. -/
  form : Form

variable (read : Reader)

/-! ### Declarations -/

/-- The name that follows. -/
def foundName (isTypeOnly : Bool) (form : Form) (c : Cursor) : List Found :=
  match c.anyWord? with
  | some (text, _) => [⟨text, isTypeOnly, form⟩]
  | none => []

/-- The name of a space, with all blanks and comments between its dots. A name in quotes, which is
the path of a module, is none. -/
def foundSpace (c : Cursor) : List Found :=
  if c.string?.isSome then []
  else match pastDottedName c with
    | some d => [⟨c.pastGap.textUpTo d, false, .space⟩]
    | none => []

/-- The names of the variables of a declaration whose keyword is read. -/
def foundVariables (c : Cursor) : List Found :=
  let names := (declarators read (c.rest.length + 1) c).flatMap (·.names)
  names.map fun text => ⟨text, false, .binding⟩

/-- The names that a declaration declares, by its first keyword and what follows it. -/
def foundIn (word : String) (c : Cursor) : List Found :=
  match word with
  | "const" =>
    match c.word? "enum" with
    | some d => foundName false .enumeration d
    | none => foundVariables read c
  | "let" | "var" => foundVariables read c
  | "function" => foundName false .function (c.skip (·.mark? "*"))
  | "async" =>
    match c.word? "function" with
    | some d => foundName false .function (d.skip (·.mark? "*"))
    | none => []
  | "class" => foundName false .classForm c
  | "abstract" =>
    match c.word? "class" with
    | some d => foundName false .classForm d
    | none => []
  | "enum" => foundName false .enumeration c
  | "interface" => foundName true .interface c
  | "type" => foundName true .typeAlias c
  | "namespace" | "module" => foundSpace c
  | _ => []

/-- The names that the declaration at a cursor declares. -/
def foundDeclaration (c : Cursor) : List Found :=
  let c := c.skip (·.word? "declare")
  match c.anyWord? with
  | some (word, d) => foundIn read word d
  | none => []

/-! ### Export lists -/

/-- The next word or text in quotes. -/
def specifierText? (c : Cursor) : Option (String × Cursor) :=
  match c.string? with
  | some d => some (c.pastGap.textUpTo d, d)
  | none => c.anyWord?

/-- The items of an export list, from behind the brace: the texts that stand between two commas. -/
def items : (fuel : Nat) → Cursor → List (List String)
  | 0, _ => []
  | fuel + 1, c =>
    match c.mark? "," with
    | some d => [] :: items fuel d
    | none =>
      match specifierText? c with
      | none => [[]]
      | some (text, d) =>
        match items fuel d with
        | [] => [[text]]
        | item :: rest => (text :: item) :: rest

/-- The name that one item of an export list exports. The word `type` before it marks a type. -/
def itemName (isTypeOnly : Bool) : List String → List Found
  | [name] => [⟨name, isTypeOnly, .clause⟩]
  | ["type", name] => [⟨name, true, .clause⟩]
  | [_, "as", asName] => [⟨asName, isTypeOnly, .clause⟩]
  | ["type", _, "as", asName] => [⟨asName, true, .clause⟩]
  | _ => []

/-- The names of an export list, from behind the brace. -/
def listNames (isTypeOnly : Bool) (c : Cursor) : List Found :=
  (items (c.rest.length + 1) c).flatMap (itemName isTypeOnly)

/-! ### Statements -/

/-- What an export statement exports. -/
inductive Exported where
  /-- All of another module. -/
  | star
  /-- Some names. -/
  | names (found : List Found)

/-- A text without the quotes at its two ends. -/
def stripQuotes (s : String) : String :=
  let quote (c : Char) : Bool := c == '"' || c == '\x27'
  String.ofList ((s.toList.dropWhile quote).reverse.dropWhile quote).reverse

/-- What follows `export *`. A name that is empty within its quotes counts as none. No name counts as
a type, since the parser passes over a word `type` in front of the star as over a fault in the text.
-/
def exportedStar (c : Cursor) : Exported :=
  match c.word? "as" with
  | none => .star
  | some d =>
    match specifierText? d with
    | none => .names []
    | some (text, _) =>
      if stripQuotes text = "" then .names [] else .names [⟨text, false, .clause⟩]

/-- What an export statement exports, from behind its keyword. -/
def exported (c : Cursor) : Exported :=
  let (types, d) := match c.word? "type" with
    | some d => (true, d)
    | none => (false, c)
  match d.mark? "*" with
  | some e => exportedStar e
  | none =>
    match d.char? '\x7b' with
    | some e => .names (listNames types e)
    | none => .names (foundDeclaration read c)

/-- Past decorators. -/
def pastDecorators : (fuel : Nat) → Cursor → Cursor
  | 0, c => c
  | fuel + 1, c =>
    match (c.char? '@').bind (read .decoratorRest) with
    | some d => pastDecorators fuel d
    | none => c

/-- What the statement at a cursor exports, if it is an export statement. Whether it is one is for
the parser to say: without decorators, it takes the word `export` for a name where a statement may
end behind it, as it may at most line breaks. -/
def exportAt? (c : Cursor) : Option Exported :=
  if (c.char? '@').isNone then do
    let d ← c.word? "export"
    if d.semicolonDue true then none
    else if (d.char? '@').isNone then some (exported read d)
    else some (exported read (pastDecorators read d.rest.length d))
  else (pastDecorators read c.rest.length c).word? "export" |>.map (exported read)

/-- Past the line on which the next token stands. -/
def pastLine (c : Cursor) : Cursor :=
  let d := c.pastGap
  let line := d.rest.takeWhile (· ≠ '\n')
  d.past (line ++ ['\n'], d.rest.drop (line.length + 1))

/-- The export statements at the top level, from a cursor on, each with the line on which it begins.
What cannot be read as a statement counts as one up to the end of its first line. -/
def exportStatements : (fuel : Nat) → Cursor → List (Nat × Exported)
  | 0, _ => []
  | fuel + 1, c =>
    if c.next?.isNone then []
    else
      let rest := exportStatements fuel ((read .statement c).getD (pastLine c))
      match exportAt? read c with
      | some found => (c.pastGap.line, found) :: rest
      | none => rest

/-- Adds the names of a statement to a scan; `default` and names that are known already add
nothing. -/
def addFound (line : Nat) : List Found → DeclarationScan → Except Declared.Fault DeclarationScan
  | [], scan => .ok scan
  | f :: fs, scan => do
    let d ← Declared.make? (stripQuotes f.text) f.isTypeOnly f.form line
    let known := d.name == "default" || scan.exports.any (·.name == d.name)
    addFound line fs (if known then scan else { scan with exports := scan.exports ++ [d] })

/-- Adds what a statement exports to a scan. -/
def addStatement (scan : DeclarationScan) (statement : Nat × Exported) :
    Except Declared.Fault DeclarationScan :=
  match statement.2 with
  | .star => .ok { scan with hasStar := true }
  | .names found => addFound statement.1 found scan

/-- The text without a first line that names an interpreter. -/
def pastInterpreter : List Char → List Char
  | '#' :: '!' :: cs => cs.dropWhile (· ≠ '\n')
  | cs => cs

end Reexport.Script

namespace Reexport

/-- Whether the module at a path holds markup, which its extension says in letters of either
case. -/
def holdsMarkup (path : String) : Bool :=
  let path := (Text.lower path).toList
  ".tsx".toList.isSuffixOf path || ".jsx".toList.isSuffixOf path

/-- The names that a module exports by its own statements. -/
def scan (path source : String) : Except Declared.Fault DeclarationScan :=
  let cs := Script.pastInterpreter source.toList
  (Script.exportStatements (Script.readerFor (holdsMarkup path) cs) (cs.length + 1) ⟨cs, 1⟩).foldlM
    Script.addStatement {}

end Reexport
