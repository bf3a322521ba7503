import Reexport.Entry.Distinct
import Reexport.Text.Blank
import Reexport.Text.Line
import Reexport.Text.Split

/-!
# The text of a barrel

`barrelText before entries` is the text of a barrel with the given entries, where `before` is its
text so far. It begins with the prologue of that text: the lines before its first `export`, without
blank lines and `//` comments. The statements follow, source by source in the order of first use,
the values of a source before its types: whole namespaces, then default bindings, each in a
statement of its own, then one list with all names. Without entries the text stays as it is.
-/

namespace Reexport

open Text

/-! ### Namespaces written out -/

/-- The entries with each whole namespace replaced by the names the expander finds for it. One for
which it finds none stays. -/
def expandStars {m : Type → Type} [Monad m] (expander : Entry → m (Option (List Entry))) :
    List Entry → m (List Entry)
  | [] => return []
  | e :: rest => do
    let names ← if e.kind = .star then expander e else pure none
    let found := match names with
      | some (n :: ns) => n :: ns
      | _ => [e]
    return found ++ (← expandStars expander rest)

/-! ### The prologue -/

/-- Whether a line begins with the word `export`, blanks aside. -/
def isExportLine (line : List Char) : Bool :=
  "export".toList.isPrefixOf (trim line)

/-- Whether a line says something: it is neither blank nor a `//` comment. -/
def isTelling (line : List Char) : Bool :=
  !(trim line).isEmpty && !"//".toList.isPrefixOf (trim line)

/-- The telling lines before the first `export`. -/
def prologue (before : List Char) : List (List Char) :=
  ((lines before).takeWhile (!isExportLine ·)).filter isTelling

/-! ### Statements -/

/-- The binding of an entry as an item of a list. An alias that is empty or repeats the name is not
written. -/
def itemText (e : Entry) : List Char :=
  match e.asName with
  | some a => if a = "" ∨ a = e.specifier then e.specifier.toList
      else e.specifier.toList ++ " as ".toList ++ a.toList
  | none => e.specifier.toList

/-- The first words of a statement. -/
def keyword (typeOnly : Bool) : List Char :=
  (if typeOnly then "export type" else "export").toList

/-- The end of a statement: its source and a semicolon. -/
def sourceText (source : String) : List Char :=
  " from \"".toList ++ source.toList ++ "\";".toList

/-- The statement of a whole namespace. -/
def starText (typeOnly : Bool) (source : String) (asName : Option String) : List Char :=
  match asName with
  | some a => if a = "" then keyword typeOnly ++ " *".toList ++ sourceText source
      else keyword typeOnly ++ " * as ".toList ++ a.toList ++ sourceText source
  | none => keyword typeOnly ++ " *".toList ++ sourceText source

/-- The statement of a list of items. -/
def listText (typeOnly : Bool) (source : String) (items : List (List Char)) : List Char :=
  keyword typeOnly ++ " \x7b ".toList ++ join ", ".toList items ++ " \x7d".toList ++
    sourceText source

/-- The entries of one kind. -/
def ofKind (kind : Kind) (entries : List Entry) : List Entry :=
  entries.filter (·.kind = kind)

/-- The items of entries, none twice. -/
def itemTexts (entries : List Entry) : List (List Char) :=
  firsts id (entries.map itemText)

/-- The statements of the values, or of the types, of one source. -/
def statementTexts (typeOnly : Bool) (source : String) (entries : List Entry) : List (List Char) :=
  let names := itemTexts (ofKind .named entries)
  (firsts id ((ofKind .star entries).map (·.asName))).map (starText typeOnly source) ++
    (itemTexts (ofKind .default entries)).map (fun item => listText typeOnly source [item]) ++
    (if names.isEmpty then [] else [listText typeOnly source names])

/-- The sources of entries in the order of first use. -/
def sources (entries : List Entry) : List String :=
  firsts id (entries.map (·.source))

/-- The entries of one source that are types, or those that are none. -/
def flavoured (source : String) (typeOnly : Bool) (entries : List Entry) : List Entry :=
  entries.filter fun e => e.source = source && e.isTypeOnly = typeOnly

/-- The statements of one source. -/
def sourceStatements (entries : List Entry) (source : String) : List (List Char) :=
  statementTexts false source (flavoured source false entries) ++
    statementTexts true source (flavoured source true entries)

/-- The text of a barrel with the given entries, in place of the text before. -/
def barrelText (before : String) (entries : List Entry) : String :=
  if entries.isEmpty then before
  else String.ofList (joinLines (prologue before.toList ++
    (sources entries).flatMap (sourceStatements entries)) ++ ['\n'])

/-- The text of a barrel after its namespaces are written out. -/
def barrelTextWith (expander : Entry → Option (List Entry)) (before : String)
    (entries : List Entry) : String :=
  barrelText before (expandStars (m := Id) (fun e => pure (expander e)) entries).run

end Reexport
