import Reexport.Text.Blank
import Reexport.Text.Split

/-!
# Environment files

A file of lines `NAME=value`. The word `export` may stand before the name; a value may stand in
single or double quotes, in which a backslash escapes, and then reach over several lines. A comment
begins with `#`. A line of any other form is passed over. In a value, `${NAME}` stands for the value
of a name defined before or in the environment, and `${NAME:-text}` for the text where there is
none.
-/

namespace Reexport.Dotenv

open Text

/-- Whether a character is a blank that stays on its line. -/
def isInlineBlank (c : Char) : Bool :=
  isBlank c && c ≠ '\n'

/-- A text without the blanks at its front that stay on the line. -/
def dropInline (cs : List Char) : List Char :=
  cs.dropWhile isInlineBlank

/-- Past the word `export` and the blanks after it, if it is there. -/
def pastExport (cs : List Char) : List Char :=
  match dropText? "export".toList cs with
  | some (c :: rest) => if isInlineBlank c then dropInline rest else cs
  | _ => cs

/-- The name with which a text begins, if it does with a name or a comment. A comment has none. -/
def readName? : List Char → Option (Option (List Char) × List Char)
  | '#' :: cs => some (none, '#' :: cs)
  | '\x27' :: cs =>
    match cs.takeWhile (· ≠ '\x27'), cs.dropWhile (· ≠ '\x27') with
    | c :: name, _ :: rest => some (some (c :: name), rest)
    | _, _ => none
  | cs =>
    let isNameChar (c : Char) : Bool := c ≠ '=' && c ≠ '#' && !isBlank c
    match cs.takeWhile isNameChar with
    | [] => none
    | name => some (some name, cs.dropWhile isNameChar)

/-- The text up to the closing quote and what follows it. A backslash takes the next character with
it, so that a quote after a backslash closes nothing. -/
def readQuoted? (quote : Char) : List Char → Option (List Char × List Char)
  | [] => none
  | '\\' :: c :: cs => (readQuoted? quote cs).map fun (text, rest) => ('\\' :: c :: text, rest)
  | c :: cs =>
    if c = quote then some ([], cs)
    else (readQuoted? quote cs).map fun (text, rest) => (c :: text, rest)

/-- The character for which a letter after a backslash stands. -/
def escaped? : Char → Option Char
  | '\\' => some '\\'
  | '\x27' => some '\x27'
  | '"' => some '"'
  | 'a' => some '\x07'
  | 'b' => some '\x08'
  | 'f' => some '\x0c'
  | 'n' => some '\n'
  | 'r' => some '\r'
  | 't' => some '\t'
  | 'v' => some '\x0b'
  | _ => none

/-- A text with its escapes decoded, of those letters that `known` allows. -/
def unescape (known : Char → Bool) : List Char → List Char
  | '\\' :: c :: cs =>
    match escaped? c with
    | some d => if known c then d :: unescape known cs else '\\' :: unescape known (c :: cs)
    | none => '\\' :: unescape known (c :: cs)
  | c :: cs => c :: unescape known cs
  | [] => []

/-- A text up to a comment, which has a blank before it. -/
def dropComment : List Char → List Char
  | [] => []
  | c :: cs =>
    if isBlank c && (dropBlanks cs).head? == some '#' then [] else c :: dropComment cs

/-- The value with which a text begins, and what follows it. A quoted value may have blanks before
it; any other reaches to a comment or to the end of the line, and has no blanks at its ends. -/
def readValue? (cs : List Char) : Option (List Char × List Char) :=
  match dropInline cs with
  | '\x27' :: rest => (readQuoted? '\x27' rest).map fun (text, rest) =>
    (unescape (fun c => c == '\\' || c == '\x27') text, rest)
  | '"' :: rest => (readQuoted? '"' rest).map fun (text, rest) =>
    (unescape (fun _ => true) text, rest)
  | _ =>
    let line := dropComment (cs.takeWhile (· ≠ '\n'))
    some (trim line, cs.dropWhile (· ≠ '\n'))

/-- Past a comment and the end of the line, if nothing else is left on it. -/
def endOfLine? (cs : List Char) : Option (List Char) :=
  match dropInline cs with
  | [] => some []
  | '\n' :: rest => some rest
  | '#' :: rest => some ((rest.dropWhile (· ≠ '\n')).drop 1)
  | _ => none

/-- Past the end of a line. -/
def nextLine (cs : List Char) : List Char :=
  (cs.dropWhile (· ≠ '\n')).drop 1

/-- A name and the value it is given, if it is given one. -/
abbrev Definition := String × Option (List Char)

/-- The rest of a definition after its name: the value and the lines that follow. A line that does
not end as it should defines nothing. -/
def readDefinition (name : Option (List Char)) (cs : List Char) : Option Definition × List Char :=
  match cs with
  | '=' :: cs =>
    match readValue? cs with
    | none => (none, nextLine cs)
    | some (value, cs) =>
      match endOfLine? cs with
      | some rest => (name.map fun n => (String.ofList n, some value), rest)
      | none => (none, nextLine cs)
  | cs =>
    match endOfLine? cs with
    | some rest => (name.map fun n => (String.ofList n, none), rest)
    | none => (none, nextLine cs)

/-- The definitions of a text, one after another. Each round reads at least a character. -/
def readLines : (fuel : Nat) → List Char → List Definition
  | 0, _ => []
  | fuel + 1, cs =>
    match dropBlanks cs with
    | [] => []
    | c :: cs =>
      let cs := pastExport (c :: cs)
      match readName? cs with
      | none => readLines fuel (nextLine cs)
      | some (name, cs) =>
        let (definition, rest) := readDefinition name (dropInline cs)
        definition.toList ++ readLines fuel rest

/-- What is known of a name: the value of its last definition. -/
def valueOf? {α : Type} (definitions : List (String × α)) (name : String) : Option α :=
  (definitions.reverse.find? (·.1 == name)).map (·.2)

/-- A value with its variables replaced by what `lookup` knows of them. -/
def substitute (lookup : String → Option String) : (fuel : Nat) → List Char → List Char
  | 0, cs => cs
  | _ + 1, [] => []
  | fuel + 1, '$' :: '\x7b' :: cs =>
    let name := cs.takeWhile fun c => c ≠ '\x7d' && c ≠ ':'
    match cs.dropWhile fun c => c ≠ '\x7d' && c ≠ ':' with
    | '\x7d' :: rest =>
      ((lookup (String.ofList name)).getD "").toList ++ substitute lookup fuel rest
    | ':' :: '-' :: rest =>
      match rest.dropWhile (· ≠ '\x7d') with
      | _ :: after =>
        let fallback := String.ofList (rest.takeWhile (· ≠ '\x7d'))
        ((lookup (String.ofList name)).getD fallback).toList ++ substitute lookup fuel after
      | [] => '$' :: '\x7b' :: substitute lookup fuel cs
    | _ => '$' :: '\x7b' :: substitute lookup fuel cs
  | fuel + 1, c :: cs => c :: substitute lookup fuel cs

/-- The definitions with their variables replaced, each by the definitions before it and the
environment. A name that was given no value counts as empty. -/
def resolve (environment : List (String × String)) :
    List (String × Option String) → List Definition → List (String × Option String)
  | done, [] => done
  | done, (name, value) :: rest =>
    let lookup (n : String) : Option String :=
      ((valueOf? done n).map (·.getD "")) <|> valueOf? environment n
    let value := value.map fun v => String.ofList (substitute lookup (v.length + 1) v)
    resolve environment (done ++ [(name, value)]) rest

/-- Line breaks of every form as line feeds. -/
def unifyBreaks : List Char → List Char
  | '\r' :: '\n' :: cs => '\n' :: unifyBreaks cs
  | '\r' :: cs => '\n' :: unifyBreaks cs
  | c :: cs => c :: unifyBreaks cs
  | [] => []

/-- A text without the mark that says in which order its bytes stand. -/
def dropMark : List Char → List Char
  | '\uFEFF' :: cs => cs
  | cs => cs

/-- The names that a file defines, with the values they are given, in the order of the lines. -/
def read (environment : List (String × String)) (text : String) : List (String × Option String) :=
  let cs := unifyBreaks (dropMark text.toList)
  resolve environment [] (readLines (cs.length + 1) cs)

end Reexport.Dotenv
