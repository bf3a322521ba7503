import Reexport.Statement
import Reexport.Text.Blank
import Reexport.Text.Line
import Reexport.Text.Split
import Reexport.Text.Word

/-!
# Reading re-export statements

A re-export statement fills the beginning of a line. With `W` for blanks, `W1` for at least one
blank, `A` for a word and `S` for a text without quotes between two quotes of one form, it is one of

* `export W1 [type W] * W [as W1 A W] from W S`
* `export W1 [type W] { items } W from W S`

What follows the source on the line is not looked at. Where a word after `as` can end in more than
one place, because `from` follows it without a blank, the longest word is taken. A line of any other
form holds no entry, and an item of any other form than `[type W1] A [W1 as W1 A]` is passed over,
so that reading never fails.
-/

namespace Reexport

namespace Statement

open Text

/-- The two quotes. -/
def isQuote (c : Char) : Bool :=
  c == '"' || c == '\x27'

theorem isQuote_iff {c : Char} : isQuote c = true ↔ c = '"' ∨ c = '\x27' := by
  simp [isQuote]

/-- A module specifier: a text that is not empty. -/
abbrev Source := { s : String // s ≠ "" }

/-- A text that has a first character is not empty. -/
def sourceOf (c : Char) (cs : List Char) : Source :=
  ⟨String.ofList (c :: cs), by simp⟩

/-- The source after `from`: a text in quotes, blanks before it allowed. -/
def quoted? (cs : List Char) : Option Source :=
  match dropBlanks cs with
  | [] => none
  | quote :: cs =>
    if isQuote quote then
      match cs.takeWhile (!isQuote ·), cs.dropWhile (!isQuote ·) with
      | c :: text, close :: _ => if close = quote then some (sourceOf c text) else none
      | _, _ => none
    else none

/-- The source of a text that begins with `from`. -/
def fromClause? (cs : List Char) : Option Source :=
  (dropText? "from".toList cs).bind quoted?

/-- The longest alias that leaves a source behind it, of a word given backwards and the text after
it. -/
def aliasFrom? : List Char → List Char → Option (List Char × Source)
  | [], _ => none
  | c :: back, rest =>
    match fromClause? (dropBlanks rest) with
    | some source => some ((c :: back).reverse, source)
    | none => aliasFrom? back (c :: rest)

/-- The alias and the source of a text that begins with `as`. -/
def asClause? (cs : List Char) : Option (List Char × Source) := do
  let cs ← dropText? "as".toList cs
  let cs ← dropBlanks1? cs
  let (word, rest) := spanWord cs
  aliasFrom? word.reverse rest

/-- The optional word `type`, with the blanks after it, and the text that follows. -/
def typeMark (cs : List Char) : Bool × List Char :=
  match dropText? "type".toList cs with
  | some rest => (true, dropBlanks rest)
  | none => (false, cs)

end Statement

namespace Item

open Text

/-- A name with an optional alias, filling a whole text. -/
def binding? (isTypeOnly : Bool) (cs : List Char) : Option Item :=
  match spanWord cs with
  | ([], _) => none
  | (c :: name, rest) =>
    let item (asName : Option String) : Item :=
      ⟨String.ofList (c :: name), asName, isTypeOnly, by simp⟩
    if rest.isEmpty then some (item none)
    else do
      let cs ← dropBlanks1? rest
      let cs ← dropText? "as".toList cs
      let cs ← dropBlanks1? cs
      match spanWord cs with
      | (asName, []) => if asName.isEmpty then none else some (item (String.ofList asName))
      | _ => none

/-- A name after the mark `type`. -/
def marked? (cs : List Char) : Option Item := do
  let cs ← dropText? "type".toList cs
  let cs ← dropBlanks1? cs
  binding? true cs

/-- One item of an export list, without blanks around it. The word `type` is a mark where a name
follows that fills the rest, and a name otherwise. -/
def read? (cs : List Char) : Option Item :=
  marked? cs <|> binding? false cs

/-- The items of an export list; pieces that are no items are passed over. -/
def readList (cs : List Char) : List Item :=
  (split ',' cs).filterMap fun piece => read? (trim piece)

end Item

namespace Statement

open Text

/-- The statement that a text without blanks before it begins with. -/
def read? (cs : List Char) : Option Statement := do
  let cs ← dropText? "export".toList cs
  let cs ← dropBlanks1? cs
  let (isTypeOnly, cs) := typeMark cs
  match cs with
  | '*' :: cs =>
    let cs := dropBlanks cs
    match asClause? cs with
    | some (asName, source) =>
      some ⟨isTypeOnly, .star (String.ofList asName), source.1, source.2⟩
    | none => (fromClause? cs).map fun source => ⟨isTypeOnly, .star none, source.1, source.2⟩
  | '\x7b' :: cs =>
    match cs.dropWhile (· ≠ '\x7d') with
    | [] => none
    | _ :: rest => (fromClause? (dropBlanks rest)).map fun source =>
      ⟨isTypeOnly, .list (Item.readList (cs.takeWhile (· ≠ '\x7d'))), source.1, source.2⟩
  | _ => none

/-- The statement of a line. -/
def ofLine? (line : List Char) : Option Statement :=
  read? (trim line)

end Statement

open Text

/-- The entries of one line. -/
def lineEntries (line : List Char) (number : Nat) : List Entry :=
  match Statement.ofLine? line with
  | some s => s.entries number
  | none => []

/-- The entries of a line with any number; one below zero is refused as soon as an entry has to
carry it. -/
def lineEntries? (line : List Char) (number : Int) : Except Entry.Fault (List Entry) :=
  let entries := lineEntries line number.toNat
  if number < 0 ∧ entries ≠ [] then .error .negativeLine else .ok entries

/-- The entries of lines that are counted on from the given number. -/
def linesEntries : Nat → List (List Char) → List Entry
  | _, [] => []
  | n, line :: rest => lineEntries line n ++ linesEntries (n + 1) rest

/-- The entries of a module, statement by statement. Reading a text never fails. -/
def moduleEntries (text : String) : List Entry :=
  linesEntries 1 (lines text.toList)

end Reexport
