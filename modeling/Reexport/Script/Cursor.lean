import Reexport.Script.Lexeme

/-!
# A place in code

A `Cursor` stands behind a token, in front of the gap that follows it. Its readers pass that gap and
one token, and fail if the token is another one. `Cursor.semicolonDue` says whether a statement that
may end at the cursor does end there without a semicolon: it does so before a closing brace, at the
end of the text, and at a line break outside of comments unless the text behind the break begins
like the rest of the statement.
-/

namespace Reexport.Script

/-- The text still to be read, and the line on which it begins. -/
structure Cursor where
  /-- The text still to be read. -/
  rest : List Char
  /-- Its line, counted from 1. -/
  line : Nat

namespace Cursor

/-- Past the characters taken. -/
def past (c : Cursor) (split : List Char × List Char) : Cursor :=
  ⟨split.2, c.line + split.1.count '\n'⟩

/-- Past blanks and comments, so that a token follows. -/
def pastGap (c : Cursor) : Cursor :=
  c.past (spanGap .blanks c.rest)

/-- Past one character that breaks no line. -/
def tail (c : Cursor) : Cursor :=
  ⟨c.rest.drop 1, c.line⟩

/-- The first character of the next token. -/
def next? (c : Cursor) : Option Char :=
  c.pastGap.rest.head?

/-- Whether a line ends before the next token. -/
def breaks (c : Cursor) : Bool :=
  (spanGap .blanks c.rest).1.any isTerminator

/-- The text between two cursors, the second one behind the first one. -/
def textUpTo (c d : Cursor) : String :=
  String.ofList (c.rest.take (c.rest.length - d.rest.length))

/-! ### Tokens -/

/-- Past the given character. -/
def char? (ch : Char) (c : Cursor) : Option Cursor :=
  let d := c.pastGap
  if d.rest.head? == some ch then some d.tail else none

/-- Past the given operator, which must not be the beginning of a longer one. -/
def mark? (mark : String) (c : Cursor) : Option Cursor :=
  let d := c.pastGap
  let split := spanMark d.rest
  if split.1 == mark.toList then some (d.past split) else none

/-- Past one of the given operators. -/
def markOf? (marks : List String) (c : Cursor) : Option Cursor :=
  let d := c.pastGap
  let split := spanMark d.rest
  if marks.any (·.toList == split.1) then some (d.past split) else none

/-- The name or keyword that follows, and the cursor past it. -/
def anyWord? (c : Cursor) : Option (String × Cursor) :=
  let d := c.pastGap
  match d.rest with
  | [] => none
  | ch :: _ =>
    if isNameStart ch || ch == '\\' then
      let split := spanName false d.rest
      some (String.ofList split.1, d.past split)
    else none

/-- Past the given name or keyword. -/
def word? (word : String) (c : Cursor) : Option Cursor :=
  match c.anyWord? with
  | some (found, d) => if found == word then some d else none
  | none => none

/-- Past one of the given names or keywords. -/
def wordOf? (words : List String) (c : Cursor) : Option Cursor :=
  match c.anyWord? with
  | some (found, d) => if words.contains found then some d else none
  | none => none

/-- Past a name that is private to a class. -/
def privateName? (c : Cursor) : Option Cursor :=
  let d := c.pastGap
  match d.rest with
  | '#' :: ch :: _ =>
    if isNameStart ch || ch == '\\' then some (d.tail.past (spanName false d.tail.rest)) else none
  | _ => none

/-- Past a text in quotes. -/
def string? (c : Cursor) : Option Cursor :=
  let d := c.pastGap
  match d.rest with
  | [] => none
  | ch :: _ =>
    if ch == '"' || ch == '\x27' then some (d.tail.past (spanQuoted ch d.tail.rest)) else none

/-- Past a number. -/
def number? (c : Cursor) : Option Cursor :=
  let d := c.pastGap
  match d.rest with
  | [] => none
  | ch :: cs =>
    if ch.isDigit || (ch == '.' && (cs.head?.map Char.isDigit).getD false) then
      some (d.past (spanNumber d.rest))
    else none

/-- Past a regular expression and its flags. -/
def regex? (c : Cursor) : Option Cursor := do
  let d ← c.char? '/'
  let body ← spanRegex? false d.rest
  let d := d.past body
  return d.past (spanLetters d.rest)

/-- Past a mark that may be missing. -/
def skip (find : Cursor → Option Cursor) (c : Cursor) : Cursor :=
  (find c).getD c

/-! ### The end of a statement -/

/-- Whether a text on a new line begins a new statement and does not go on with the one before it.
`operates` says that an operator may follow that statement, so that a bracket would go on with it.
-/
def opensStatement (operates : Bool) : List Char → Bool
  | [] => true
  | ch :: cs =>
    if "\x60,.;*%><=?^|&/:".toList.contains ch then false
    else if ch == '(' || ch == '[' then !operates
    else if ch == '+' || ch == '-' then cs.head? == some ch
    else if ch == '!' then cs.head? != some '='
    else if ch == 'i' then
      match cs with
      | 'n' :: cs =>
        if !goesOn cs then false
        else match dropWord "stanceof".toList cs with
          | some cs => goesOn cs
          | none => true
      | _ => true
    else true
where
  /-- Whether a text goes on with a letter. -/
  goesOn (cs : List Char) : Bool :=
    (cs.head?.map fun ch => ch.isAlpha || 0xAA ≤ ch.toNat).getD false
  /-- What follows the given text. -/
  dropWord (word cs : List Char) : Option (List Char) :=
    if word.isPrefixOf cs then some (cs.drop word.length) else none

/-- Whether a statement that may end here ends without a semicolon. A closing brace with a colon
behind it ends none, unless an operator may follow. -/
def semicolonDue (operates : Bool) (c : Cursor) : Bool :=
  match c.pastGap.rest with
  | [] => true
  | '\x7d' :: cs =>
    gapBreaks .blanks c.rest || operates || (cs.dropWhile isSpace).head? != some ':'
  | cs => gapBreaks .blanks c.rest && opensStatement operates cs

end Cursor

end Reexport.Script
