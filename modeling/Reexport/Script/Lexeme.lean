/-!
# Pieces of code

The texts of single tokens and of the gaps between them. Each reader takes a text apart: the
characters that belong to the piece with which it begins, and the rest.
-/

namespace Reexport.Script

/-! ### Characters -/

/-- The characters that end a line of code. -/
def isTerminator (c : Char) : Bool :=
  c == '\n' || c == '\r' || c.toNat == 0x2028 || c.toNat == 0x2029

/-- The blanks between tokens. -/
def isSpace (c : Char) : Bool :=
  let n := c.toNat
  (9 ≤ n && n ≤ 13) || n == 0x20 || n == 0xA0 || n == 0x1680 || (0x2000 ≤ n && n ≤ 0x200B) ||
    n == 0x2028 || n == 0x2029 || n == 0x202F || n == 0x205F || n == 0x2060 || n == 0x3000 ||
    n == 0xFEFF

/-- The characters of names: all but blanks, controls and the characters of operators, quotes and
brackets. -/
def isNameChar (c : Char) : Bool :=
  !isSpace c && 32 ≤ c.toNat && !(":;\x60\"\x27@#.,|^&<=>+-*/\\%?!~()[]\x7b\x7d".toList.contains c)

/-- The characters with which a name begins, its escapes apart. -/
def isNameStart (c : Char) : Bool :=
  isNameChar c && !c.isDigit

/-! ### Pieces of one token -/

/-- More characters in front of the first of two texts. -/
def push (taken : List Char) (r : List Char × List Char) : List Char × List Char :=
  (taken ++ r.1, r.2)

/-- What the reader of a gap is inside of. -/
inductive GapPart where
  /-- Blanks. -/
  | blanks
  /-- A comment up to the end of the line. -/
  | lineComment
  /-- A comment up to its closing mark. -/
  | blockComment

/-- The blanks and comments with which a text begins, and the rest. -/
def spanGap : GapPart → List Char → List Char × List Char
  | _, [] => ([], [])
  | .blanks, '/' :: '/' :: cs => push ['/', '/'] (spanGap .lineComment cs)
  | .blanks, '/' :: '*' :: cs => push ['/', '*'] (spanGap .blockComment cs)
  | .blanks, c :: cs => if isSpace c then push [c] (spanGap .blanks cs) else ([], c :: cs)
  | .lineComment, c :: cs =>
    push [c] (spanGap (if isTerminator c then .blanks else .lineComment) cs)
  | .blockComment, '*' :: '/' :: cs => push ['*', '/'] (spanGap .blanks cs)
  | .blockComment, c :: cs => push [c] (spanGap .blockComment cs)

/-- Whether the gap with which a text begins breaks the line outside of its comments. The break at
the end of a line comment is outside of it. -/
def gapBreaks : GapPart → List Char → Bool
  | _, [] => false
  | .blanks, '/' :: '/' :: cs => gapBreaks .lineComment cs
  | .blanks, '/' :: '*' :: cs => gapBreaks .blockComment cs
  | .blanks, c :: cs => c == '\n' || (isSpace c && gapBreaks .blanks cs)
  | .lineComment, c :: cs =>
    c == '\n' || gapBreaks (if isTerminator c then .blanks else .lineComment) cs
  | .blockComment, '*' :: '/' :: cs => gapBreaks .blanks cs
  | .blockComment, _ :: cs => gapBreaks .blockComment cs

/-- The name with which a text begins. An escape `\u` belongs to it, up to the closing brace if it
has one; `braced` says that the reader is inside such an escape. -/
def spanName : (braced : Bool) → List Char → List Char × List Char
  | _, [] => ([], [])
  | true, c :: cs => push [c] (spanName (c ≠ '\x7d') cs)
  | false, '\\' :: 'u' :: '\x7b' :: cs => push ['\\', 'u', '\x7b'] (spanName true cs)
  | false, '\\' :: 'u' :: cs => push ['\\', 'u'] (spanName false cs)
  | false, c :: cs => if isNameChar c then push [c] (spanName false cs) else ([], c :: cs)

/-- The rest of a text in quotes, with its closing quote. -/
def spanQuoted (quote : Char) : List Char → List Char × List Char
  | [] => ([], [])
  | '\\' :: c :: cs => push ['\\', c] (spanQuoted quote cs)
  | c :: cs => if c = quote then ([c], cs) else push [c] (spanQuoted quote cs)

/-- The text of a template up to the back quote that ends it or the brace of an expression in it. -/
def spanTemplate : List Char → List Char × List Char
  | [] => ([], [])
  | '\\' :: c :: cs => push ['\\', c] (spanTemplate cs)
  | '$' :: '\x7b' :: cs => (['$', '\x7b'], cs)
  | c :: cs => if c = '\x60' then ([c], cs) else push [c] (spanTemplate cs)

/-- The rest of a regular expression with its closing slash, which must stand on the same line and
outside of square brackets. -/
def spanRegex? : (inClass : Bool) → List Char → Option (List Char × List Char)
  | _, [] => none
  | inClass, '\\' :: c :: cs =>
    if isTerminator c then none else (spanRegex? inClass cs).map (push ['\\', c])
  | inClass, c :: cs =>
    if isTerminator c then none
    else if c = '/' && !inClass then some ([c], cs)
    else (spanRegex? (c = '[' || (inClass && c ≠ ']')) cs).map (push [c])

/-- Digits and the marks between them. -/
def spanDigits (cs : List Char) : List Char × List Char :=
  (cs.takeWhile fun c => c.isDigit || c == '_', cs.dropWhile fun c => c.isDigit || c == '_')

/-- The characters of a number in another base, or the letter after a number. -/
def spanLetters (cs : List Char) : List Char × List Char :=
  (cs.takeWhile fun c => c.isAlphanum || c == '_', cs.dropWhile fun c => c.isAlphanum || c == '_')

/-- The exponent of a number, if there is one, and the letter after it. -/
def spanExponent : List Char → List Char × List Char
  | e :: sign :: cs =>
    if (e == 'e' || e == 'E') && (sign == '+' || sign == '-') then push [e, sign] (spanLetters cs)
    else spanLetters (e :: sign :: cs)
  | cs => spanLetters cs

/-- The number with which a text begins. -/
def spanNumber (cs : List Char) : List Char × List Char :=
  match cs with
  | '0' :: c :: rest =>
    if c.isAlpha && c != 'e' && c != 'E' then push ['0', c] (spanLetters rest) else spanDecimal cs
  | _ => spanDecimal cs
where
  /-- Digits, an optional fraction and an optional exponent. -/
  spanDecimal (cs : List Char) : List Char × List Char :=
    let (whole, rest) := spanDigits cs
    match rest with
    | '.' :: rest =>
      let (fraction, rest) := spanDigits rest
      push (whole ++ '.' :: fraction) (spanExponent rest)
    | _ => push whole (spanExponent rest)

/-- The operators of more than one character, each before those it begins with. A closing angle
bracket always stands alone, since it may close a list of types. -/
def longMarks : List String :=
  ["...", "===", "!==", "**=", "<<=", "&&=", "||=", "??=", "=>", "==", "!=", "**", "<<", "<=", "&&",
    "||", "??", "++", "--", "+=", "-=", "*=", "/=", "%=", "&=", "|=", "^="]

/-- The operator with which a text begins. The mark `?.` is none before a digit. -/
def spanMark (cs : List Char) : List Char × List Char :=
  match cs with
  | '?' :: '.' :: d :: rest =>
    if d.isDigit then (['?'], '.' :: d :: rest) else (['?', '.'], d :: rest)
  | _ =>
    match longMarks.find? (fun m => m.toList.isPrefixOf cs) with
    | some m => (m.toList, cs.drop m.length)
    | none => (cs.take 1, cs.drop 1)

end Reexport.Script
