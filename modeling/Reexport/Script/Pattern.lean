import Reexport.Script.Extent

/-!
# Binding patterns

What stands before the equals sign of a variable declaration: a name, or an object or array pattern
that takes a value apart and binds names to its parts. `Pattern.names` are the names bound, in their
order; the keys by which parts are picked and the default values bind none.

A `Pattern` is the part of a syntax tree of which `names` is the walk. The readers stand for the parser
that makes the tree, with one habit of it: `ofName`.
-/

namespace Reexport.Script

/-- A binding pattern or a part of one. -/
inductive Pattern where
  /-- A name, which is bound. -/
  | name (text : String)
  /-- A place that binds nothing. -/
  | hole
  /-- The parts of an object pattern. -/
  | object (fields : List Pattern)
  /-- The places of an array pattern. -/
  | array (places : List Pattern)
  /-- A part picked by a key. -/
  | keyed (key : String) (target : Pattern)
  /-- A part with the value it takes where there is none. -/
  | withDefault (target : Pattern) (value : String)
  /-- All that is left. -/
  | rest (target : Pattern)

namespace Pattern

mutual

/-- The names that a pattern binds, each as often as it stands there. -/
def names : Pattern → List String
  | name text => [text]
  | hole => []
  | object fields => namesOfAll fields
  | array places => namesOfAll places
  | keyed _ target => target.names
  | withDefault target _ => target.names
  | rest target => target.names

/-- The names that the parts of a pattern bind. -/
def namesOfAll : List Pattern → List String
  | [] => []
  | p :: ps => p.names ++ namesOfAll ps

end

/-- What the parser makes of a name inside of a pattern. It takes `undefined` for the missing value
there, and the walk finds no name in a value. -/
def ofName (text : String) : Pattern :=
  if text = "undefined" then hole else name text

/-- A pattern with its default value, if one is written, and the cursor past both. -/
def withDefault? (read : Reader) (target : Pattern) (c : Cursor) : Option (Pattern × Cursor) :=
  match c.mark? "=" with
  | none => some (target, c)
  | some d => do
    let e ← read (.expression .valueInside) d
    return (withDefault target (d.textUpTo e), e)

mutual

/-- The pattern inside of another one that follows, and the cursor past it. -/
def read? (read : Reader) : (fuel : Nat) → Cursor → Option (Pattern × Cursor)
  | 0, _ => none
  | fuel + 1, c =>
    match c.char? '\x7b' with
    | some d => do
      let (fields, e) ← readFields? read fuel d
      return (object fields, e)
    | none =>
      match c.char? '[' with
      | some d => do
        let (places, e) ← readPlaces? read fuel d
        return (array places, e)
      | none => c.anyWord?.map fun (text, d) => (ofName text, d)

/-- The parts of an object pattern, from behind the brace, and the cursor past them. -/
def readFields? (read : Reader) : (fuel : Nat) → Cursor → Option (List Pattern × Cursor)
  | 0, _ => none
  | fuel + 1, c =>
    match c.char? '\x7d' with
    | some d => some ([], d)
    | none =>
      match c.mark? "," with
      | some d => readFields? read fuel d
      | none => do
        let (field, d) ← readField? read fuel c
        let (fields, e) ← readFields? read fuel d
        return (field :: fields, e)

/-- One part of an object pattern, and the cursor past it. -/
def readField? (read : Reader) : (fuel : Nat) → Cursor → Option (Pattern × Cursor)
  | 0, _ => none
  | fuel + 1, c =>
    match c.mark? "..." with
    | some d => do
      let (target, e) ← read? read fuel d
      return (rest target, e)
    | none => do
      let d ← readKey? read c
      match d.mark? ":" with
      | some e => do
        let (target, e) ← read? read fuel e
        let (target, e) ← withDefault? read target e
        return (keyed (c.pastGap.textUpTo d) target, e)
      | none => withDefault? read (name (c.pastGap.textUpTo d)) d

/-- The places of an array pattern, from behind the bracket, and the cursor past them. -/
def readPlaces? (read : Reader) : (fuel : Nat) → Cursor → Option (List Pattern × Cursor)
  | 0, _ => none
  | fuel + 1, c =>
    match c.char? ']' with
    | some d => some ([], d)
    | none =>
      match c.mark? "," with
      | some d => do
        let (places, e) ← readPlaces? read fuel d
        return (hole :: places, e)
      | none => do
        let (target, d) ← read? read fuel (c.skip (·.mark? "..."))
        let (target, d) ← withDefault? read target d
        let place := if (c.mark? "...").isSome then rest target else target
        let (places, e) ← readPlaces? read fuel (d.skip (·.mark? ","))
        return (place :: places, e)

end

/-- The pattern of a declaration that follows, and the cursor past it. A pattern has fewer parts,
and is nested less deeply, than its text has characters. -/
def ofCursor? (read : Reader) (c : Cursor) : Option (Pattern × Cursor) :=
  if c.next? == some '\x7b' || c.next? == some '[' then read? read (2 * c.rest.length + 2) c
  else c.anyWord?.map fun (text, d) => (name text, d)

end Pattern

/-- The patterns of a variable declaration whose keyword is read: each with an optional annotation
and an optional value, and a comma between two of them. -/
def declarators (read : Reader) : (fuel : Nat) → Cursor → List Pattern
  | 0, _ => []
  | fuel + 1, c =>
    match Pattern.ofCursor? read c with
    | none => []
    | some (pattern, d) =>
      let more := (readDeclaratorRest read .valueAtEnd d).bind (·.mark? ",")
      pattern :: (more.map (declarators read fuel)).getD []

end Reexport.Script
