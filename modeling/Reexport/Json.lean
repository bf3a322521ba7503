/-!
# JSON values

Values as they travel in request bodies, in settings and in log lines. The members of an object keep
the order in which they are written, and a number written with a fraction or an exponent is told
apart from an integer. Besides the numbers there are the three words that stand for results of
arithmetic that are none.
-/

namespace Reexport

/-- What stands in the place of a number that does not exist. -/
inductive NonNumber where
  /-- A result without meaning. -/
  | undefined
  /-- A result above all numbers. -/
  | infinity
  /-- A result below all numbers. -/
  | negativeInfinity
  deriving DecidableEq, Repr

/-- The word for what is no number. -/
def NonNumber.word : NonNumber → String
  | undefined => "NaN"
  | infinity => "Infinity"
  | negativeInfinity => "-Infinity"

/-- All that is no number. -/
def NonNumber.all : List NonNumber :=
  [undefined, infinity, negativeInfinity]

/-- A JSON value. -/
inductive Json where
  /-- The value `null`. -/
  | null
  /-- `true` or `false`. -/
  | bool (b : Bool)
  /-- A number written with digits and a sign only. -/
  | int (n : Int)
  /-- A number written with a fraction or an exponent: `digits · 10 ^ exponent`. -/
  | decimal (digits exponent : Int)
  /-- A word in the place of a number. -/
  | nonNumber (n : NonNumber)
  /-- A text. -/
  | string (s : String)
  /-- A list of values. -/
  | array (items : List Json)
  /-- Named values, in the order written. -/
  | object (members : List (String × Json))
  deriving Inhabited

namespace Json

/-- The value of a member, if the value is an object that has it. -/
def member? (name : String) : Json → Option Json
  | object members => (members.find? (·.1 == name)).map (·.2)
  | _ => none

/-- The text, if the value is one. -/
def string? : Json → Option String
  | string s => some s
  | _ => none

mutual

/-- Whether a word stands in the place of a number anywhere in a value. -/
def holdsNonNumber : Json → Bool
  | nonNumber _ => true
  | array items => someHoldsNonNumber items
  | object members => memberHoldsNonNumber members
  | _ => false

/-- Whether a word stands in the place of a number anywhere in some values. -/
def someHoldsNonNumber : List Json → Bool
  | [] => false
  | item :: rest => item.holdsNonNumber || someHoldsNonNumber rest

/-- Whether a word stands in the place of a number anywhere in some members. -/
def memberHoldsNonNumber : List (String × Json) → Bool
  | [] => false
  | (_, value) :: rest => value.holdsNonNumber || memberHoldsNonNumber rest

end

/-- A text or `null`. -/
def ofString? : Option String → Json
  | some s => string s
  | none => null

/-- A number without a sign. -/
def ofNat (n : Nat) : Json :=
  int n

/-- A member put last, or in the place of the member of that name. -/
def setMember (members : List (String × Json)) (name : String) (value : Json) :
    List (String × Json) :=
  if members.any (·.1 == name) then
    members.map fun m => if m.1 == name then (name, value) else m
  else members ++ [(name, value)]

end Json

end Reexport
