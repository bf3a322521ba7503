import Reexport.Entry

/-!
# Re-export statements

The statements that pass bindings on from another module, `export * from` and `export { … } from`,
and the entries they stand for.
-/

namespace Reexport

/-- One item of an export list, such as `a`, `a as b` or `type a`. -/
@[ext]
structure Item where
  /-- The name in the source module. -/
  name : String
  /-- The name after `as`. -/
  asName : Option String
  /-- Whether the item is marked as a type. -/
  isTypeOnly : Bool
  name_ne_empty : name ≠ ""
  deriving Repr

instance : DecidableEq Item := fun _ _ => decidable_of_iff _ Item.ext_iff.symm

/-- What a statement passes on. -/
inductive Clause where
  /-- The whole namespace, under one name or as it is. -/
  | star (asName : Option String)
  /-- The items of a list. -/
  | list (items : List Item)
  deriving DecidableEq, Repr

/-- A statement that passes bindings on. -/
@[ext]
structure Statement where
  /-- Whether the whole statement is marked as a type. -/
  isTypeOnly : Bool
  /-- What it passes on. -/
  clause : Clause
  /-- The module specifier. -/
  source : String
  source_ne_empty : source ≠ ""
  deriving Repr

instance : DecidableEq Statement := fun _ _ => decidable_of_iff _ Statement.ext_iff.symm

/-- The kind of a binding of this name in an export list. -/
def Item.kind (item : Item) : Kind :=
  if item.name = defaultSpecifier then .default else .named

theorem Item.kind_ne_star (item : Item) : item.kind ≠ .star := by
  unfold Item.kind
  split <;> simp

namespace Statement

/-- The entry of an item of a statement. An alias that repeats the name is dropped. -/
def itemEntry (s : Statement) (line : Nat) (item : Item) : Entry where
  specifier := item.name
  source := s.source
  kind := item.kind
  asName := if item.asName = some item.name then none else item.asName
  isTypeOnly := s.isTypeOnly || item.isTypeOnly
  originLine := line
  specifier_ne_empty := item.name_ne_empty
  source_ne_empty := s.source_ne_empty
  specifier_of_star h := absurd h item.kind_ne_star

/-- The entry of a statement that passes on a whole namespace. -/
def starEntry (s : Statement) (line : Nat) (asName : Option String) : Entry where
  specifier := starSpecifier
  source := s.source
  kind := .star
  asName := asName
  isTypeOnly := s.isTypeOnly
  originLine := line
  specifier_ne_empty := by decide
  source_ne_empty := s.source_ne_empty
  specifier_of_star _ := rfl

/-- The entries of a statement that stands on the given line. -/
def entries (s : Statement) (line : Nat) : List Entry :=
  match s.clause with
  | .star asName => [s.starEntry line asName]
  | .list items => items.map (s.itemEntry line)

end Statement

end Reexport
