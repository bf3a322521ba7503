/-!
# Options

The stages that a barrel goes through. A stage that is off leaves the entries as they are.
-/

namespace Reexport

/-- Which stages are on. -/
structure Options where
  /-- Entries of one identity are written once. -/
  removeDuplicates : Bool := true
  /-- Entries are sorted by source and name. -/
  sort : Bool := false
  /-- Barrels behind the entries are followed. -/
  resolveBarrels : Bool := false
  /-- An `export *` from a module that is no barrel becomes a list of names. -/
  nameStars : Bool := false
  deriving DecidableEq, Repr

/-- A truth value in the listing of options. -/
def Options.word (b : Bool) : String :=
  if b then "True" else "False"

/-- The listing of options in log lines. -/
def Options.listing (o : Options) : String :=
  "LoaderOptions(remove_duplicates=" ++ word o.removeDuplicates ++ ", sort=" ++ word o.sort ++
    ", resolve_barrel_exports=" ++ word o.resolveBarrels ++ ", convert_namespace_to_named=" ++
    word o.nameStars ++ ")"

end Reexport
