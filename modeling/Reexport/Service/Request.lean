import Reexport.Options
import Reexport.Validation

/-!
# Requests to the service

What the service is asked, read from JSON bodies. A body that does not fit is answered with all that
is wrong with it; members that are not known are passed over.
-/

namespace Reexport.Service

open Checked

/-! ### Members -/

/-- The members of an object. -/
def checkRecord : Json → Checked (List (String × Json))
  | .object members => .ok members
  | _ => fail .notRecord

/-- The check of a member that has to be there. -/
def checkMember {α : Type} (given : List (String × Json)) (name : String)
    (check : Json → Checked α) : Checked α :=
  within (.member name) (match given.lookup name with
    | some value => check value
    | none => fail .missing)

/-- The check of a member that may be missing. -/
def checkOptional {α : Type} (given : List (String × Json)) (name : String)
    (check : Json → Checked α) (own : α) : Checked α :=
  match given.lookup name with
  | some value => within (.member name) (check value)
  | none => .ok own

/-- A truth value or `null`. -/
def checkWish : Json → Checked (Option Bool)
  | .null => .ok none
  | value => value.checkTruth.map some

/-- Texts by name, at least one. -/
def checkTexts : Json → Checked (List (String × String))
  | .object [] => fail .noMembers
  | .object members =>
    all (members.map fun (name, value) =>
      within (.member name) (value.checkText.map fun text => (name, text)))
  | _ => fail .notObject

/-! ### Stages -/

/-- The stages asked for; one that is not named goes by the settings. -/
structure Wishes where
  /-- Whether duplicates are dropped. -/
  removeDuplicates : Option Bool := none
  /-- Whether entries are sorted. -/
  sort : Option Bool := none
  /-- Whether barrels are followed. -/
  resolveBarrels : Option Bool := none
  /-- Whether namespaces are written out. -/
  nameStars : Option Bool := none
  deriving DecidableEq, Repr

/-- The stages to go through. -/
def Wishes.over (w : Wishes) (own : Options) : Options where
  removeDuplicates := w.removeDuplicates.getD own.removeDuplicates
  sort := w.sort.getD own.sort
  resolveBarrels := w.resolveBarrels.getD own.resolveBarrels
  nameStars := w.nameStars.getD own.nameStars

/-- The stages asked for in a body. -/
def Wishes.check (body : Json) : Checked Wishes := do
  let given ← checkRecord body
  (both (checkOptional given "remove_duplicates" checkWish none)
    (both (checkOptional given "sort" checkWish none)
      (both (checkOptional given "resolve_barrel_exports" checkWish none)
        (checkOptional given "convert_namespace_to_named" checkWish none)))).map
    fun (removeDuplicates, sort, resolveBarrels, nameStars) =>
      ⟨removeDuplicates, sort, resolveBarrels, nameStars⟩

/-! ### Bodies -/

/-- A barrel and the modules around it. -/
structure BarrelRequest where
  /-- The path of the barrel. -/
  path : String
  /-- The paths and texts of all modules. -/
  files : List (String × String)
  /-- The stages asked for. -/
  wishes : Wishes := {}
  deriving DecidableEq, Repr

/-- A directory on the disk of the service. -/
structure DirectoryRequest where
  /-- The path of the directory. -/
  path : String
  /-- The stages asked for. -/
  wishes : Wishes := {}
  deriving DecidableEq, Repr

/-- The request for a barrel that a body makes. -/
def BarrelRequest.check (body : Json) : Checked BarrelRequest := do
  let given ← checkRecord body
  (both (checkMember given "entry_path" Json.checkText)
    (both (checkMember given "files" checkTexts)
      (checkOptional given "options" Wishes.check {}))).map
    fun (path, files, wishes) => ⟨path, files, wishes⟩

/-- The request for a directory that a body makes. -/
def DirectoryRequest.check (body : Json) : Checked DirectoryRequest := do
  let given ← checkRecord body
  (both (checkMember given "path" Json.checkText)
    (checkOptional given "options" Wishes.check {})).map fun (path, wishes) => ⟨path, wishes⟩

/-- The check of a body that has to be there; `null` counts as none. -/
def checkBody {α : Type} (check : Json → Checked α) (body : Option Json) : Checked α :=
  within (.member "body") (match body.getD .null with
    | .null => fail .missing
    | body => check body)

end Reexport.Service
