/-!
# Re-export entries

An `Entry` is one binding that a module passes on from another module. The text of an entry is never
empty, and only a whole namespace is named by a star: `Entry` carries both facts, and
`Entry.Draft.check` says what is wrong with a draft that breaks them. `Entry.forwardedThrough` is an
entry as seen through an `export *` of the module that holds it.
-/

namespace Reexport

/-- The form in which a binding is passed on. -/
inductive Kind where
  /-- A name, as in `export { a } from "src"`. -/
  | named
  /-- The default binding, as in `export { default } from "src"`. -/
  | default
  /-- All of a module, as in `export * from "src"`. -/
  | star
  deriving DecidableEq, Repr

/-- The word for a kind. -/
def Kind.label : Kind → String
  | named => "named"
  | default => "default"
  | star => "namespace"

/-- The kind of a word. -/
def Kind.ofLabel? (label : String) : Option Kind :=
  [named, default, star].find? (·.label == label)

/-- The specifier of a whole namespace. -/
def starSpecifier : String := "*"

/-- The specifier of the default binding. -/
def defaultSpecifier : String := "default"

/-- One re-exported binding. -/
structure Entry where
  /-- The name in the source module, `*` or `default`. -/
  specifier : String
  /-- The module specifier exactly as written. -/
  source : String
  /-- The form of the binding. -/
  kind : Kind
  /-- The name after `as`. -/
  asName : Option String := none
  /-- Whether the binding is passed on as a type. -/
  isTypeOnly : Bool := false
  /-- The line of the statement, counted from 1; 0 if there is none. -/
  originLine : Nat := 0
  specifier_ne_empty : specifier ≠ ""
  source_ne_empty : source ≠ ""
  specifier_of_star : kind = .star → specifier = starSpecifier
  deriving DecidableEq, Repr

namespace Entry

/-- The name under which an importer sees the binding. An empty alias counts as none. -/
def exportedName (e : Entry) : String :=
  match e.asName with
  | some a => if a = "" then e.specifier else a
  | none => e.specifier

theorem exportedName_ne_empty (e : Entry) : e.exportedName ≠ "" := by
  unfold exportedName
  split
  · split
    · exact e.specifier_ne_empty
    · assumption
  · exact e.specifier_ne_empty

/-- What two entries must share to be duplicates of one another: all but the line, with the exported
name for specifier and alias. -/
structure Identity where
  /-- The exported name. -/
  name : String
  /-- The source as written. -/
  source : String
  /-- The form of the binding. -/
  kind : Kind
  /-- Whether it is a type. -/
  isTypeOnly : Bool
  deriving DecidableEq, Repr

/-- The identity of an entry. -/
def identity (e : Entry) : Identity :=
  ⟨e.exportedName, e.source, e.kind, e.isTypeOnly⟩

/-- A specifier is relative if it begins with a dot. -/
def isRelativeSource (source : String) : Bool :=
  source.toList.head? == some '.'

/-- Whether the entry leads to a module of the same project. -/
def isRelative (e : Entry) : Bool :=
  isRelativeSource e.source

/-- Whether the entry is an `export *` that binds no name. -/
def isBareStar (e : Entry) : Bool :=
  e.kind = .star && e.asName.isNone

/-- The entry as seen through an `export *` from `source`. A bare namespace stays one; any other
entry becomes a plain name; the default binding does not pass. -/
def forwardedThrough (e : Entry) (source : String) (typeOnly : Bool) (h : source ≠ "") :
    Option Entry :=
  if e.isBareStar then
    some { e with source, isTypeOnly := e.isTypeOnly || typeOnly, source_ne_empty := h }
  else if e.exportedName = defaultSpecifier then none
  else some {
    specifier := e.exportedName
    source
    kind := .named
    isTypeOnly := e.isTypeOnly || typeOnly
    originLine := e.originLine
    specifier_ne_empty := e.exportedName_ne_empty
    source_ne_empty := h
    specifier_of_star := nofun }

/-- What can be wrong with the text of an entry. -/
inductive Fault where
  /-- The specifier is empty. -/
  | emptySpecifier
  /-- The source is empty. -/
  | emptySource
  /-- A namespace is named by something else than a star. -/
  | namedStar
  /-- The line is negative. -/
  | negativeLine
  deriving DecidableEq, Repr

/-- The wording of a fault. -/
def Fault.message : Fault → String
  | emptySpecifier => "ExportEntry specifier cannot be empty"
  | emptySource => "ExportEntry source cannot be empty"
  | namedStar => "namespace exports must use the '*' specifier"
  | negativeLine => "origin_line must be >= 0"

/-- Whether an `export *` of the module that holds the entry passes it on. -/
def passesStar (e : Entry) : Bool :=
  e.isBareStar || e.exportedName ≠ defaultSpecifier

/-- The entry as seen through an `export *` from any text; an empty one is refused where an entry
would have to name it. -/
def forward (e : Entry) (source : String) (typeOnly : Bool) : Except Fault (Option Entry) :=
  if h : source = "" then
    if e.passesStar then .error .emptySource else .ok none
  else .ok (e.forwardedThrough source typeOnly h)

/-- The parts of an entry, not yet known to fit together. -/
structure Draft where
  /-- The name in the source module. -/
  specifier : String
  /-- The module specifier. -/
  source : String
  /-- The form of the binding. -/
  kind : Kind
  /-- The name after `as`. -/
  asName : Option String := none
  /-- Whether the binding is passed on as a type. -/
  isTypeOnly : Bool := false
  /-- The line of the statement. -/
  originLine : Int := 0
  deriving DecidableEq, Repr

/-- The entry of a draft, or the first thing that is wrong with it. -/
def Draft.check (d : Draft) : Except Fault Entry :=
  if h₁ : d.specifier = "" then .error .emptySpecifier
  else if h₂ : d.source = "" then .error .emptySource
  else if h₃ : d.kind = .star ∧ d.specifier ≠ starSpecifier then .error .namedStar
  else if d.originLine < 0 then .error .negativeLine
  else .ok {
    specifier := d.specifier
    source := d.source
    kind := d.kind
    asName := d.asName
    isTypeOnly := d.isTypeOnly
    originLine := d.originLine.toNat
    specifier_ne_empty := h₁
    source_ne_empty := h₂
    specifier_of_star := fun hk => Decidable.byContradiction fun hs => h₃ ⟨hk, hs⟩ }

end Entry

/-- A module is a barrel if it passes on something from a relative source. -/
def isBarrel (entries : List Entry) : Bool :=
  entries.any (·.isRelative)

end Reexport
