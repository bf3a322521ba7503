import Reexport.Entry

/-!
# Declared exports

A name that a module declares and exports itself, and how it is declared. Where all the names of a
module are known, an `export *` from it can be written out: `Entry.namesOf` gives the entries.
-/

namespace Reexport

/-- The forms of declarations that export a name. -/
inductive Form where
  /-- A function, a generator or the signature of one. -/
  | function
  /-- A class, abstract or not. -/
  | classForm
  /-- An enumeration. -/
  | enumeration
  /-- A namespace. -/
  | space
  /-- A variable, alone or in a pattern. -/
  | binding
  /-- An interface. -/
  | interface
  /-- A type alias. -/
  | typeAlias
  /-- An item of an export list. -/
  | clause
  /-- A form given by a word of its own. -/
  | other (word : String)
  deriving DecidableEq, Repr

/-- The word for a form. -/
def Form.label : Form → String
  | function => "function"
  | classForm => "class"
  | enumeration => "enum"
  | space => "namespace"
  | binding => "variable"
  | interface => "interface"
  | typeAlias => "type_alias"
  | clause => "clause"
  | other word => word

/-- The form of a word. -/
def Form.ofLabel (label : String) : Form :=
  ([function, classForm, enumeration, space, binding, interface, typeAlias, clause].find?
    (·.label == label)).getD (other label)

/-- Whether such a declaration can be read as one of a type: it declares a type alias, an interface
or an enumeration. -/
def Form.isType : Form → Bool
  | typeAlias | interface | enumeration => true
  | _ => false

/-- A name that a module declares and exports. -/
@[ext]
structure Declared where
  /-- The exported name. -/
  name : String
  /-- Whether the name can only be used as a type. -/
  isTypeOnly : Bool
  /-- How it is declared. -/
  form : Form
  /-- The line of the statement. -/
  line : Int := 0
  name_ne_empty : name ≠ ""
  deriving Repr

instance : DecidableEq Declared := fun _ _ => decidable_of_iff _ Declared.ext_iff.symm

/-- A declared name without text: the one thing that can be wrong with it. -/
inductive Declared.Fault where
  /-- The name is empty. -/
  | emptyName
  deriving DecidableEq, Repr

/-- The wording of the fault. -/
def Declared.Fault.message : Declared.Fault → String
  | emptyName => "DeclaredExport name cannot be empty"

/-- A declared name, unless its text is empty. -/
def Declared.make? (name : String) (isTypeOnly : Bool) (form : Form) (line : Int) :
    Except Declared.Fault Declared :=
  if h : name = "" then .error .emptyName else .ok ⟨name, isTypeOnly, form, line, h⟩

/-- What a module exports by declarations of its own. -/
structure DeclarationScan where
  /-- The exported names, each once, in the order of their first statements. -/
  exports : List Declared := []
  /-- Whether some statement passes on all of another module, so that more names may be exported. -/
  hasStar : Bool := false
  deriving DecidableEq, Repr

/-- The names that can be exported as types. -/
def DeclarationScan.typeDeclarations (scan : DeclarationScan) : List Declared :=
  scan.exports.filter fun d => d.isTypeOnly || d.form.isType

/-! ### Names in place of a star -/

/-- A declared name as a named entry in place of an `export *`. -/
def Entry.ofDeclared (star : Entry) (isTypeOnly : Bool) (d : Declared) : Entry where
  specifier := d.name
  source := star.source
  kind := .named
  isTypeOnly := isTypeOnly
  originLine := star.originLine
  specifier_ne_empty := d.name_ne_empty
  source_ne_empty := star.source_ne_empty
  specifier_of_star := nofun

/-- Named entries for all that a module declares; none if it passes on all of another module. -/
def Entry.namesOf (star : Entry) (scan : DeclarationScan) : List Entry :=
  if scan.hasStar then []
  else scan.exports.map fun d => star.ofDeclared (star.isTypeOnly || d.isTypeOnly) d

/-- Named entries for the types that a module declares. -/
def Entry.typeNamesOf (star : Entry) (scan : DeclarationScan) : List Entry :=
  scan.typeDeclarations.map (star.ofDeclared true)

end Reexport
