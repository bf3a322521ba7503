import Reexport.Declared
import Reexport.Event
import Reexport.Locate
import Reexport.Script.Export
import Reexport.Statement.Reader

/-!
# Following re-exports

`Resolver.resolveFile` follows the re-exports of a module to where they lead. An entry whose source
is a module of its own stays as it is; an `export *` from another barrel is replaced by what that
barrel passes on, with the source as the first barrel writes it; and a name passed on from a barrel
becomes a type if the barrel passes it on as one.

What is known of the modules seen so far is kept in a `Context`, so that a module is read once and a
cycle ends where it closes. Modules that cannot be read, and specifiers that lead nowhere, leave
their entries as they are.
-/

namespace Reexport

/-! ### Context -/

/-- What is known of the modules seen so far. -/
structure Context where
  /-- The normal paths of the modules that were taken up. -/
  visited : List String := []
  /-- The entries of the modules that are finished, in the order in which they were first
  recorded. -/
  resolved : List (String × List Entry) := []
  deriving DecidableEq, Repr

namespace Context

/-- Marks a module as taken up. -/
def visit (c : Context) (path : String) : Context :=
  if path ∈ c.visited then c else { c with visited := c.visited ++ [path] }

/-- The entries of a module that is finished. -/
def recorded? (c : Context) (path : String) : Option (List Entry) :=
  c.resolved.lookup path

/-- Records the entries of a module, in place of those recorded before. -/
def record (c : Context) (path : String) (entries : List Entry) : Context :=
  if c.resolved.any (·.1 == path) then
    { c with resolved := c.resolved.map fun r => if r.1 == path then (path, entries) else r }
  else { c with resolved := c.resolved ++ [(path, entries)] }

end Context

/-- What a run of the resolver leaves behind: the context and the events reported. -/
structure Progress where
  /-- What is known of the modules seen so far. -/
  context : Context := {}
  /-- The events reported, the first one first. -/
  log : List Event := []

/-- What ends the following of re-exports before it is done. -/
inductive Interruption where
  /-- A module exports a name without text. -/
  | declared (fault : Declared.Fault)
  /-- Reading a module broke off. -/
  | broken (text : String)
  /-- A path can be that of no module. -/
  | unnamable
  deriving DecidableEq, Repr

/-- The wording of an interruption. -/
def Interruption.message : Interruption → String
  | declared fault => fault.message
  | broken text => text
  | unnamable => Unreadable.unnamable.reason

/-- The interruption to which a failure to read leads, if it is not one that is merely reported. -/
def Unreadable.interruption? : Unreadable → Option Interruption
  | broken text => some (.broken text)
  | unnamable => some .unnamable
  | _ => none

/-- A computation that follows re-exports. The progress made before an interruption is kept. -/
abbrev Resolving := ExceptT Interruption (StateM Progress)

namespace Resolving

/-- Reports an event. -/
def report (event : Event) : Resolving Unit :=
  modify fun p => { p with log := p.log ++ [event] }

/-- What is known of the modules seen so far. -/
def context : Resolving Context := do
  return (← get).context

/-- Changes what is known. -/
def updateContext (f : Context → Context) : Resolving Unit :=
  modify fun p => { p with context := f p.context }

end Resolving

/-! ### Merging -/

/-- Entries with the same key cannot stand side by side in one barrel. -/
structure MergeKey where
  /-- The exported name. -/
  name : String
  /-- The form of the binding. -/
  kind : Kind
  /-- Whether it is a type. -/
  isTypeOnly : Bool
  /-- The source of a bare `export *`, which has no name of its own; empty for any other entry. -/
  source : String
  deriving DecidableEq, Repr

/-- The key of an entry. -/
def Entry.mergeKey (e : Entry) : MergeKey :=
  ⟨e.exportedName, e.kind, e.isTypeOnly, if e.isBareStar then e.source else ""⟩

/-- Adds an entry, in the place of the one with its key if there is one. -/
def mergeEntry (entries : List Entry) (e : Entry) : List Entry :=
  if entries.any (·.mergeKey == e.mergeKey) then
    entries.map fun old => if old.mergeKey == e.mergeKey then e else old
  else entries ++ [e]

/-! ### Inlining a barrel -/

/-- An entry of a barrel as seen through an `export *` from that barrel. -/
def Entry.through (star nested : Entry) : Option Entry :=
  (nested.forwardedThrough star.source star.isTypeOnly star.source_ne_empty).map
    fun e => { e with originLine := star.originLine }

/-- Whether a barrel passes on, as a type, the name that an entry takes from it. -/
def Entry.isTypeIn (e : Entry) (nested : List Entry) : Bool :=
  !e.isTypeOnly && nested.any fun n =>
    n.kind ≠ .star && n.exportedName = e.specifier && n.isTypeOnly

/-- What takes the place of an entry whose source is a barrel with the given entries. -/
def Entry.inlined (e : Entry) (nested : List Entry) : List Entry :=
  if nested.isEmpty then [e]
  else if e.isBareStar then
    match nested.filterMap e.through with
    | [] => [e]
    | spliced => spliced
  else if e.kind = .star then [e]
  else if e.isTypeIn nested then [{ e with isTypeOnly := true }]
  else [e]

/-! ### The resolver -/

/-- What a resolver works on. -/
structure Resolver where
  /-- Where the modules are kept. -/
  files : Files
  /-- Whether an `export *` from a module that is no barrel is written out as a list of names. -/
  flatten : Bool := false

namespace Resolver

open Resolving

/-- The text of a module, if it can be had. A failure is reported. -/
def readModule (r : Resolver) (path : String) : Resolving (Option String) := do
  match r.files.read path with
  | .ok content => return some content
  | .error why =>
    if let some interruption := why.interruption? then throw interruption
    if let .tooLarge size limit := why then report (.tooLarge path size limit)
    report (.sourceUnreadable path why.reason)
    return none

/-- The names that a module exports by statements of its own. -/
def scanModule (path content : String) : Resolving DeclarationScan :=
  ExceptT.mk (pure ((scan path content).mapError .declared))

/-- Named entries for the types of a module that takes the place of an `export *`. -/
def typeNames (e : Entry) (target content : String) : Resolving (List Entry) := do
  let names := e.typeNamesOf (← scanModule target content)
  unless names.isEmpty do
    report (.typesRecovered e.source target names.length)
  return names

/-- What takes the place of an entry whose source is no barrel. -/
def leafEntries (r : Resolver) (e : Entry) (target content : String) : Resolving (List Entry) := do
  let types ←
    if e.isBareStar && (moduleEntries content).isEmpty && isTypesModule e.source target then
      typeNames e target content
    else pure []
  if !types.isEmpty then return types
  let names ←
    if r.flatten && e.isBareStar then
      pure (e.namesOf (← scanModule target content))
    else pure []
  return if names.isEmpty then [e] else names

/-- What takes the place of an entry; `descend` finds the entries of a barrel. -/
def resolveEntry (r : Resolver) (descend : String → Resolving (List Entry)) (directory : String)
    (e : Entry) : Resolving (List Entry) := do
  if !e.isRelative then return [e]
  match locate r.files moduleExtensions e.source directory with
  | none =>
    report (.sourceUnresolved e.source directory)
    return [e]
  | some target =>
    match ← r.readModule target with
    | none => return [e]
    | some content =>
      if isBarrel (moduleEntries content) then return e.inlined (← descend target)
      else r.leafEntries e target content

/-- What takes the place of entries, one after another, merged into those already found. -/
def resolveAll (r : Resolver) (descend : String → Resolving (List Entry)) (directory : String) :
    List Entry → List Entry → Resolving (List Entry)
  | found, [] => return found
  | found, e :: rest => do
    let new ← r.resolveEntry descend directory e
    r.resolveAll descend directory (new.foldl mergeEntry found) rest

/-- The entries of a module with the given normal path and text. -/
def resolveContent (r : Resolver) (descend : String → Resolving (List Entry))
    (path content : String) : Resolving (List Entry) := do
  let entries := moduleEntries content
  let found ← r.resolveAll descend (Path.directory path) [] entries
  report (.moduleResolved path entries.length found.length)
  return found

/-- The entries of the module at a path. A module that is finished gives what is recorded for it,
one that is still being resolved gives nothing. -/
def resolvePath (r : Resolver) (descend : String → Resolving (List Entry)) (path : String) :
    Resolving (List Entry) := do
  let path := Path.normalize path
  let known ← context
  match known.recorded? path with
  | some entries => return entries
  | none =>
    if path ∈ known.visited then
      report (.cycleSkipped path)
      return []
    updateContext (·.visit path)
    match ← r.readModule path with
    | none => return []
    | some content =>
      let entries ← r.resolveContent descend path content
      updateContext (·.record path entries)
      return entries

/-- The entries of the module at a path, through at most `depth` barrels one inside the other. -/
def resolveWithin (r : Resolver) : (depth : Nat) → String → Resolving (List Entry)
  | 0, _ => return []
  | depth + 1, path => r.resolvePath (r.resolveWithin depth) path

/-- A depth that no chain of barrels reaches: each barrel of a chain is taken up once, all but the
first are modules of the place, and the last call of a chain takes up none. -/
def depth (r : Resolver) : Nat :=
  r.files.capacity + 2

/-- The entries of the module at a path. -/
def resolveFile (r : Resolver) (path : String) : Resolving (List Entry) :=
  r.resolveWithin r.depth path

/-- The entries of a module whose text is at hand. -/
def resolveSource (r : Resolver) (content path : String) : Resolving (List Entry) := do
  let path := Path.normalize path
  updateContext (·.visit path)
  r.resolveContent (r.resolveWithin r.depth) path content

/-- The names behind an `export *` from a module that is no barrel. There is no answer if the entry
is of another form, or if the module cannot be read, is a barrel, passes on all of another module or
exports nothing. -/
def expandStar (r : Resolver) (e : Entry) (directory : String) :
    Resolving (Option (List Entry)) := do
  if !e.isBareStar || !e.isRelative then return none
  match locate r.files moduleExtensions e.source directory with
  | none => return none
  | some target =>
    match ← r.readModule target with
    | none => return none
    | some content =>
      if isBarrel (moduleEntries content) then return none
      let names := e.namesOf (← scanModule target content)
      return if names.isEmpty then none else some names

end Resolver

end Reexport
