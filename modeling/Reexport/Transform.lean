import Reexport.Entry.Sorted
import Reexport.Layout
import Reexport.Options
import Reexport.Resolve

/-!
# Transforming a barrel

A `Transformer` takes a barrel through the stages that its options turn on: following other barrels,
writing out namespaces, dropping duplicates and sorting. `Transformer.collect` gives the entries
that are left, and `Transformer.transform` the new text of the barrel as well. Only files with the
name of a barrel are transformed.
-/

namespace Reexport

/-- Why a barrel could not be transformed. -/
inductive TransformFault where
  /-- The barrel itself cannot be read. -/
  | unreadable (path : String) (why : Unreadable)
  /-- Following re-exports was interrupted. -/
  | interrupted (interruption : Interruption)
  deriving DecidableEq, Repr

/-- The wording of a fault. -/
def TransformFault.message : TransformFault → String
  | unreadable path why => why.message path
  | interrupted interruption => interruption.message

/-- A computation that transforms barrels and reports what it does. -/
abbrev Transforming := ExceptT TransformFault (StateM (List Event))

namespace Transforming

/-- Reports an event. -/
def report (event : Event) : Transforming Unit :=
  modify (· ++ [event])

/-- Follows re-exports in a context of its own. -/
def resolving {α : Type} (run : Resolving α) : Transforming α :=
  ExceptT.mk fun log =>
    let (result, progress) := run.run ⟨{}, log⟩
    (result.mapError .interrupted, progress.log)

end Transforming

/-- A file before and after it is transformed. -/
structure Transformed where
  /-- The text before. -/
  source : String
  /-- The text after. -/
  text : String
  /-- The entries found. -/
  entries : List Entry
  deriving DecidableEq, Repr

/-- Whether the text is a new one. -/
def Transformed.changed (r : Transformed) : Bool :=
  r.text ≠ r.source

/-- What is needed to transform barrels. -/
structure Transformer where
  /-- Where the modules are kept. -/
  files : Files
  /-- The stages to go through. -/
  options : Options
  /-- The names of barrel files. -/
  barrelNames : List String

namespace Transformer

open Transforming

/-- The resolver for the modules around the barrels. -/
def resolver (t : Transformer) : Resolver :=
  ⟨t.files, t.options.nameStars⟩

/-- Whether a file is a barrel by its name. -/
def isBarrelFile (t : Transformer) (path : String) : Bool :=
  t.barrelNames.contains (Path.baseName path)

/-- The entries of a barrel before duplicates are dropped: as written, or as found by following
other barrels. -/
def entriesOf (t : Transformer) (source path : String) : Transforming (List Entry) :=
  if t.options.resolveBarrels then resolving (t.resolver.resolveSource source path)
  else return moduleEntries source

/-- The entries with their namespaces written out, unless following other barrels has done so. -/
def nameStars (t : Transformer) (path : String) (entries : List Entry) :
    Transforming (List Entry) :=
  if t.options.nameStars && !t.options.resolveBarrels then
    let directory := Path.directory (Path.normalize path)
    expandStars (fun e => resolving (t.resolver.expandStar e directory)) entries
  else return entries

/-- The entries without duplicates. -/
def removeDuplicates (t : Transformer) (path : String) (entries : List Entry) :
    Transforming (List Entry) := do
  if !t.options.removeDuplicates then return entries
  let kept := distinct entries
  if kept.length < entries.length then
    report (.duplicatesRemoved path (entries.length - kept.length))
  return kept

/-- The entries in order. -/
def sort (t : Transformer) (path : String) (entries : List Entry) : Transforming (List Entry) := do
  if !t.options.sort then return entries
  report (.sorted path)
  return sorted entries

/-- The entries of a barrel after all stages that are on. -/
def collect (t : Transformer) (source path : String) : Transforming (List Entry) := do
  let entries ← t.entriesOf source path
  report (.collected path entries.length (entries.countP (·.isTypeOnly))
    (entries.countP (·.isBareStar)))
  if entries.isEmpty then return entries
  let entries ← t.nameStars path entries
  let entries ← t.removeDuplicates path entries
  t.sort path entries

/-- The new text of a file and the entries in it. A file that is no barrel, or passes nothing on,
keeps its text. -/
def transform (t : Transformer) (source path : String) : Transforming (String × List Entry) := do
  if !t.isBarrelFile path then return (source, [])
  report (.started path)
  let entries ← t.collect source path
  if entries.isEmpty then
    report (.nothingFound path)
    return (source, entries)
  let text := barrelText source entries
  if text ≠ source then report (.transformed path text.length)
  return (text, entries)

/-- The new text of a file. -/
def process (t : Transformer) (source path : String) : Transforming String := do
  return (← t.transform source path).1

/-- The text of a file. -/
def readFile (t : Transformer) (path : String) : Transforming String := do
  match t.files.read path with
  | .ok source => return source
  | .error why =>
    if let some interruption := why.interruption? then throw (.interrupted interruption)
    if let .tooLarge size limit := why then report (.tooLarge path size limit)
    throw (.unreadable path why)

/-- The new text of the file at a path. -/
def processFile (t : Transformer) (path : String) : Transforming String := do
  t.process (← t.readFile path) path

/-- What becomes of the file at a path. -/
def transformFile (t : Transformer) (path : String) : Transforming Transformed := do
  let source ← t.readFile path
  let (text, entries) ← t.transform source path
  return ⟨source, text, entries⟩

end Transformer

end Reexport
