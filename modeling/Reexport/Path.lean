import Reexport.Text.Split

/-!
# Paths

Slash-separated paths. A path is *normal* if no part of it is empty, `.`, or a `..` that a part
before it could answer; `Path.normalize` gives the normal spelling of a path without looking at any
file. Two leading slashes are kept apart from one, while three or more count as one.
-/

namespace Reexport.Path

/-- A path taken apart: how many slashes mark its root, and its parts from the root on. -/
structure Parts where
  /-- 0 for a relative path; 1 or 2 for an absolute one. -/
  slashes : Nat
  /-- The texts between the slashes. -/
  segments : List (List Char)
  deriving DecidableEq

/-- The number of slashes that mark the root. -/
def rootSlashes : List Char → Nat
  | '/' :: '/' :: '/' :: _ => 1
  | '/' :: '/' :: _ => 2
  | '/' :: _ => 1
  | _ => 0

/-- The parts of a written path. -/
def Parts.read (path : List Char) : Parts :=
  ⟨rootSlashes path, Text.split '/' path⟩

/-- The written form; a relative path without parts is written as a dot. -/
def Parts.write (p : Parts) : List Char :=
  match List.replicate p.slashes '/' ++ Text.join ['/'] p.segments with
  | [] => ['.']
  | path => path

/-- Adds a segment to the normal segments before it, which stand backwards. An empty segment and a
dot add nothing; two dots undo the segment before them, and are kept only where a relative path has
none to undo. -/
def addSegment (rooted : Bool) (before : List (List Char)) (segment : List Char) :
    List (List Char) :=
  if segment = [] ∨ segment = ['.'] then before
  else if segment = ['.', '.'] then
    match before with
    | [] => if rooted then [] else [segment]
    | last :: rest => if last = ['.', '.'] then segment :: before else rest
  else segment :: before

/-- The parts without the segments that say nothing. -/
def Parts.normal (p : Parts) : Parts :=
  ⟨p.slashes, (p.segments.foldl (addSegment (p.slashes ≠ 0)) []).reverse⟩

/-- The normal spelling of a path. -/
def normalize (path : String) : String :=
  String.ofList (Parts.read path.toList).normal.write

/-- The spelling of a path without empty segments and dots, in which `..` stays. -/
def plain (path : String) : String :=
  let p := Parts.read path.toList
  String.ofList (Parts.write ⟨p.slashes, p.segments.filter fun s => s ≠ [] && s ≠ ['.']⟩)

/-- Whether a path can be that of anything: it has no null character. -/
def isNamable (path : String) : Bool :=
  !path.toList.contains '\x00'

/-- Whether a path is absolute. -/
def isAbsolute (path : String) : Bool :=
  path.toList.head? == some '/'

/-- A path as seen from a directory; an absolute path stands for itself. -/
def join (directory path : String) : String :=
  if isAbsolute path then path
  else if directory.toList = [] ∨ directory.toList.getLast? = some '/' then directory ++ path
  else directory ++ "/" ++ path

/-- The text after the last slash. -/
def baseName (path : String) : String :=
  String.ofList ((path.toList.reverse.takeWhile (· ≠ '/')).reverse)

/-- The text before the last slash, without the slashes it ends with, unless it is all slashes. -/
def directory (path : String) : String :=
  let head := path.toList.reverse.dropWhile (· ≠ '/')
  match head.dropWhile (· = '/') with
  | [] => String.ofList head.reverse
  | trimmed => String.ofList trimmed.reverse

end Reexport.Path
