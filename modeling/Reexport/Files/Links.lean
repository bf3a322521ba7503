import Reexport.Files.Disk

/-!
# Paths without links

`Disk.resolve` gives the absolute path of what a path leads to, with the links on the way followed.
A path may lead to nothing: a name at which nothing stands is kept as it is written, and `..` after
it takes it back. A link that leads back to itself is not followed, and from it on the path is kept
as well.
-/

namespace Reexport

mutual

/-- The number of links in a tree. -/
def Node.countLinks : Node → Nat
  | .file _ => 0
  | .link _ => 1
  | .directory entries => countLinksAmong entries

/-- The number of links in the trees of a directory. -/
def Node.countLinksAmong : List (String × Node) → Nat
  | [] => 0
  | (_, node) :: rest => node.countLinks + Node.countLinksAmong rest

end

namespace Disk

/-- Where someone who follows a path has come. -/
structure Spot where
  /-- Whether the way here began at the root. -/
  fromRoot : Bool
  /-- The names from the root to here. -/
  place : List String
  deriving DecidableEq

/-- The path of a spot. -/
def Spot.path (s : Spot) : String :=
  pathOf s.place

/-- The spot of a name seen from another one. -/
def Spot.enter (s : Spot) (name : String) : Spot :=
  { s with place := s.place ++ [name] }

/-- The spot around another one. -/
def Spot.leave (s : Spot) : Spot :=
  { s with place := s.place.dropLast }

/-- The spot at which the reading of a path begins that is met at another one. -/
def Spot.start (s : Spot) (path : String) : Spot :=
  if Path.isAbsolute path then ⟨true, []⟩ else s

/-- What comes of following a path. -/
inductive Trace where
  /-- The path ends at a spot. -/
  | ended (spot : Spot)
  /-- The path goes through a link that leads back to itself; this is how it goes on from there. -/
  | circling (path : String)

/-- Follows names from a spot on. At a link that is not among the `entered` ones, `follow` says what
comes of its own path. -/
def traceFrom (root : Node) (entered : List Spot)
    (follow : Spot → String → Except DiskFault Trace) :
    Spot → List String → Except DiskFault Trace
  | spot, [] => .ok (.ended spot)
  | spot, name :: rest =>
    if name = "" ∨ name = "." then traceFrom root entered follow spot rest
    else if name = ".." then traceFrom root entered follow spot.leave rest
    else if !Path.isNamable name then .error .unnamable
    else
      let next := spot.enter name
      let onward (path : String) : Trace :=
        .circling (Path.join path (String.intercalate "/" rest))
      match root.at? next.place with
      | some (.link target) =>
        if next ∈ entered then .ok (onward next.path)
        else match follow next target with
          | .ok (.ended spot) => traceFrom root entered follow spot rest
          | .ok (.circling path) => .ok (onward path)
          | .error fault => .error fault
      | _ => traceFrom root entered follow next rest

/-- Follows a path met at a spot, through links nested at most as deep as `depth` says. -/
def trace (root : Node) :
    (depth : Nat) → (entered : List Spot) → Spot → String → Except DiskFault Trace
  | 0, _, _, _ => .error .tooManyLinks
  | depth + 1, entered, spot, path =>
    traceFrom root entered (fun link target => trace root depth (link :: entered) link.leave target)
      (spot.start path) (segments path)

/-- The absolute path of what a path leads to. Links are nested no deeper than there are links, and
each of them can be met on ways of two beginnings. -/
def resolve (d : Disk) (path : String) : Except DiskFault String :=
  match trace d.root (2 * d.root.countLinks + 1) [] ⟨false, d.here⟩ (Path.plain path) with
  | .ok (.ended spot) => .ok spot.path
  | .ok (.circling path) => .ok (Path.normalize path)
  | .error fault => .error fault

end Disk

end Reexport
