import Reexport.Files.Links
import Reexport.Transform

/-!
# Barrels of a directory

`discover` finds the barrel files below a directory, and `runBatch` transforms them all. A directory
that cannot be listed is passed over with all that is below it. Every file is transformed on the disk
as it was at the beginning; what is new is written back when all are done. A file that cannot be
transformed or written is reported in its own result and holds up no other.
-/

namespace Reexport

/-! ### Discovery -/

/-- Directories in which no barrels are looked for. -/
def skippedDirectories : List String :=
  [".git", ".svn", ".hg", "node_modules", ".next", ".turbo", ".cache", "coverage", "build", "dist",
    "out", ".idea", ".vscode"]

/-- A barrel file that was found. -/
structure DiscoveredFile where
  /-- Its path from the directory on. -/
  relativePath : String
  /-- Its absolute path. -/
  absolutePath : String
  deriving DecidableEq, Repr

/-- Why the barrels of a directory could not be processed. -/
inductive BatchFault where
  /-- The path leads to no directory. -/
  | notDirectory (path : String)
  /-- The path leads nowhere, for a reason of the system. -/
  | unreachable (path : String) (fault : DiskFault)
  /-- There are no workers. -/
  | noWorkers
  /-- There are more workers than the system can count. -/
  | tooManyWorkers
  deriving DecidableEq, Repr

/-- The wording of a fault. -/
def BatchFault.message : BatchFault → String
  | notDirectory path => "Root path is not a directory: " ++ path
  | unreachable path .tooManyLinks => "Symlink loop from " ++ Text.quoted path
  | unreachable path fault => fault.message path
  | noWorkers => "max_workers must be greater than 0"
  | tooManyWorkers => "Python int too large to convert to C int"

/-- What may be done below a directory, by path. -/
structure Rights where
  /-- The entries of the directory may be listed. -/
  mayList : String → Bool
  /-- What the link at the path leads to may be looked up. -/
  mayFollow : String → Bool

namespace Rights

/-- Everything may be done. -/
def all : Rights where
  mayList _ := true
  mayFollow _ := true

/-- Whether the directory at a path is listed. It is not where that is denied, and where the path is
longer than the system takes. -/
def lists (rights : Rights) (path : String) : Bool :=
  rights.mayList path && decide (Disk.byteLength path ≤ Disk.maxPath)

/-- Whether the link at a path is seen to lead to a directory. -/
def isDirectory (rights : Rights) (d : Disk) (path : String) : Bool :=
  rights.mayFollow path && d.isDirectory path

end Rights

namespace Node

mutual

/-- The places below a directory, as rows of names from it on, at which something with one of the
names stands that is no directory. A directory that is not among those that `lists` says are listed is
passed over. Links are not followed; `isDirectory` says of which links' places that they lead to a
directory. -/
def barrelsBelow (names : List String) (lists isDirectory : List String → Bool)
    (place : List String) : Node → List (List String)
  | directory entries =>
    if lists place then barrelsAmong names lists isDirectory place entries else []
  | _ => []

/-- The places among the entries of a directory. -/
def barrelsAmong (names : List String) (lists isDirectory : List String → Bool)
    (place : List String) : List (String × Node) → List (List String)
  | [] => []
  | (name, node) :: rest =>
    let here := place ++ [name]
    let found := match node with
      | file _ => if name ∈ names then [here] else []
      | link _ => if name ∈ names && !isDirectory here then [here] else []
      | directory entries =>
        if name ∉ skippedDirectories && lists here then
          barrelsAmong names lists isDirectory here entries
        else []
    found ++ barrelsAmong names lists isDirectory place rest

end

end Node

/-- The absolute path of a directory, with its links followed. -/
def directoryPath (d : Disk) (path : String) : Except BatchFault String := do
  let resolved ← (d.resolve path).mapError (.unreachable path)
  match d.node resolved with
  | .ok (.directory _) => .ok resolved
  | .error .tooManyLinks => .error (.unreachable resolved .tooManyLinks)
  | .error .nameTooLong => .error (.unreachable resolved .nameTooLong)
  | .error .unnamable => .error (.unreachable resolved .unnamable)
  | _ => .error (.notDirectory path)

/-- The file at a row of names below a directory. -/
def DiscoveredFile.below (root : String) (names : List String) : DiscoveredFile :=
  ⟨String.intercalate "/" names, Path.join root (String.intercalate "/" names)⟩

namespace Rights

/-- Whether the directory at a row of names below the one at an absolute path is listed. -/
def listsBelow (rights : Rights) (root : String) (below : List String) : Bool :=
  rights.lists (if below = [] then root else Path.join root (String.intercalate "/" below))

/-- Whether the link at a row of names below a directory is seen to lead to a directory. -/
def isDirectoryBelow (rights : Rights) (d : Disk) (root : String) (below : List String) : Bool :=
  rights.isDirectory d (DiscoveredFile.below root below).absolutePath

end Rights

/-- The barrel files with one of the names below the directory at an absolute path, in the order of
their relative paths. -/
def discoverAt (d : Disk) (root : String) (names : List String) (rights : Rights := .all) :
    List DiscoveredFile :=
  let found := match d.node root with
    | .ok node =>
      node.barrelsBelow names (rights.listsBelow root) (rights.isDirectoryBelow d root) []
    | .error _ => []
  (found.map (DiscoveredFile.below root)).mergeSort
    fun a b => decide (a.relativePath ≤ b.relativePath)

/-- The barrel files with one of the names below a directory, with the event that reports them. -/
def discover (d : Disk) (path : String) (names : List String) (rights : Rights := .all) :
    Except BatchFault (List DiscoveredFile × Event) := do
  let root ← directoryPath d path
  let files := discoverAt d root names rights
  return (files, .discovered root files.length)

/-! ### One file -/

/-- What became of one barrel file. -/
structure FileResult where
  /-- Its path from the directory on. -/
  relativePath : String
  /-- Whether its new text differs from its old one. -/
  changed : Bool
  /-- The number of its entries. -/
  exportCount : Nat
  /-- Whether the new text was written back. -/
  written : Bool := false
  /-- What went wrong. -/
  error : Option String := none
  /-- The new text, if it differs. -/
  content : Option String := none
  deriving DecidableEq, Repr

/-- The result of a file that failed. -/
def FileResult.failed (relativePath error : String) : FileResult where
  relativePath := relativePath
  changed := false
  exportCount := 0
  error := some error

/-- The result of one file. A file that cannot be read fails by itself; an interruption goes on to
the caller. -/
def FileResult.ofFile (t : Transformer) (file : DiscoveredFile) : Except Interruption FileResult :=
  match ((t.transformFile file.absolutePath).run []).1 with
  | .ok r =>
    .ok {
      relativePath := file.relativePath
      changed := r.changed
      exportCount := r.entries.length
      content := if r.changed then some r.text else none }
  | .error (.unreadable path why) => .ok (.failed file.relativePath (why.message path))
  | .error (.interrupted interruption) => .error interruption

/-! ### All files -/

/-- What a batch leaves behind. -/
structure BatchRun where
  /-- One result for each file, in their order. -/
  results : List FileResult
  /-- The disk afterwards. -/
  disk : Disk
  /-- The events reported. -/
  log : List Event

/-- The result of a file whose worker was interrupted, and the event that reports it. -/
def settle (file : DiscoveredFile) : Except String FileResult → FileResult × List Event
  | .ok result => (result, [])
  | .error text => (.failed file.relativePath text, [.failed file.relativePath text])

/-- Writes the new text of a file back, if there is one. -/
def writeBack (write : Disk → String → String → Except DiskFault Disk) (d : Disk)
    (file : DiscoveredFile) (result : FileResult) : Disk × FileResult × List Event :=
  match result.content with
  | none => (d, result, [])
  | some content =>
    match write d file.absolutePath content with
    | .ok d => (d, { result with written := true }, [.written file.relativePath])
    | .error fault =>
      (d, { result with
        error := some ("Cannot write " ++ file.absolutePath ++ ": " ++
          fault.message file.absolutePath) }, [])

/-- Writes the new texts of files back, one after another. -/
def writeAll (write : Disk → String → String → Except DiskFault Disk) :
    Disk → List (DiscoveredFile × FileResult) → Disk × List FileResult × List Event
  | d, [] => (d, [], [])
  | d, (file, result) :: rest =>
    let (d, result, events) := writeBack write d file result
    let (d, results, more) := writeAll write d rest
    (d, result :: results, events ++ more)

/-- Processes files whose outcomes are given by `worker`, and writes back what is new if asked to.
`root` is the directory as it was asked for. -/
def processAll (write : Disk → String → String → Except DiskFault Disk) (d : Disk)
    (worker : DiscoveredFile → Except String FileResult) (root : String)
    (files : List DiscoveredFile) (writing : Bool) : BatchRun :=
  let settled := files.map fun file => settle file (worker file)
  let results := settled.map (·.1)
  let (after, results, events) :=
    if writing then writeAll write d (files.zip results) else (d, results, [])
  ⟨results, after, settled.flatMap (·.2) ++ events ++
    [.batchCompleted root results.length (results.countP (·.changed))
      (results.countP fun r => r.error.getD "" ≠ "")]⟩

/-- How many workers there may be: one more than this, for the call that waits, is the most that the
system can count. That the system can start as many is another matter, see `runBatch`. -/
def maxWorkers : Int := 0x7FFFFFFE

/-- Processes the barrel files below a directory. The number of workers changes no result, but there
has to be one if there is a file, and not too many. The system is taken to be able to start the
workers that are asked for; where they are forked, all of them are started at once, however few files
there are, so far fewer than `maxWorkers` may be too many for it. Every file is taken to be listed and
read with all rights. -/
def runBatch (write : Disk → String → String → Except DiskFault Disk) (d : Disk)
    (worker : DiscoveredFile → Except String FileResult) (path : String) (names : List String)
    (workers : Int) (writing : Bool) : Except BatchFault BatchRun := do
  let (files, found) ← discover d path names
  if files.isEmpty then return ⟨[], d, [found]⟩
  if workers ≤ 0 then throw .noWorkers
  if maxWorkers < workers then throw .tooManyWorkers
  let run := processAll write d worker path files writing
  return { run with log := found :: run.log }

end Reexport
