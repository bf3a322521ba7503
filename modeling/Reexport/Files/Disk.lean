import Reexport.Files
import Reexport.Text.Quoted
import Reexport.Text.Utf8

/-!
# Modules on a disk

A disk is a tree of directories, files and symbolic links. `Disk.locate` follows a path through it,
links included, to a place that is no link; `Disk.read`, `Disk.write` and `Disk.isFile` start from
there. A path of more bytes than the system allows leads nowhere, so that only finitely many paths
lead to a file, however the links are laid.
-/

namespace Reexport

/-- A file, a link or a directory. -/
inductive Node where
  /-- A file with its bytes. -/
  | file (bytes : List UInt8)
  /-- A symbolic link, which stands for the path it holds. -/
  | link (target : String)
  /-- A directory with its entries, no two of one name. -/
  | directory (entries : List (String × Node))

/-- Why the system refuses an operation. -/
inductive DiskFault where
  /-- There is nothing at the path. -/
  | noEntry
  /-- The path goes through something that is no directory. -/
  | notDirectory
  /-- A file is wanted and there is a directory. -/
  | isDirectory
  /-- The operation is not allowed. -/
  | denied
  /-- The path, or a name in it, is too long. -/
  | nameTooLong
  /-- The path goes through too many links. -/
  | tooManyLinks
  /-- The path can be that of nothing. -/
  | unnamable
  deriving DecidableEq, Repr

/-- The system's number for a fault. -/
def DiskFault.number : DiskFault → Nat
  | noEntry => 2
  | denied => 13
  | notDirectory => 20
  | isDirectory => 21
  | nameTooLong => 36
  | tooManyLinks => 40
  | unnamable => 22

/-- The system's words for a fault. -/
def DiskFault.reason : DiskFault → String
  | noEntry => "No such file or directory"
  | denied => "Permission denied"
  | notDirectory => "Not a directory"
  | isDirectory => "Is a directory"
  | nameTooLong => "File name too long"
  | tooManyLinks => "Too many levels of symbolic links"
  | unnamable => Unreadable.unnamable.reason

/-- The wording of a fault at a path. A path that can be that of nothing is not named. -/
def DiskFault.message (path : String) (fault : DiskFault) : String :=
  if fault = unnamable then unnamable.reason
  else "[Errno " ++ toString fault.number ++ "] " ++ fault.reason ++ ": " ++ Text.quoted path

namespace Node

/-- The entry of a directory with the given name. -/
def entry? (name : String) : Node → Option Node
  | directory entries => entries.lookup name
  | _ => none

/-- The node that a row of names leads to; no link is followed. -/
def at? : Node → List String → Option Node
  | node, [] => some node
  | node, name :: rest => (node.entry? name).bind (·.at? rest)

/-- Entries with one of them replaced, or added at the end. -/
def setEntry (entries : List (String × Node)) (name : String) (node : Node) :
    List (String × Node) :=
  if entries.any (·.1 == name) then
    entries.map fun e => if e.1 == name then (name, node) else e
  else entries ++ [(name, node)]

/-- The tree with a node put where a row of names leads. Directories that are missing on the way are
made; what is no directory stays. -/
def put (new : Node) : List String → Node → Node
  | [], _ => new
  | name :: rest, directory entries =>
    directory (setEntry entries name (put new rest ((entries.lookup name).getD (directory []))))
  | _ :: _, node => node

/-- Whether a row of names leads to a directory; no link is followed. -/
def isDirectoryAt (root : Node) (place : List String) : Bool :=
  match root.at? place with
  | some (directory _) => true
  | _ => false

mutual

/-- The files of a tree with the names that lead to them from a place. -/
def filesBelow (place : List String) : Node → List (List String × List UInt8)
  | file bytes => [(place, bytes)]
  | link _ => []
  | directory entries => filesAmong place entries

/-- The files of the trees of a directory. -/
def filesAmong (place : List String) : List (String × Node) → List (List String × List UInt8)
  | [] => []
  | (name, node) :: rest => filesBelow (place ++ [name]) node ++ filesAmong place rest

end

end Node

/-- A disk and the directory in which relative paths begin. -/
structure Disk where
  /-- The root of the tree. -/
  root : Node
  /-- The names from the root to the current directory. -/
  here : List String

namespace Disk

/-- The number of bytes of a text. -/
def byteLength (s : String) : Nat :=
  (Text.encode s).length

/-- How many bytes a path may have. -/
def maxPath : Nat := 4095

/-- How many bytes a name may have. -/
def maxName : Nat := 255

/-- How many links may be followed on one path. -/
def maxLinks : Nat := 40

/-- The names between the slashes of a path. -/
def segments (path : String) : List String :=
  (Text.split '/' path.toList).map String.ofList

/-- Follows the names of a path from a place on. At a link, `follow` goes on from the place at which
the link's own path begins. Where `create` is set, the last name may be that of no entry. -/
def walkFrom (root : Node) (create : Bool)
    (follow : List String → List String → Except DiskFault (List String)) :
    List String → List String → Except DiskFault (List String)
  | place, [] => .ok place
  | place, name :: rest =>
    if !root.isDirectoryAt place then .error .notDirectory
    else if name = "" ∨ name = "." then walkFrom root create follow place rest
    else if name = ".." then walkFrom root create follow place.dropLast rest
    else if maxName < byteLength name then .error .nameTooLong
    else match root.at? (place ++ [name]) with
      | some (.link target) =>
        follow (if Path.isAbsolute target then [] else place) (segments target ++ rest)
      | some _ => walkFrom root create follow (place ++ [name]) rest
      | none => if create && rest.isEmpty then .ok (place ++ [name]) else .error .noEntry

/-- Follows the names of a path through at most `links` links. -/
def walk (root : Node) (create : Bool) :
    (links : Nat) → List String → List String → Except DiskFault (List String)
  | 0 => walkFrom root create fun _ _ => .error .tooManyLinks
  | links + 1 => walkFrom root create (walk root create links)

/-- The place to which a path leads, as a row of names from the root on. -/
def locate (d : Disk) (create : Bool) (path : String) : Except DiskFault (List String) :=
  if !Path.isNamable path then .error .unnamable
  else if maxPath < byteLength path then .error .nameTooLong
  else if path = "" then .error .noEntry
  else walk d.root create maxLinks (if Path.isAbsolute path then [] else d.here) (segments path)

/-- The node to which a path leads. -/
def node (d : Disk) (path : String) : Except DiskFault Node := do
  let place ← d.locate false path
  match d.root.at? place with
  | some node => .ok node
  | none => .error .noEntry

/-- Whether a path leads to a file. -/
def isFile (d : Disk) (path : String) : Bool :=
  match d.node path with
  | .ok (.file _) => true
  | _ => false

/-- Whether a path leads to a directory. -/
def isDirectory (d : Disk) (path : String) : Bool :=
  match d.node path with
  | .ok (.directory _) => true
  | _ => false

/-- The size that a directory is said to have. -/
def directorySize : Nat := 4096

/-- The text of the file at a path, unless the file is larger than allowed. -/
def read (d : Disk) (limit : Int) (path : String) : Except Unreadable String :=
  match d.node (Path.plain path) with
  | .error .unnamable => .error .unnamable
  | .error fault => .error (.refused fault.reason)
  | .ok (.file bytes) =>
    if limit < bytes.length then .error (.tooLarge bytes.length limit) else .ok (Text.decode bytes)
  | .ok _ =>
    if limit < directorySize then .error (.tooLarge directorySize limit)
    else .error (.refused DiskFault.isDirectory.reason)

/-- The bytes of the file at a path, if there is a file. -/
def bytes? (d : Disk) (path : String) : Option (List UInt8) :=
  match d.node path with
  | .ok (.file bytes) => some bytes
  | _ => none

/-- Writes a text to the file at a path, which is made if there is none. -/
def write (d : Disk) (path content : String) : Except DiskFault Disk := do
  let place ← d.locate true (Path.plain path)
  if d.root.isDirectoryAt place then .error .isDirectory
  else .ok { d with root := Node.put (.file (Text.encode content)) place d.root }

/-- The absolute path of a place. -/
def pathOf (place : List String) : String :=
  "/" ++ String.intercalate "/" place

/-- The absolute normal path of a path. -/
def absolute (d : Disk) (path : String) : String :=
  Path.normalize (Path.join (pathOf d.here) path)

/-- The files that are not as they were, with the names that lead to them and their bytes. -/
def changedFiles (before after : Disk) : List (List String × List UInt8) :=
  (after.root.filesBelow []).filter fun f =>
    match before.root.at? f.1 with
    | some (.file bytes) => bytes ≠ f.2
    | _ => true

/-! ### Few paths lead to files -/

/-- All texts of at most the given length. -/
def textsUpTo : Nat → List (List Char)
  | 0 => [[]]
  | n + 1 => [] :: (List.range 0x110000).flatMap fun k => (textsUpTo n).map (Char.ofNat k :: ·)

theorem mem_textsUpTo {n : Nat} {cs : List Char} (h : cs.length ≤ n) : cs ∈ textsUpTo n := by
  induction n generalizing cs with
  | zero => simp [textsUpTo, List.length_eq_zero_iff.1 (Nat.le_zero.1 h)]
  | succ n ih =>
    cases cs with
    | nil => simp [textsUpTo]
    | cons c cs =>
      refine List.mem_cons_of_mem _ (List.mem_flatMap.2 ⟨c.toNat, ?_, ?_⟩)
      · rw [List.mem_range]
        have := c.valid
        simp only [UInt32.isValidChar, Nat.isValidChar] at this
        simp only [Char.toNat]
        omega
      · rw [Char.ofNat_toNat]
        exact List.mem_map_of_mem (ih (by simpa using h))

theorem length_flatMap_range {α : Type} (m n : Nat) (f : Nat → List α)
    (h : ∀ k, (f k).length = n) : ((List.range m).flatMap f).length = m * n := by
  induction m with
  | zero => simp
  | succ m ih =>
    rw [List.range_succ, List.flatMap_append, List.length_append, ih]
    simp [h, Nat.succ_mul]

theorem length_textsUpTo_le (n : Nat) : (textsUpTo n).length ≤ Nat.pow 0x110001 n := by
  induction n with
  | zero => simp [textsUpTo, Nat.pow]
  | succ n ih =>
    have hone : 1 ≤ Nat.pow 0x110001 n := Nat.pow_pos (by decide)
    have hlen : ((List.range 0x110000).flatMap fun k =>
        (textsUpTo n).map (Char.ofNat k :: ·)).length = 0x110000 * (textsUpTo n).length :=
      length_flatMap_range _ _ _ fun k => List.length_map _
    have hpow : Nat.pow 0x110001 (n + 1) = Nat.pow 0x110001 n * 0x110001 := rfl
    rw [textsUpTo, List.length_cons, hlen, hpow]
    omega

theorem length_toList_le_byteLength (s : String) : s.toList.length ≤ byteLength s := by
  unfold byteLength Text.encode
  induction s.toList with
  | nil => simp
  | cons c cs ih =>
    have hc : 1 ≤ (String.utf8EncodeChar c).length := by
      rw [String.length_utf8EncodeChar]
      exact c.utf8Size_pos
    simp only [List.length_cons, List.flatMap_cons, List.length_append]
    omega

theorem byteLength_le_of_isFile {d : Disk} {path : String} (h : d.isFile path = true) :
    byteLength path ≤ maxPath := by
  refine Nat.le_of_not_lt fun hlt => ?_
  by_cases hn : Path.isNamable path <;>
    simp [isFile, node, locate, hlt, hn, bind, Except.bind] at h

/-- The disk as a place to follow re-exports in. -/
def files (d : Disk) (limit : Int) : Files where
  read := d.read limit
  holds := d.isFile
  capacity := Nat.pow 0x110001 maxPath
  finite := by
    refine ⟨(textsUpTo maxPath).map fun cs => Path.normalize (String.ofList cs), ?_,
      fun path h => ?_⟩
    · rw [List.length_map]
      exact length_textsUpTo_le maxPath
    · refine List.mem_map.2 ⟨path.toList, mem_textsUpTo ?_, by simp⟩
      exact Nat.le_trans (length_toList_le_byteLength path) (byteLength_le_of_isFile h)

end Disk

end Reexport
