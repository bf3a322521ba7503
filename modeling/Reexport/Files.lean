import Reexport.Path

/-!
# Access to modules

`Files` is all that following re-exports needs to know of the place where modules are kept: which
paths lead to a module, and the text of one. Every path may be written in many ways, but only
finitely many modules differ in the normal spelling of their path; `Files.capacity` bounds their
number.
-/

namespace Reexport

/-- Why the text of a module cannot be had. -/
inductive Unreadable where
  /-- There is no module. -/
  | absent
  /-- The module may not be read. -/
  | locked
  /-- The module has more bytes than are allowed. -/
  | tooLarge (size : Nat) (limit : Int)
  /-- The system refuses, for the reason given. -/
  | refused (reason : String)
  /-- The path can be that of no module. -/
  | unnamable
  /-- Reading breaks off in a way that nothing is prepared for. -/
  | broken (text : String)
  deriving DecidableEq, Repr

/-- The reason in words. -/
def Unreadable.reason : Unreadable → String
  | absent => "no such file"
  | locked => "permission denied"
  | tooLarge _ limit => "file exceeds " ++ toString limit ++ " bytes"
  | refused reason => reason
  | unnamable => "embedded null byte"
  | broken text => text

/-- The wording of a failure to read the module at a path. -/
def Unreadable.message (path : String) (why : Unreadable) : String :=
  "Cannot read " ++ path ++ ": " ++ why.reason

/-- A place where modules are kept. -/
structure Files where
  /-- The text of the module at a path. -/
  read : String → Except Unreadable String
  /-- Whether a path leads to a module. -/
  holds : String → Bool
  /-- A bound on the number of modules. -/
  capacity : Nat
  finite : ∃ known : List String, known.length ≤ capacity ∧
    ∀ path, holds path = true → Path.normalize path ∈ known

/-- The same modules, and besides, modules at the given paths that may not be read. -/
def Files.withLocked (files : Files) (locked : List String) : Files where
  read path := if path ∈ locked then .error .locked else files.read path
  holds path := decide (path ∈ locked) || files.holds path
  capacity := locked.length + files.capacity
  finite := by
    obtain ⟨known, hlen, hknown⟩ := files.finite
    refine ⟨locked.map Path.normalize ++ known, by simp; omega, fun path h => ?_⟩
    rw [Bool.or_eq_true, decide_eq_true_eq] at h
    rcases h with h | h
    · exact List.mem_append_left _ (List.mem_map_of_mem h)
    · exact List.mem_append_right _ (hknown path h)

/-- The same modules, except that reading breaks off at the given paths, with the texts given. -/
def Files.withBroken (files : Files) (broken : List (String × String)) : Files where
  read path := match broken.lookup path with
    | some text => .error (.broken text)
    | none => files.read path
  holds := files.holds
  capacity := files.capacity
  finite := files.finite

end Reexport
