import Reexport.Proofs.KeptNames
import Reexport.Proofs.Unrolling

/-!
# Only re-exports count

Two places in memory that have the same modules with the same re-exports are the same for the resolver,
whatever else is in the texts: declarations, bodies of functions, comments. For a text is read for its
re-exports only, unless the names that a module declares are to be scanned. That happens where namespaces
are written out and where a module is taken for one of types, and nowhere else.

The re-exports of a text come with the lines they stand on, so an edit that moves a re-export to another
line does change them.

## What is proved

* `resolveFile_eq_of_alike` — resolvers that work on places that are `Alike` do the same, events
  included. By induction on the depth of the calls; that the places may have room for different depths
  makes no difference.
* `resolveFile_statements_only` — any number of calls that share a context give the same lists and leave
  the same context, and nothing interrupts them.
-/

namespace Reexport

open Resolving Resolver

namespace Resolver

variable {r r' : Resolver}

/-- Calls of one depth. -/
theorem resolveWithin_eq_of_alike (h : Alike r r') (depth : Nat) :
    r.resolveWithin depth = r'.resolveWithin depth := by
  induction depth with
  | zero => rfl
  | succ depth ih =>
    funext path
    refine eq_of_agreeFrom fun p => agreeFrom_resolvePath h (growing_resolveWithin r depth) path ?_
    exact fun _ target _ _ _ => .of_eq (congrFun ih target)

/-- **Places that are alike make no difference.** -/
theorem resolveFile_eq_of_alike (h : Alike r r') : r.resolveFile = r'.resolveFile := by
  funext path
  rw [← resolveWithin_eq_resolveFile (Nat.le_max_left r.depth r'.depth),
    ← resolveWithin_eq_resolveFile (Nat.le_max_right r.depth r'.depth),
    resolveWithin_eq_of_alike h]

/-- A module that is not taken for one of types is not scanned if namespaces are not written out. -/
theorem leafEntries_of_not_types (hflat : r.flatten = false) {e : Entry} {target : String}
    (htypes : isTypesModule e.source target = false) (content : String) :
    r.leafEntries e target content = pure [e] := by
  unfold leafEntries
  simp [hflat, htypes]

end Resolver

namespace MemoryFiles

variable {m m' : MemoryFiles}

/-- The re-exports of each module are the same in both places. -/
def SameStatements (m m' : MemoryFiles) : Prop :=
  ∀ path, (m.read path).map moduleEntries = (m'.read path).map moduleEntries

/-- A check of all texts at once, where they are kept in one order. -/
theorem sameStatements_of_entries (h : m.entries.map (fun f => (f.1, moduleEntries f.2)) =
    m'.entries.map fun f => (f.1, moduleEntries f.2)) : m.SameStatements m' := by
  have hread (m : MemoryFiles) (path : String) : (m.read path).map moduleEntries =
      (((m.entries.map fun f => (f.1, moduleEntries f.2)).find? (·.1 == Path.normalize path)).map
        fun f => Except.ok f.2).getD (.error .absent) := by
    rw [List.find?_map]
    show _ = (((m.entries.find? (·.1 == Path.normalize path)).map _).map _).getD _
    unfold read
    cases m.entries.find? (·.1 == Path.normalize path) <;> rfl
  intro path
  rw [hread, hread, h]

theorem SameStatements.holds_eq (h : m.SameStatements m') : m.holds = m'.holds := by
  have hok (path : String) :
      (∃ content, m.read path = .ok content) ↔ ∃ content, m'.read path = .ok content := by
    have hpath := h path
    cases hm : m.read path <;> cases hm' : m'.read path <;> rw [hm, hm'] at hpath
    · simp
    · cases hpath
    · cases hpath
    · simp
  funext path
  rw [Bool.eq_iff_iff, holds_iff_read, holds_iff_read, hok]

/-- Where no module is taken for one of types, such places are alike. -/
theorem SameStatements.alike (h : m.SameStatements m')
    (htypes : ∀ root, m.files.NoTypesModules root) :
    Alike ⟨m.files, false⟩ ⟨m'.files, false⟩ where
  holds := h.holds_eq
  read := h
  leaf hpath hread he target nested nested' lead _ := by
    have hnot := htypes _ _ _ _ _ _ .refl hread he (by rwa [hpath])
    rw [leafEntries_of_not_types rfl hnot, leafEntries_of_not_types rfl hnot]

end MemoryFiles

/-- **Only re-exports count.** If every text has the same re-exports in both places, and no re-export
leads to a module that is taken for one of types, then any calls, one after another, end in both places
if namespaces are not written out, give the same lists and leave the same context. -/
theorem resolveFile_statements_only {m m' : MemoryFiles} (hsame : m.SameStatements m')
    (htypes : ∀ root, m.files.NoTypesModules root) (paths : List String) (p : Progress) :
    ∃ founds q, Yields (paths.mapM (Resolver.resolveFile ⟨m.files, false⟩)) p founds q ∧
      Yields (paths.mapM (Resolver.resolveFile ⟨m'.files, false⟩)) p founds q := by
  obtain ⟨founds, q, h⟩ : Ends (paths.mapM (Resolver.resolveFile ⟨m.files, false⟩)) p :=
    ends_mapM (fun root _ p => ends_resolveWithin (unhindered_of_no_types m) _ (htypes root) p) p
  refine ⟨founds, q, h, ?_⟩
  rwa [← resolveFile_eq_of_alike (hsame.alike htypes)]

/-- Two barrels that pass on one another, and a module with a constant. -/
def draftFiles : MemoryFiles := .ofList
  [("/p/index.ts", "export * from \"./mid\";\n"),
    ("/p/mid.ts", "export { a } from \"./leaf\";\nexport * from \"./index\";\n"),
    ("/p/leaf.ts", "export const a = 1;\n")]

/-- The same modules with comments, with a declaration in a barrel and with another constant. -/
def editedFiles : MemoryFiles := .ofList
  [("/p/index.ts", "export * from \"./mid\"; // all of it\nimport \"./style\";\n"),
    ("/p/mid.ts", "export { a } from \"./leaf\";\nexport * from \"./index\";\nexport type own = 1;\n"),
    ("/p/leaf.ts", "// not a\nexport const b = 2;\n")]

/-- The edited modules are resolved like those before. -/
theorem resolveFile_statements_only_edited : draftFiles.SameStatements editedFiles ∧
    (∀ root, draftFiles.files.NoTypesModules root) ∧
    ∃ founds q, Yields (["/p/index.ts", "/p/./mid.ts"].mapM
        (Resolver.resolveFile ⟨draftFiles.files, false⟩)) {} founds q ∧
      Yields (["/p/index.ts", "/p/./mid.ts"].mapM
        (Resolver.resolveFile ⟨editedFiles.files, false⟩)) {} founds q := by
  have hsame : draftFiles.SameStatements editedFiles :=
    MemoryFiles.sameStatements_of_entries (by decide +kernel)
  have htypes := draftFiles.noTypesModules_of_all (by decide +kernel)
  exact ⟨hsame, htypes, resolveFile_statements_only hsame htypes _ _⟩

end Reexport
