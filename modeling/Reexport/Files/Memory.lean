import Reexport.Files

/-!
# Modules in memory

A table from paths to texts. Paths are brought to their normal spelling when a text is stored and
when it is looked up, so that every spelling of a path means the same module.
-/

namespace Reexport

/-- Modules kept in memory, in the order in which their paths were first stored. -/
structure MemoryFiles where
  /-- The normal paths and the texts stored under them. -/
  entries : List (String × String) := []
  deriving DecidableEq, Repr

namespace MemoryFiles

/-- Stores a text, in place of the one stored before under the same path. -/
def add (m : MemoryFiles) (path content : String) : MemoryFiles :=
  let key := Path.normalize path
  if m.entries.any (·.1 == key) then
    ⟨m.entries.map fun e => if e.1 == key then (key, content) else e⟩
  else ⟨m.entries ++ [(key, content)]⟩

/-- The modules of a list of paths and texts, stored one after another. -/
def ofList (files : List (String × String)) : MemoryFiles :=
  files.foldl (fun m f => m.add f.1 f.2) {}

/-- Whether a text is stored under a path. -/
def holds (m : MemoryFiles) (path : String) : Bool :=
  m.entries.any (·.1 == Path.normalize path)

/-- The text stored under a path. -/
def read (m : MemoryFiles) (path : String) : Except Unreadable String :=
  match m.entries.find? (·.1 == Path.normalize path) with
  | some e => .ok e.2
  | none => .error .absent

/-- A text that is stored is read under every spelling of its path, and no other text is changed. -/
theorem read_add (m : MemoryFiles) (path content other : String) :
    (m.add path content).read other =
      if Path.normalize other = Path.normalize path then .ok content else m.read other := by
  unfold add
  by_cases hany : m.entries.any (·.1 == Path.normalize path) = true
  · have hkey : (fun f : String × String => f.1 == Path.normalize other) ∘
        (fun e => if e.1 == Path.normalize path then (Path.normalize path, content) else e) =
          fun f => f.1 == Path.normalize other := by
      funext e
      simp only [Function.comp_apply]
      split
      · rename_i he
        rw [beq_iff_eq.1 he]
      · rfl
    rw [if_pos hany, read, List.find?_map, hkey, read]
    cases hfind : m.entries.find? (·.1 == Path.normalize other) with
    | none =>
      have hne : Path.normalize other ≠ Path.normalize path := by
        intro heq
        obtain ⟨e, he, hpath⟩ := List.any_eq_true.1 hany
        exact List.find?_eq_none.1 hfind e he (heq ▸ hpath)
      rw [if_neg hne]
      rfl
    | some e =>
      have he : e.1 = Path.normalize other := by simpa using List.find?_some hfind
      by_cases heq : Path.normalize other = Path.normalize path
      · rw [if_pos heq, Option.map_some, if_pos (by simp [he, heq])]
      · rw [if_neg heq, Option.map_some, if_neg (by simp [he, heq])]
  · rw [if_neg hany, read, List.find?_append, read]
    by_cases heq : Path.normalize other = Path.normalize path
    · have hnone : m.entries.find? (·.1 == Path.normalize other) = none := by
        rw [List.find?_eq_none]
        intro e he hpath
        exact hany (List.any_eq_true.2 ⟨e, he, heq ▸ hpath⟩)
      rw [if_pos heq, hnone, heq]
      simp
    · have hnone : [(Path.normalize path, content)].find? (·.1 == Path.normalize other) = none := by
        simp [Ne.symm heq]
      rw [if_neg heq, hnone, Option.or_none]

theorem mem_entries_of_read {m : MemoryFiles} {path content : String}
    (h : m.read path = .ok content) : (Path.normalize path, content) ∈ m.entries := by
  unfold read at h
  split at h
  · rename_i e he
    have hkey : e.1 = Path.normalize path := by simpa using List.find?_some he
    rw [← hkey, ← Except.ok.inj h]
    exact List.mem_of_find?_eq_some he
  · cases h

theorem holds_of_read {m : MemoryFiles} {path content : String} (h : m.read path = .ok content) :
    m.holds path = true :=
  List.any_eq_true.2 ⟨_, mem_entries_of_read h, by simp⟩

theorem holds_iff_read {m : MemoryFiles} {path : String} :
    m.holds path = true ↔ ∃ content, m.read path = .ok content := by
  constructor
  · intro h
    unfold read
    cases hfind : m.entries.find? (·.1 == Path.normalize path) with
    | some e => exact ⟨e.2, rfl⟩
    | none =>
      obtain ⟨e, he, hkey⟩ := List.any_eq_true.1 h
      exact absurd hkey (List.find?_eq_none.1 hfind e he)
  · rintro ⟨content, h⟩
    exact holds_of_read h

/-- After a text is stored, its path leads to one in every spelling. -/
theorem holds_add_iff (m : MemoryFiles) (path content other : String) :
    (m.add path content).holds other = true ↔
      Path.normalize other = Path.normalize path ∨ m.holds other = true := by
  rw [holds_iff_read, holds_iff_read, read_add]
  by_cases h : Path.normalize other = Path.normalize path
  · simp [h]
  · simp [h]

/-- Storing a text in place of another adds no path. -/
theorem holds_add_of_holds {m : MemoryFiles} {path : String} (h : m.holds path = true)
    (content : String) : (m.add path content).holds = m.holds := by
  funext other
  rw [Bool.eq_iff_iff, holds_add_iff, or_iff_right_of_imp]
  intro hsame
  rwa [holds, hsame]

/-- The normal paths in the order of their characters. -/
def paths (m : MemoryFiles) : List String :=
  (m.entries.map (·.1)).mergeSort fun a b => decide (a ≤ b)

/-- The modules as a place to follow re-exports in. -/
def files (m : MemoryFiles) : Files where
  read := m.read
  holds := m.holds
  capacity := m.entries.length
  finite := by
    refine ⟨m.entries.map (·.1), by simp, fun path h => ?_⟩
    obtain ⟨e, he, hkey⟩ := List.any_eq_true.1 h
    exact List.mem_map.2 ⟨e, he, by simpa using hkey⟩

end MemoryFiles

end Reexport
