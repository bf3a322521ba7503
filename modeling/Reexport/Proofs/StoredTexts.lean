import Mathlib.Data.List.Induction
import Reexport.Files.Memory
import Reexport.Proofs.NormalPath
import Reexport.Proofs.SortedEntries
import Reexport.Transform

/-!
# Texts stored by path

Texts that are stored in memory one after another, each under any spelling of its path, come to a map
on normal paths. A text is kept under the normal spelling (`Canonical`), and that is kept by every
further text, since a normal spelling is its own. So what is listed can be read back, and two
spellings of one path never lead to two texts.

## What is proved

* `Canonical.add` — storing a text keeps each path normal and listed once.
* `read_ofList_eq_ok_iff` — what is read is what was stored last under some spelling of the path.
* `Canonical.pairwise_paths` — paths are listed in strict order.
* `ofList_maps_paths` — the whole map, for every row of texts and every spelling of a path.
-/

namespace Reexport.MemoryFiles

open Reexport.Path

variable {m : MemoryFiles} {files : List (String × String)} {path content key : String}

/-! ### Storing one text -/

/-- The paths under which texts are kept, in the order in which they were first stored. -/
def keys (m : MemoryFiles) : List String :=
  m.entries.map (·.1)

theorem holds_iff_mem_keys : m.holds path = true ↔ normalize path ∈ m.keys := by
  rw [holds, List.any_eq_true, keys, List.mem_map]
  simp only [beq_iff_eq]

/-- A path is new if no spelling of it was stored before, and is then listed last. -/
theorem keys_add (m : MemoryFiles) (path content : String) :
    (m.add path content).keys = if m.holds path then m.keys else m.keys ++ [normalize path] := by
  unfold add
  show keys (if m.holds path then _ else _) = _
  split
  · -- The entry that is replaced has the same path.
    rw [keys, keys, List.map_map]
    refine List.map_congr_left fun e _ => ?_
    rw [Function.comp_apply]
    split
    · rename_i he
      exact (beq_iff_eq.1 he).symm
    · rfl
  · exact List.map_append

theorem read_of_not_holds (h : m.holds path = false) : m.read path = .error .absent := by
  unfold read
  rw [List.find?_eq_none.2 fun e he hkey => ?_]
  exact Bool.false_ne_true (h.symm.trans (List.any_eq_true.2 ⟨e, he, hkey⟩))

/-- Texts are kept under normal paths, and only one under each. -/
structure Canonical (m : MemoryFiles) : Prop where
  normal : ∀ key ∈ m.keys, normalize key = key
  nodup : m.keys.Nodup

/-- **Storing a text** keeps the paths normal and apart. -/
theorem Canonical.add (h : m.Canonical) (path content : String) :
    (m.add path content).Canonical := by
  by_cases hholds : m.holds path = true
  · have hkeys : (m.add path content).keys = m.keys := by rw [keys_add, if_pos hholds]
    exact ⟨hkeys ▸ h.normal, hkeys ▸ h.nodup⟩
  · have hkeys : (m.add path content).keys = m.keys ++ [normalize path] := by
      rw [keys_add, if_neg hholds]
    have hnew : normalize path ∉ m.keys := fun hmem => hholds (holds_iff_mem_keys.2 hmem)
    constructor
    · intro key hkey
      rw [hkeys, List.mem_append, List.mem_singleton] at hkey
      rcases hkey with hkey | rfl
      · exact h.normal key hkey
      · exact normalize_normalize path
    · rw [hkeys, ← List.concat_eq_append]
      exact h.nodup.concat hnew

/-! ### The list of paths -/

theorem paths_perm (m : MemoryFiles) : m.paths.Perm m.keys :=
  List.mergeSort_perm _ _

theorem Canonical.normalize_of_mem_paths (h : m.Canonical) (hkey : key ∈ m.paths) :
    normalize key = key :=
  h.normal key (m.paths_perm.mem_iff.1 hkey)

/-- A path is listed if it is normal and leads to a text. -/
theorem Canonical.mem_paths_iff (h : m.Canonical) :
    key ∈ m.paths ↔ normalize key = key ∧ m.holds key = true := by
  rw [holds_iff_mem_keys, m.paths_perm.mem_iff]
  constructor
  · intro hkey
    rw [h.normal key hkey]
    exact ⟨rfl, hkey⟩
  · rintro ⟨hnormal, hkey⟩
    rwa [hnormal] at hkey

/-- **The paths are listed** in the strict order of their code points. -/
theorem Canonical.pairwise_paths (h : m.Canonical) :
    m.paths.Pairwise fun a b => Text.codes a < Text.codes b := by
  have hle : m.paths.Pairwise (· ≤ ·) := pairwise_mergeSort_byKey id m.keys
  have hne : m.paths.Pairwise (· ≠ ·) := m.paths_perm.nodup_iff.2 h.nodup
  exact hle.imp₂ (fun a b hle hne => Text.lt_iff_codes_lt.1 (lt_of_le_of_ne hle hne)) hne

/-! ### Storing a row of texts -/

/-- Whether a text is the one stored last under some spelling of a path. -/
def IsLast (files : List (String × String)) (path content : String) : Prop :=
  ∃ before spelling after, files = before ++ (spelling, content) :: after ∧
    normalize spelling = normalize path ∧ ∀ f ∈ after, normalize f.1 ≠ normalize path

/-- One more text is the last one under its path, and changes nothing under any other. -/
theorem isLast_concat_iff {f : String × String} : IsLast (files ++ [f]) path content ↔
    if normalize path = normalize f.1 then f.2 = content else IsLast files path content := by
  constructor
  · rintro ⟨before, spelling, after, heq, hsame, hlater⟩
    obtain rfl | ⟨after, g, rfl⟩ := List.eq_nil_or_concat after
    · obtain ⟨-, rfl⟩ := List.append_singleton_inj.1 heq
      rw [if_pos hsame.symm]
    · rw [List.concat_eq_append, ← List.cons_append, ← List.append_assoc] at heq
      obtain ⟨rfl, rfl⟩ := List.append_singleton_inj.1 heq
      rw [if_neg (hlater f (by simp)).symm]
      exact ⟨before, spelling, after, rfl, hsame, fun g hg => hlater g (by simp [hg])⟩
  · intro h
    split at h
    · rename_i hsame
      subst h
      exact ⟨files, f.1, [], rfl, hsame.symm, nofun⟩
    · rename_i hother
      obtain ⟨before, spelling, after, rfl, hsame, hlater⟩ := h
      refine ⟨before, spelling, after ++ [f], by simp, hsame, fun g hg => ?_⟩
      rcases List.mem_append.1 hg with hg | hg
      · exact hlater g hg
      · obtain rfl := List.mem_singleton.1 hg
        exact Ne.symm hother

theorem ofList_concat (files : List (String × String)) (f : String × String) :
    ofList (files ++ [f]) = (ofList files).add f.1 f.2 := by
  rw [ofList, List.foldl_append]
  rfl

theorem canonical_ofList (files : List (String × String)) : (ofList files).Canonical := by
  induction files using List.reverseRecOn with
  | nil => exact ⟨nofun, .nil⟩
  | append_singleton files f ih =>
    rw [ofList_concat]
    exact ih.add f.1 f.2

theorem holds_ofList_iff (files : List (String × String)) (path : String) :
    (ofList files).holds path = true ↔ ∃ f ∈ files, normalize f.1 = normalize path := by
  induction files using List.reverseRecOn with
  | nil => simp [ofList, holds]
  | append_singleton files f ih =>
    rw [ofList_concat, holds_add_iff, ih]
    simp only [List.mem_append, List.mem_singleton, or_and_right, exists_or, exists_eq_left]
    rw [or_comm, eq_comm]

/-- **The last text counts**, under whatever spelling of the path it was stored. -/
theorem read_ofList_eq_ok_iff (files : List (String × String)) (path content : String) :
    (ofList files).read path = .ok content ↔ IsLast files path content := by
  induction files using List.reverseRecOn with
  | nil => simp [ofList, read, IsLast]
  | append_singleton files f ih =>
    rw [ofList_concat, read_add, isLast_concat_iff]
    split
    · rw [Except.ok.injEq]
    · exact ih

/-! ### What a row of texts comes to -/

/-- Whoever wants a file whose path leads to no text is told of the path as it is spelled. -/
theorem readFile_absent {t : Transformer} (h : t.files.read path = .error .absent)
    (log : List Event) : ∃ fault, (t.readFile path).run.run log = (.error fault, log) ∧
      fault.message = "Cannot read " ++ path ++ ": no such file" := by
  refine ⟨.unreadable path .absent, ?_, ?_⟩
  · unfold Transformer.readFile
    rw [h]
    rfl
  · show "Cannot read " ++ path ++ ": " ++ "no such file" = _
    rw [String.append_assoc]
    rfl

/-- **Texts stored one after another** are a map on normal paths. A path leads to a text if one was
stored under some spelling of it, and then to the one stored last. To read any other path fails, with
a message that names the path as it is spelled. Listed are the normal paths of all texts stored, in the
strict order of their code points; each is its own normal spelling and leads to its last text. -/
theorem ofList_maps_paths (files : List (String × String)) :
    (∀ path,
      ((ofList files).holds path = true ↔ ∃ f ∈ files, normalize f.1 = normalize path) ∧
      ((ofList files).holds path = true →
        ∃ content, IsLast files path content ∧ (ofList files).read path = .ok content) ∧
      ((ofList files).holds path = false → (ofList files).read path = .error .absent ∧
        ∀ t : Transformer, t.files = (ofList files).files → ∀ log, ∃ fault,
          (t.readFile path).run.run log = (.error fault, log) ∧
          fault.message = "Cannot read " ++ path ++ ": no such file")) ∧
    ((ofList files).paths.Pairwise fun a b => Text.codes a < Text.codes b) ∧
    (∀ key, key ∈ (ofList files).paths ↔ ∃ f ∈ files, normalize f.1 = key) ∧
    ∀ key ∈ (ofList files).paths, normalize key = key ∧
      ∃ content, IsLast files key content ∧ (ofList files).read key = .ok content := by
  have hcanonical := canonical_ofList files
  have hlast {path : String} (h : (ofList files).holds path = true) :
      ∃ content, IsLast files path content ∧ (ofList files).read path = .ok content := by
    obtain ⟨content, hread⟩ := holds_iff_read.1 h
    exact ⟨content, (read_ofList_eq_ok_iff files path content).1 hread, hread⟩
  refine ⟨fun path => ⟨holds_ofList_iff files path, hlast, fun h => ?_⟩,
    hcanonical.pairwise_paths, fun key => ?_, fun key hkey => ?_⟩
  · have habsent : (ofList files).read path = .error .absent := read_of_not_holds h
    refine ⟨habsent, fun t ht log => readFile_absent ?_ log⟩
    rw [ht]
    exact habsent
  · rw [hcanonical.mem_paths_iff, holds_ofList_iff]
    constructor
    · rintro ⟨hnormal, f, hf, hkey⟩
      exact ⟨f, hf, hkey.trans hnormal⟩
    · rintro ⟨f, hf, rfl⟩
      exact ⟨normalize_normalize f.1, f, hf, (normalize_normalize f.1).symm⟩
  · exact ⟨hcanonical.normalize_of_mem_paths hkey, hlast (hcanonical.mem_paths_iff.1 hkey).2⟩

/-- Texts under spellings of five paths, three of them under spellings of one. -/
def spelledTexts : List (String × String) :=
  [("src/./a.ts", "1"), ("//lib//b.ts", "2"), ("", "3"), ("src/x/../a.ts", "4"),
    ("a/../../c.ts", "5"), ("/../b.ts", "6"), ("./src//a.ts/", "7")]

/-- A spelling that was not stored, a path that leads to nothing, and the list of paths, whose order
tells one slash at the root from two. -/
theorem ofList_maps_paths_spelled :
    (ofList spelledTexts).holds "x/../src/./a.ts" = true ∧
    IsLast spelledTexts "x/../src/./a.ts" "7" ∧
    (ofList spelledTexts).read "x/../src/./a.ts" = .ok "7" ∧
    (ofList spelledTexts).holds "./src/A.ts" = false ∧
    (∀ options names log, ∃ fault,
      (Transformer.readFile ⟨(ofList spelledTexts).files, options, names⟩ "./src/A.ts").run.run log =
        (.error fault, log) ∧
      fault.message = "Cannot read ./src/A.ts: no such file") ∧
    (ofList spelledTexts).paths = [".", "../c.ts", "//lib/b.ts", "/b.ts", "src/a.ts"] ∧
    ∃ content, IsLast spelledTexts "../c.ts" content ∧
      (ofList spelledTexts).read "../c.ts" = .ok content := by
  obtain ⟨hpath, horder, hlisted, hback⟩ := ofList_maps_paths spelledTexts
  have hholds : (ofList spelledTexts).holds "x/../src/./a.ts" = true := by decide +kernel
  have hread : (ofList spelledTexts).read "x/../src/./a.ts" = .ok "7" := by decide +kernel
  have hmissing : (ofList spelledTexts).holds "./src/A.ts" = false := by decide +kernel
  obtain ⟨content, hlast, hcontent⟩ := (hpath "x/../src/./a.ts").2.1 hholds
  obtain rfl : content = "7" := Except.ok.inj (hcontent.symm.trans hread)
  have hpaths : (ofList spelledTexts).paths =
      [".", "../c.ts", "//lib/b.ts", "/b.ts", "src/a.ts"] := by
    have hperm : (ofList spelledTexts).keys.Perm
        [".", "../c.ts", "//lib/b.ts", "/b.ts", "src/a.ts"] := by decide +kernel
    exact ((paths_perm _).trans hperm).eq_of_pairwise
      (fun _ _ _ _ hab hba => absurd hab (lt_asymm hba)) horder (by decide +kernel)
  refine ⟨hholds, hlast, hread, hmissing, fun options names => ?_, hpaths, (hback "../c.ts" ?_).2⟩
  · exact ((hpath "./src/A.ts").2.2 hmissing).2 _ rfl
  · exact (hlisted "../c.ts").2 ⟨("a/../../c.ts", "5"), by decide, by decide +kernel⟩

end Reexport.MemoryFiles
