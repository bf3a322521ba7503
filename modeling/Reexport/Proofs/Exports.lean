import Reexport.Files.Memory
import Reexport.Proofs.Inlining
import Reexport.Proofs.Replacement

/-!
# The names that modules export

`Exports files valuesOnly path name` is the least family of names closed under the three ways in
which a module comes to export a name: it declares it, a re-export names it, or an `export *` passes
it on from another module. With `valuesOnly` only declarations of values count, and only statements
that pass values on. `Forwards` are the names that the re-exports of a module give it, without those
it declares itself.

Nothing here looks at how a module is resolved; the modules may form cycles, along which no name
comes to be exported by going round.

## What is proved

* `name_ne_default_of_scan` — a scan never lists the default export, which no `export *` passes on.
* `nodup_names_of_scan` — a scan lists each name once. Both by one induction over the scan
  (`Script.ScanInvariant`).
* `forwards_normalize_iff` — where every spelling of a path leads to one module, that module
  forwards the same names under every spelling.
-/

namespace Reexport

/-! ### Scans -/

namespace Script

/-- A property of scans that every name added to one keeps, and every statement that passes on all of
another module. -/
structure ScanInvariant (Inv : DeclarationScan → Prop) : Prop where
  nil : Inv {}
  star {s : DeclarationScan} : Inv s → Inv { s with hasStar := true }
  /-- Neither the default export is added nor a name that is known. -/
  add {s : DeclarationScan} {d : Declared} (hs : Inv s) (hne : d.name ≠ defaultSpecifier)
    (hnew : ∀ known ∈ s.exports, known.name ≠ d.name) :
    Inv { s with exports := s.exports ++ [d] }

namespace ScanInvariant

variable {Inv : DeclarationScan → Prop} {before after : DeclarationScan}

theorem of_addFound (hInv : ScanInvariant Inv) {line : Nat} {found : List Found} (hbefore : Inv before)
    (h : addFound line found before = .ok after) : Inv after := by
  induction found generalizing before with
  | nil =>
    cases h
    exact hbefore
  | cons f fs ih =>
    obtain ⟨d, -, h⟩ := bind_eq_ok_iff.1 h
    refine ih ?_ h
    split
    · exact hbefore
    · rename_i hknown
      rw [Bool.or_eq_true, not_or, List.any_eq_true] at hknown
      exact hInv.add hbefore (by simpa [defaultSpecifier] using hknown.1)
        fun known hk heq => hknown.2 ⟨known, hk, by simpa using heq⟩

theorem of_foldlM (hInv : ScanInvariant Inv) {statements : List (Nat × Exported)}
    (hbefore : Inv before) (h : statements.foldlM addStatement before = .ok after) : Inv after := by
  induction statements generalizing before with
  | nil =>
    cases h
    exact hbefore
  | cons statement statements ih =>
    rw [List.foldlM_cons] at h
    obtain ⟨next, hadd, h⟩ := bind_eq_ok_iff.1 h
    refine ih ?_ h
    unfold addStatement at hadd
    split at hadd
    · cases hadd
      exact hInv.star hbefore
    · exact hInv.of_addFound hbefore hadd

end ScanInvariant

end Script

variable {scanned : DeclarationScan}

/-- Every scan has it. -/
theorem Script.ScanInvariant.of_scan {Inv : DeclarationScan → Prop} (hInv : Script.ScanInvariant Inv)
    {path source : String} (h : scan path source = .ok scanned) : Inv scanned :=
  hInv.of_foldlM hInv.nil h

/-- The default export is in no scan. -/
theorem name_ne_default_of_scan {path source : String} (h : scan path source = .ok scanned) :
    ∀ d ∈ scanned.exports, d.name ≠ defaultSpecifier := by
  have hInv : Script.ScanInvariant fun s => ∀ d ∈ s.exports, d.name ≠ defaultSpecifier := by
    refine ⟨nofun, fun hs => hs, fun hs hne _ d hd => ?_⟩
    rcases List.mem_append.1 hd with hd | hd
    · exact hs d hd
    · rw [List.mem_singleton.1 hd]
      exact hne
  exact hInv.of_scan h

/-- A scan lists each name once. -/
theorem nodup_names_of_scan {path source : String} (h : scan path source = .ok scanned) :
    (scanned.exports.map Declared.name).Nodup := by
  have hInv : Script.ScanInvariant fun s => (s.exports.map Declared.name).Nodup := by
    refine ⟨.nil, fun hs => hs, fun hs _ hnew => ?_⟩
    rw [List.map_append, List.nodup_append]
    refine ⟨hs, List.nodup_singleton _, fun name hname other hother heq => ?_⟩
    obtain ⟨known, hk, rfl⟩ := List.mem_map.1 hname
    rw [List.map_singleton, List.mem_singleton] at hother
    exact hnew known hk (heq.trans hother)
  exact hInv.of_scan h

/-! ### Exported names -/

/-- The names that the module at a path exports, or those that it exports as values. -/
inductive Exports (files : Files) (valuesOnly : Bool) : String → String → Prop where
  /-- A name that the module declares. -/
  | declared {path content : String} {s : DeclarationScan} {d : Declared}
      (hread : files.read path = .ok content) (hscan : scan path content = .ok s)
      (hd : d ∈ s.exports) (hvalue : valuesOnly = true → d.isTypeOnly = false) :
      Exports files valuesOnly path d.name
  /-- A name that a re-export gives. -/
  | named {path content : String} {e : Entry} (hread : files.read path = .ok content)
      (he : e ∈ moduleEntries content) (hname : e.isBareStar = false)
      (hvalue : valuesOnly = true → e.isTypeOnly = false) :
      Exports files valuesOnly path e.exportedName
  /-- A name that an `export *` passes on. -/
  | star {path content target name : String} {e : Entry} (hread : files.read path = .ok content)
      (he : e ∈ moduleEntries content) (hstar : e.isBareStar = true)
      (hvalue : valuesOnly = true → e.isTypeOnly = false)
      (hloc : locate files moduleExtensions e.source (Path.directory (Path.normalize path)) =
        some target)
      (hne : name ≠ defaultSpecifier) (htarget : Exports files valuesOnly target name) :
      Exports files valuesOnly path name

/-- The names that come through an `export *`, as seen from a directory. -/
def Entry.Brings (files : Files) (valuesOnly : Bool) (directory : String) (e : Entry)
    (name : String) : Prop :=
  e.isBareStar = true ∧ (valuesOnly = true → e.isTypeOnly = false) ∧ name ≠ defaultSpecifier ∧
    ∃ target, locate files moduleExtensions e.source directory = some target ∧
      Exports files valuesOnly target name

/-- The names that the re-exports of the module at a path give it. -/
inductive Forwards (files : Files) (valuesOnly : Bool) (path : String) : String → Prop where
  /-- A re-export names it. -/
  | named {content : String} {e : Entry} (hread : files.read path = .ok content)
      (he : e ∈ moduleEntries content) (hname : e.isBareStar = false)
      (hvalue : valuesOnly = true → e.isTypeOnly = false) :
      Forwards files valuesOnly path e.exportedName
  /-- An `export *` passes it on. -/
  | star {content name : String} {e : Entry} (hread : files.read path = .ok content)
      (he : e ∈ moduleEntries content)
      (hbrings : e.Brings files valuesOnly (Path.directory (Path.normalize path)) name) :
      Forwards files valuesOnly path name

variable {files : Files} {valuesOnly : Bool} {path name : String}

theorem Forwards.exports (h : Forwards files valuesOnly path name) :
    Exports files valuesOnly path name := by
  cases h with
  | named hread he hname hvalue => exact .named hread he hname hvalue
  | star hread he hbrings =>
    obtain ⟨hstar, hvalue, hne, target, hloc, htarget⟩ := hbrings
    exact .star hread he hstar hvalue hloc hne htarget

/-- Every spelling of a path leads to one module. -/
def Files.Canonical (files : Files) : Prop :=
  ∀ path, files.read (Path.normalize path) = files.read path

theorem MemoryFiles.canonical_files (m : MemoryFiles) : m.files.Canonical := by
  intro path
  show m.read (Path.normalize path) = m.read path
  rw [MemoryFiles.read, MemoryFiles.read, Path.normalize_normalize]

theorem forwards_normalize_iff (hfiles : files.Canonical) :
    Forwards files valuesOnly (Path.normalize path) name ↔ Forwards files valuesOnly path name := by
  constructor
  · intro h
    cases h with
    | named hread he hname hvalue => exact .named (by rwa [← hfiles]) he hname hvalue
    | star hread he hbrings =>
      rw [Path.normalize_normalize] at hbrings
      exact .star (by rwa [← hfiles]) he hbrings
  · intro h
    cases h with
    | named hread he hname hvalue => exact .named (by rwa [hfiles]) he hname hvalue
    | star hread he hbrings =>
      exact .star (by rwa [hfiles]) he (by rwa [Path.normalize_normalize])

end Reexport
