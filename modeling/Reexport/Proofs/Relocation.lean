import Reexport.Files.Memory
import Reexport.Proofs.Below
import Reexport.Proofs.PathText
import Reexport.Proofs.Twins
import Mathlib.Data.List.Find

/-!
# Moving modules to another directory

Modules in memory that all stand below one directory may be moved below another one
(`MemoryFiles.moved`). The resolver gives the same for them, so what it gives depends on the layout of
a project and not on where it is kept, if no specifier leads out of the directory. Two things about
the directory itself still matter. The test for modules of types looks for `.types.` in the whole
path, so one directory must not hold it unless both do. And a specifier may lead to the directory
itself, which stands for its index module, but not if the directory ends in an extension of modules;
below a root it may even be a module that is named by its extension alone.

## What is proved

* `MemoryFiles.Relocatable.twins` — moved modules are the twins of those they are made of.
* `MemoryFiles.resolveFile_moved` — the resolver gives the same for them.
* `MemoryFiles.resolveFile_moved_differs` — it may not, for other directories.
-/

namespace Reexport

open Reexport.Path

/-- Two paths of the same names, below one directory and below another. -/
def Beside (a b : Absolute) (path path' : String) : Prop :=
  ∃ names, names ≠ [] ∧ (∀ s ∈ names, IsName s) ∧ path = a.pathOf names ∧ path' = b.pathOf names

/-- Directories that are named alike where they stand for a module themselves: both or none is the
root, and both or none has an extension of modules. -/
structure SameKind (old new : String) : Prop where
  root : baseName old = "" ↔ baseName new = ""
  extension : recognizedExtension moduleExtensions old = "" ↔
    recognizedExtension moduleExtensions new = ""

namespace MemoryFiles

/-- The modules below another directory. -/
def moved (m : MemoryFiles) (old new : String) : MemoryFiles :=
  ⟨m.entries.map fun e => (Path.moved old new e.1, e.2)⟩

/-- Modules that all stand below a directory, and whose specifiers do not lead out of it. -/
structure Enclosed (m : MemoryFiles) (directory : String) : Prop where
  absolute : isAbsolute directory = true
  normal : normalize directory = directory
  below : ∀ f ∈ m.entries, IsBelow directory f.1
  inside : ∀ f ∈ m.entries, ∀ e ∈ moduleEntries f.2, e.isRelative = true →
    ¬LeadsOut (seenFrom directory f.1 e.source)

/-- Modules below a directory that may be moved below another one. -/
structure Relocatable (m : MemoryFiles) (old new : String) : Prop extends m.Enclosed old where
  absolute_new : isAbsolute new = true
  normal_new : normalize new = new
  /-- Both directories look like those of modules of types, or none. -/
  types : holdsText ".types.".toList (Text.lower old).toList =
    holdsText ".types.".toList (Text.lower new).toList
  /-- No specifier leads to the directory itself, unless both are of one kind. -/
  kind : (∀ f ∈ m.entries, ∀ e ∈ moduleEntries f.2, e.isRelative = true →
    seenFrom old f.1 e.source ≠ ".") ∨ SameKind old new

/-! ### Tables -/

section Tables

variable {m : MemoryFiles} {a b : Absolute} {names : List (List Char)}

/-- A path is moved where another one is only if they are the same. -/
theorem moved_beq_pathOf (hne : names ≠ []) (h : ∀ s ∈ names, IsName s) {path : String}
    (hpath : IsBelow a.text path) :
    (Path.moved a.text b.text path == b.pathOf names) = (path == a.pathOf names) := by
  obtain ⟨others, hothers, hnamed, rfl⟩ := Absolute.isBelow_text_iff.1 hpath
  rw [Absolute.moved_pathOf b hothers hnamed, Bool.eq_iff_iff, beq_iff_eq, beq_iff_eq,
    Absolute.pathOf_inj hothers hnamed hne h, Absolute.pathOf_inj hothers hnamed hne h]

theorem normalize_pathOf (h : ∀ s ∈ names, IsName s) :
    normalize (a.pathOf names) = a.pathOf names :=
  (a.enter names h).normalize_text

theorem holds_moved (hbelow : ∀ f ∈ m.entries, IsBelow a.text f.1) (hne : names ≠ [])
    (h : ∀ s ∈ names, IsName s) :
    (m.moved a.text b.text).holds (b.pathOf names) = m.holds (a.pathOf names) := by
  rw [holds, holds, normalize_pathOf h, normalize_pathOf h, moved, List.any_map, Bool.eq_iff_iff,
    List.any_eq_true, List.any_eq_true]
  refine exists_congr fun f => and_congr_right fun hf => ?_
  rw [Function.comp_apply, moved_beq_pathOf hne h (hbelow f hf)]

theorem read_moved (hbelow : ∀ f ∈ m.entries, IsBelow a.text f.1) (hne : names ≠ [])
    (h : ∀ s ∈ names, IsName s) :
    (m.moved a.text b.text).read (b.pathOf names) = m.read (a.pathOf names) := by
  have hfind : m.entries.find? ((fun f => f.1 == b.pathOf names) ∘
      fun f => (Path.moved a.text b.text f.1, f.2)) = m.entries.find? (·.1 == a.pathOf names) := by
    refine List.find?_congr fun f hf => ?_
    rw [Function.comp_apply, moved_beq_pathOf hne h (hbelow f hf)]
  rw [read, read, normalize_pathOf h, normalize_pathOf h, moved, List.find?_map, hfind]
  cases m.entries.find? (·.1 == a.pathOf names) with
  | none => rfl
  | some f => rfl

/-- What stands beside the directory is not stored. -/
theorem holds_beside {last : List Char} {hlast : ∀ s ∈ [last], IsName s}
    (hbelow : ∀ f ∈ m.entries, IsBelow (a.enter [last] hlast).text f.1) {s : List Char}
    (hs : IsName s) : m.holds (a.pathOf [s]) = false := by
  have hnamed : ∀ t ∈ [s], IsName t := by simpa using hs
  rw [holds, normalize_pathOf hnamed, List.any_eq_false]
  intro f hf heq
  obtain ⟨names, hne, h, hpath⟩ := Absolute.isBelow_text_iff.1 (hbelow f hf)
  have hwhole : ∀ t ∈ [last] ++ names, IsName t :=
    fun t ht => (List.mem_append.1 ht).elim (hlast t) (h t)
  rw [beq_iff_eq, hpath, Absolute.pathOf_enter, Absolute.pathOf_inj (by simp) hwhole (by simp) hnamed]
    at heq
  exact hne (List.cons.inj heq).2

end Tables

/-! ### The directory itself -/

/-- The names at which the module of a directory may be found below it. -/
def indexNames (a : Absolute) : List (List (List Char)) :=
  let index := moduleExtensions.map fun x => ["index".toList ++ x.toList]
  if a.names = [] then moduleExtensions.map (fun x => [x.toList]) ++ index
  else if recognizedExtension moduleExtensions a.text = "" then index
  else []

theorem indexNames_named {a : Absolute} {names : List (List Char)} (h : names ∈ indexNames a) :
    names ≠ [] ∧ ∀ s ∈ names, IsName s := by
  have hindex : ∀ row ∈ moduleExtensions.map fun x => ["index".toList ++ x.toList],
      row ≠ [] ∧ ∀ s ∈ row, IsName s := by
    decide
  have hroot : ∀ row ∈ moduleExtensions.map fun x => [x.toList],
      row ≠ [] ∧ ∀ s ∈ row, IsName s := by
    decide
  simp only [indexNames] at h
  split at h
  · exact (List.mem_append.1 h).elim (hroot names) (hindex names)
  split at h
  · exact hindex names h
  · cases h

/-- The candidates for a root. -/
theorem candidates_root {a : Absolute} (h : a.names = []) :
    candidates moduleExtensions a.text = (indexNames a).map a.pathOf := by
  have hextension : recognizedExtension moduleExtensions a.text = "" := by
    rw [Absolute.text, h]
    rcases a.slashes_eq with h | h <;> rw [h] <;> decide +kernel
  have hname : ∀ x : String, a.text ++ x = a.pathOf [x.toList] := by
    intro x
    rw [← String.toList_inj, String.toList_append, Absolute.toList_text, Absolute.pathOf,
      String.toList_ofList, h]
    simp [Text.join]
  simp only [candidates, hextension, if_pos, indexNames, h, a.join_index_append, hname,
    List.map_append, List.map_map, Function.comp_def]

/-- **The candidates for the directory itself** that are stored are below it. -/
theorem find?_candidates_text {m : MemoryFiles} {a : Absolute}
    (hbelow : ∀ f ∈ m.entries, IsBelow a.text f.1) :
    (candidates moduleExtensions a.text).find? m.holds =
      ((indexNames a).map a.pathOf).find? m.holds := by
  by_cases hroot : a.names = []
  · rw [candidates_root hroot]
  obtain ⟨parent, last, hlast, rfl⟩ := Absolute.exists_enter hroot
  have hname : IsName last := hlast last List.mem_cons_self
  have hbeside : ∀ s, IsName s → ¬m.holds (parent.pathOf ([] ++ [s])) = true :=
    fun s hs => Bool.eq_false_iff.1 (holds_beside hbelow hs)
  have hextension : recognizedExtension moduleExtensions (parent.enter [last] hlast).text =
      recognizedExtension moduleExtensions (String.ofList last) :=
    parent.recognizedExtension_pathOf_concat [] last
  have hcandidates := parent.candidates_pathOf (List.forall_mem_nil IsName) hname
  rw [List.nil_append, ← Absolute.text_enter hlast] at hcandidates
  rw [hcandidates]
  simp only [candidateNames, indexNames]
  rw [if_neg hroot, hextension]
  split
  · have hfirst : ∀ found ∈ (moduleExtensions.map fun x => [] ++ [last ++ x.toList]).map
        parent.pathOf, ¬m.holds found = true := by
      simp only [List.mem_map]
      rintro found ⟨row, ⟨x, hx, rfl⟩, rfl⟩
      exact hbeside _ (isName_append hname.2.2.2 (moduleExtensions_named hx))
    rw [List.map_append, List.find?_append, List.find?_eq_none.2 hfirst]
    simp [Absolute.pathOf_enter, Function.comp_def]
  · rw [List.map_nil, List.find?_nil, List.find?_eq_none]
    simp only [List.mem_map, List.mem_cons]
    rintro found ⟨row, rfl | ⟨x, hx, rfl⟩, rfl⟩
    · exact hbeside last hname
    · exact hbeside _ (isName_append (fun hmem => hname.2.2.2 (List.mem_of_mem_take hmem))
        (sourceExtensions_named hx))

theorem indexNames_eq {a b : Absolute} (h : SameKind a.text b.text) : indexNames b = indexNames a := by
  have hroot := h.root
  rw [Absolute.baseName_text_eq_empty, Absolute.baseName_text_eq_empty] at hroot
  simp only [indexNames, hroot, h.extension]

/-! ### Twins -/

variable {m : MemoryFiles} {a b : Absolute}

/-- Candidates of the same names are found alike below both directories. -/
theorem rel_find?_pathOf (hbelow : ∀ f ∈ m.entries, IsBelow a.text f.1)
    {rows : List (List (List Char))} (hrows : ∀ names ∈ rows, names ≠ [] ∧ ∀ s ∈ names, IsName s) :
    Option.Rel (Beside a b) ((rows.map a.pathOf).find? m.holds)
      ((rows.map b.pathOf).find? (m.moved a.text b.text).holds) := by
  induction rows with
  | nil => exact .none
  | cons names rows ih =>
    obtain ⟨⟨hne, h⟩, hrest⟩ := List.forall_mem_cons.1 hrows
    rw [List.map_cons, List.map_cons, List.find?_cons, List.find?_cons, holds_moved hbelow hne h]
    cases m.holds (a.pathOf names) with
    | true => exact .some ⟨names, hne, h, rfl, rfl⟩
    | false => exact ih hrest

theorem below_moved (hbelow : ∀ f ∈ m.entries, IsBelow a.text f.1) :
    ∀ f ∈ (m.moved a.text b.text).entries, IsBelow b.text f.1 := by
  rw [moved, List.forall_mem_map]
  intro f hf
  obtain ⟨names, hne, h, hpath⟩ := Absolute.isBelow_text_iff.1 (hbelow f hf)
  rw [hpath, Absolute.moved_pathOf b hne h]
  exact Absolute.isBelow_text_iff.2 ⟨names, hne, h, rfl⟩

/-- **Where a specifier leads**: to modules of the same names, below both directories. -/
theorem Relocatable.leads (h : m.Relocatable a.text b.text) {path path' content : String} {e : Entry}
    (hpair : Beside a b path path') (hread : m.read path = .ok content)
    (he : e ∈ moduleEntries content) (hrelative : e.isRelative = true) : Option.Rel (Beside a b)
      (locate m.files moduleExtensions e.source (directory path))
      (locate (m.moved a.text b.text).files moduleExtensions e.source (directory path')) := by
  obtain ⟨names, hne, hnames, rfl, rfl⟩ := hpair
  obtain ⟨init, last, rfl⟩ := (List.eq_nil_or_concat names).resolve_left hne
  rw [List.concat_eq_append] at hnames hread ⊢
  have hstored := mem_entries_of_read hread
  rw [normalize_pathOf hnames] at hstored
  obtain ⟨cs, hcs⟩ : ∃ cs, e.source.toList = '.' :: cs :=
    List.head?_eq_some_iff.1 (beq_iff_eq.1 hrelative)
  obtain ⟨target, htarget, hself, hbase⟩ := exists_base (fun s hs => hnames s (by simp [hs]))
    (hnames last (by simp)) hcs (by decide) (h.inside _ hstored e he hrelative)
  have hsource : Entry.isRelativeSource e.source = true := hrelative
  unfold locate
  rw [if_pos hsource, if_pos hsource, hbase, hbase]
  by_cases hroot : target = []
  · have hkind := h.kind.resolve_left fun hnever => hnever _ hstored e he hrelative (hself hroot)
    rw [hroot, Absolute.pathOf_nil, Absolute.pathOf_nil]
    show Option.Rel _ (List.find? m.holds _) (List.find? (m.moved a.text b.text).holds _)
    rw [find?_candidates_text h.below, find?_candidates_text (below_moved h.below),
      indexNames_eq hkind]
    exact rel_find?_pathOf h.below fun _ => indexNames_named
  · obtain ⟨init, last, rfl⟩ := (List.eq_nil_or_concat target).resolve_left hroot
    rw [List.concat_eq_append] at htarget ⊢
    have hinit : ∀ s ∈ init, IsName s := fun s hs => htarget s (by simp [hs])
    have hlast : IsName last := htarget last (by simp)
    rw [a.candidates_pathOf hinit hlast, b.candidates_pathOf hinit hlast]
    exact rel_find?_pathOf h.below fun _ => candidateNames_named hinit hlast

/-- **Moved modules are twins** of those they are made of. -/
theorem Relocatable.twins (h : m.Relocatable a.text b.text) :
    Twins m.files (m.moved a.text b.text).files (Beside a b) where
  unique := by
    rintro path path' other other' ⟨names, hne, h, rfl, rfl⟩ ⟨others, hne', h', rfl, rfl⟩
    rw [Absolute.pathOf_inj hne h hne' h', Absolute.pathOf_inj hne h hne' h']
  normal := by
    rintro path path' ⟨names, -, h, rfl, rfl⟩
    exact ⟨normalize_pathOf h, normalize_pathOf h⟩
  read := by
    rintro path path' ⟨names, hne, hnames, rfl, rfl⟩
    exact read_moved h.below hne hnames
  leads hpair hread he hrelative := h.leads hpair hread he hrelative
  types := by
    rintro path path' ⟨names, hne, -, rfl, rfl⟩ specifier
    rw [a.isTypesModule_pathOf specifier hne, b.isTypesModule_pathOf specifier hne, h.types]
  markup := by
    rintro path path' ⟨names, hne, -, rfl, rfl⟩
    obtain ⟨init, last, rfl⟩ := (List.eq_nil_or_concat names).resolve_left hne
    rw [List.concat_eq_append, a.holdsMarkup_pathOf_concat, b.holdsMarkup_pathOf_concat]
  capacity := List.length_map _

/-- **What the resolver gives depends on the layout** of modules below a directory, not on the
directory: it does the same for each of them after they are moved. -/
theorem resolveFile_moved {old new path : String} (h : m.Relocatable old new) (flatten : Bool)
    (hpath : IsBelow old path) (log log' : List Event) :
    ((Resolver.resolveFile ⟨(m.moved old new).files, flatten⟩
        (Path.moved old new path)).run.run ⟨{}, log'⟩).1 =
      ((Resolver.resolveFile ⟨m.files, flatten⟩ path).run.run ⟨{}, log⟩).1 := by
  obtain ⟨a, ha⟩ := exists_absolute h.absolute
  obtain ⟨b, hb⟩ := exists_absolute h.absolute_new
  rw [h.normal] at ha
  rw [h.normal_new] at hb
  subst ha hb
  obtain ⟨names, hne, hnames, rfl⟩ := Absolute.isBelow_text_iff.1 hpath
  rw [Absolute.moved_pathOf b hne hnames]
  exact h.twins.resolveFile_eq ⟨names, hne, hnames, rfl, rfl⟩ log log'

/-- A barrel, a directory whose module passes on what is in the barrel above, and two modules. -/
def nestedFiles : MemoryFiles := .ofList
  [("/app/index.ts", "export * from \"./ui\";\nexport * from \"./ui/kit.types\";\n"),
    ("/app/ui/index.tsx", "export * from \"./button.js\";\nexport { x } from \"..\";\n"),
    ("/app/ui/button.ts", "export const b = 1;\n"),
    ("/app/ui/kit.types.ts", "export type T = 1;\n")]

/-- Modules moved from a root of one slash to one of two. One of their specifiers leads to the
directory itself. -/
theorem resolveFile_moved_nested :
    nestedFiles.Relocatable "/app" "//home/me.ts/checkout" ∧ IsBelow "/app" "/app/index.ts" ∧
    ((Resolver.resolveFile ⟨nestedFiles.files, true⟩ "/app/index.ts").run.run {}).1.map
      (·.map Entry.exportedName) = .ok ["b", "x", "T"] ∧
    ∀ flatten,
      ((Resolver.resolveFile ⟨(nestedFiles.moved "/app" "//home/me.ts/checkout").files, flatten⟩
          "//home/me.ts/checkout/index.ts").run.run {}).1 =
        ((Resolver.resolveFile ⟨nestedFiles.files, flatten⟩ "/app/index.ts").run.run {}).1 := by
  have hmovable : nestedFiles.Relocatable "/app" "//home/me.ts/checkout" := {
    absolute := by decide
    normal := by decide +kernel
    below := by decide +kernel
    inside := by decide +kernel
    absolute_new := by decide
    normal_new := by decide +kernel
    types := by decide +kernel
    kind := .inr ⟨by decide +kernel, by decide +kernel⟩ }
  have hbelow : IsBelow "/app" "/app/index.ts" := by decide +kernel
  have hpath : Path.moved "/app" "//home/me.ts/checkout" "/app/index.ts" =
      "//home/me.ts/checkout/index.ts" := by decide +kernel
  refine ⟨hmovable, hbelow, by decide +kernel, fun flatten => ?_⟩
  rw [← hpath]
  exact resolveFile_moved hmovable flatten hbelow [] []

/-! ### Directories that make a difference -/

/-- A barrel with an `export *` from a module of a value and a type. -/
def pairFiles : MemoryFiles := .ofList
  [("/app/index.ts", "export * from \"./a\";\n"),
    ("/app/a.ts", "export const v = 1;\nexport type T = 1;\n")]

/-- A barrel, and a module of a directory that passes on what is in the barrel above. -/
def upwardFiles : MemoryFiles := .ofList
  [("/app/index.ts", "export \x7b x \x7d from \"./leaf\";\n"),
    ("/app/leaf.ts", "export const x = 1;\n"), ("/app/sub/index.ts", "export * from \"..\";\n")]

/-- **A directory may make a difference.** Below one that holds `.types.`, every module counts as a
module of types, so only the type is passed on; and one that ends in an extension is not looked into
for its index module, so the whole namespace stays. -/
theorem resolveFile_moved_differs :
    (pairFiles.Enclosed "/app" ∧
      isAbsolute "/app.types.v2" = true ∧ normalize "/app.types.v2" = "/app.types.v2" ∧
      Path.moved "/app" "/app.types.v2" "/app/index.ts" = "/app.types.v2/index.ts" ∧
      ((Resolver.resolveFile ⟨pairFiles.files, false⟩ "/app/index.ts").run.run {}).1.map
        (·.map Entry.exportedName) = .ok ["*"] ∧
      ((Resolver.resolveFile ⟨(pairFiles.moved "/app" "/app.types.v2").files, false⟩
        "/app.types.v2/index.ts").run.run {}).1.map (·.map Entry.exportedName) = .ok ["T"]) ∧
    (upwardFiles.Enclosed "/app" ∧
      isAbsolute "/app.ts" = true ∧ normalize "/app.ts" = "/app.ts" ∧
      Path.moved "/app" "/app.ts" "/app/sub/index.ts" = "/app.ts/sub/index.ts" ∧
      ((Resolver.resolveFile ⟨upwardFiles.files, false⟩ "/app/sub/index.ts").run.run {}).1.map
        (·.map Entry.exportedName) = .ok ["x"] ∧
      ((Resolver.resolveFile ⟨(upwardFiles.moved "/app" "/app.ts").files, false⟩
        "/app.ts/sub/index.ts").run.run {}).1.map (·.map Entry.exportedName) = .ok ["*"]) := by
  have hpair : pairFiles.Enclosed "/app" :=
    ⟨by decide, by decide +kernel, by decide +kernel, by decide +kernel⟩
  have hupward : upwardFiles.Enclosed "/app" :=
    ⟨by decide, by decide +kernel, by decide +kernel, by decide +kernel⟩
  exact ⟨⟨hpair, by decide +kernel⟩, hupward, by decide +kernel⟩

end MemoryFiles

end Reexport
