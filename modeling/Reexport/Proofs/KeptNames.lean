import Mathlib.Logic.Relation
import Reexport.Proofs.Endings
import Reexport.Proofs.Exports

/-!
# The names that a resolved barrel keeps

An `export *` from a barrel is replaced by the re-exports of that barrel, so the names that the
barrel declares itself have no entry to come with. They are there only as long as some `export *`
that is left leads to them. All other names that the re-exports of a module give it are kept, however
deep the barrels and whatever cycles they form: those that a re-export names, and those that a module
that is no barrel exports behind one `export *` after another. These are the names that `Survive`.

## What is proved

* `keeps_of_replaced` — the step: what takes the place of an entry keeps the names that survive
  behind it.
* `carried_accounted` — the list found for a module names only names that survive, and keeps all of
  them.
* `resolveFile_keeps_iff` — a name that the re-exports of a module give it is kept exactly if it
  survives or an `export *` that is left leads to it. Nothing interrupts the run.
* `resolveFile_drops_declared` — a name that is lost.
-/

namespace Reexport

open Resolving Resolver

/-! ### Modules behind one another -/

/-- An entry of the first module leads to the second. -/
def Files.Edge (files : Files) (path target : String) : Prop :=
  ∃ content e nested, files.read path = .ok content ∧ e ∈ moduleEntries content ∧
    Leads files (Path.directory (Path.normalize path)) e target nested

/-- No entry of a module that can be reached leads to a module that is taken for one of types. -/
def Files.NoTypesModules (files : Files) (root : String) : Prop :=
  ∀ path content target nested e, Relation.ReflTransGen files.Edge root path →
    files.read path = .ok content → e ∈ moduleEntries content →
    Leads files (Path.directory (Path.normalize path)) e target nested →
    isTypesModule e.source target = false

variable {files : Files} {path target content nested name directory : String} {e x y : Entry}

theorem Files.NoTypesModules.of_edge (h : files.NoTypesModules path) (hedge : files.Edge path target) :
    files.NoTypesModules target :=
  fun _ _ _ _ _ hreach => h _ _ _ _ _ (.head hedge hreach)

theorem Files.NoTypesModules.normalize (hfiles : files.Canonical) (h : files.NoTypesModules path) :
    files.NoTypesModules (Path.normalize path) := by
  intro path' content target nested e hreach hread he lead
  rcases hreach.cases_head with rfl | ⟨next, ⟨content', e', nested', hread', he', lead'⟩, hreach⟩
  · rw [hfiles] at hread
    rw [Path.normalize_normalize] at lead
    exact h _ _ _ _ _ .refl hread he lead
  · rw [hfiles] at hread'
    rw [Path.normalize_normalize] at lead'
    exact h _ _ _ _ _ (.head ⟨content', e', nested', hread', he', lead'⟩ hreach) hread he lead

/-! ### Names that survive and names that are kept -/

/-- The names that the re-exports of a module give it, but for those that come from a declaration in
a barrel. -/
inductive Survives (files : Files) : String → String → Prop where
  /-- A re-export names it. -/
  | named {path content : String} {e : Entry} (hread : files.read path = .ok content)
      (he : e ∈ moduleEntries content) (hname : e.isBareStar = false) :
      Survives files path e.exportedName
  /-- An `export *` leads to a module that is no barrel and exports it. -/
  | leaf {path content target nested name : String} {e : Entry}
      (hread : files.read path = .ok content) (he : e ∈ moduleEntries content)
      (hstar : e.isBareStar = true)
      (lead : Leads files (Path.directory (Path.normalize path)) e target nested)
      (hleaf : isBarrel (moduleEntries nested) = false) (hne : name ≠ defaultSpecifier)
      (htarget : Exports files false target name) : Survives files path name
  /-- An `export *` leads to a barrel in which it survives. -/
  | barrel {path content target nested name : String} {e : Entry}
      (hread : files.read path = .ok content) (he : e ∈ moduleEntries content)
      (hstar : e.isBareStar = true)
      (lead : Leads files (Path.directory (Path.normalize path)) e target nested)
      (hbarrel : isBarrel (moduleEntries nested) = true) (hne : name ≠ defaultSpecifier)
      (htarget : Survives files target name) : Survives files path name

theorem Survives.exports (h : Survives files path name) : Exports files false path name := by
  induction h with
  | named hread he hname => exact .named hread he hname nofun
  | leaf hread he hstar lead _ hne htarget =>
    exact .star hread he hstar nofun lead.located hne htarget
  | barrel hread he hstar lead _ hne _ ih => exact .star hread he hstar nofun lead.located hne ih

theorem Survives.readable (h : Survives files path name) :
    ∃ content, files.read path = .ok content := by
  cases h with
  | named hread | leaf hread | barrel hread => exact ⟨_, hread⟩

theorem Survives.normalize_iff (hfiles : files.Canonical) :
    Survives files (Path.normalize path) name ↔ Survives files path name := by
  constructor
  · intro h
    cases h with
    | named hread he hname => exact .named (by rwa [← hfiles]) he hname
    | leaf hread he hstar lead hleaf hne htarget =>
      rw [Path.normalize_normalize] at lead
      exact .leaf (by rwa [← hfiles]) he hstar lead hleaf hne htarget
    | barrel hread he hstar lead hbarrel hne htarget =>
      rw [Path.normalize_normalize] at lead
      exact .barrel (by rwa [← hfiles]) he hstar lead hbarrel hne htarget
  · intro h
    cases h with
    | named hread he hname => exact .named (by rwa [hfiles]) he hname
    | leaf hread he hstar lead hleaf hne htarget =>
      exact .leaf (by rwa [hfiles]) he hstar (by rwa [Path.normalize_normalize]) hleaf hne htarget
    | barrel hread he hstar lead hbarrel hne htarget =>
      exact .barrel (by rwa [hfiles]) he hstar (by rwa [Path.normalize_normalize]) hbarrel hne
        htarget

/-- A list of entries keeps a name: under the name, or behind an `export *`. -/
def Keeps (files : Files) (directory : String) (found : List Entry) (name : String) : Prop :=
  (∃ x ∈ found, x.isBareStar = false ∧ x.exportedName = name) ∨
    ∃ x ∈ found, x.Brings files false directory name

/-- Entries of one key bring the same names. -/
theorem Entry.Brings.of_mergeKey_eq (h : x.Brings files false directory name)
    (hkey : y.mergeKey = x.mergeKey) : y.Brings files false directory name := by
  obtain ⟨hstar, -, hne, htarget⟩ := h
  obtain ⟨-, -, -, hbare, hsource⟩ := Entry.mergeKey_eq_iff.1 hkey
  rw [hstar] at hbare
  rw [← hsource hbare] at htarget
  exact ⟨hbare, nofun, hne, htarget⟩

/-- An `export *` with the source of one that brings a name brings it as well. -/
theorem Entry.Brings.keeps {found : List Entry} (h : e.Brings files false directory name)
    (hx : x ∈ found) (hbare : x.isBareStar = true) (hsource : x.source = e.source) :
    Keeps files directory found name := by
  obtain ⟨-, -, hne, htarget⟩ := h
  rw [← hsource] at htarget
  exact .inr ⟨x, hx, hbare, nofun, hne, htarget⟩

/-- The entries of a barrel, written in the place of an `export *` that brings a name, keep the name
if they keep it in the barrel. -/
theorem Entry.Brings.keeps_inlined {behind : String} {nested : List Entry}
    (h : e.Brings files false directory name) (hkeeps : Keeps files behind nested name) :
    Keeps files directory (e.inlined nested) name := by
  obtain ⟨hstar, -, hne, -⟩ := id h
  rcases hkeeps with ⟨n, hn, hbare, rfl⟩ | ⟨n, hn, hbare, -⟩
  · obtain ⟨x, hthrough⟩ := Entry.exists_through (e := e) (.inr hne)
    refine .inl ⟨x, Entry.mem_inlined_of_through hstar hn hthrough, ?_, ?_⟩
    · rw [Entry.isBareStar_of_through hthrough, hbare]
    · exact (Entry.exportedName_of_through hthrough hbare).1
  · obtain ⟨x, hthrough⟩ := Entry.exists_through (e := e) (.inl hbare)
    exact h.keeps (Entry.mem_inlined_of_through hstar hn hthrough)
      (by rw [Entry.isBareStar_of_through hthrough, hbare]) (Entry.through_eq_some hthrough).1

/-- Merging keeps what is kept in a part. -/
theorem Keeps.merged {new : List Entry} {news : List (List Entry)}
    (h : Keeps files directory new name) (hnew : new ∈ news) :
    Keeps files directory (merged news.flatten) name := by
  have hleft : ∀ x ∈ new, ∃ y ∈ Reexport.merged news.flatten, y.mergeKey = x.mergeKey := fun x hx =>
    exists_mem_merged_iff.2 ⟨x, List.mem_flatten.2 ⟨new, hnew, hx⟩, rfl⟩
  rcases h with ⟨x, hx, hbare, hname⟩ | ⟨x, hx, hbrings⟩
  · obtain ⟨y, hy, hkey⟩ := hleft x hx
    obtain ⟨hsame, -, -, hbare', -⟩ := Entry.mergeKey_eq_iff.1 hkey
    exact .inl ⟨y, hy, by rw [hbare', hbare], by rw [hsame, hname]⟩
  · obtain ⟨y, hy, hkey⟩ := hleft x hx
    exact .inr ⟨y, hy, hbrings.of_mergeKey_eq hkey⟩

/-! ### The step -/

/-- What can be said of the list found for a module: it names only names that survive, and unless it
is empty it keeps all of them. -/
structure Accounted (files : Files) (path : String) (found : List Entry) : Prop where
  survives : ∀ x ∈ found, x.isBareStar = false → Survives files path x.exportedName
  keeps : found ≠ [] → ∀ name, Survives files path name →
    Keeps files (Path.directory (Path.normalize path)) found name

variable {r : Resolver} {new : List Entry}

theorem leafResult_of_not_types (hflat : r.flatten = false)
    (htypes : isTypesModule e.source target = false) :
    r.leafResult e target nested = .ok [e] := by
  unfold leafResult typesResult namesResult
  simp [htypes, hflat, bind, Except.bind]

/-- What takes the place of an entry names only names that survive. -/
theorem survives_of_replaced (hpath : Path.normalize path = path) (hflat : r.flatten = false)
    (hread : r.files.read path = .ok content) (he : e ∈ moduleEntries content)
    (htypes : r.files.NoTypesModules path)
    (h : Replaced r (Path.directory path) (fun target found => r.files.NoTypesModules target →
      Accounted r.files target found) e new) (hx : x ∈ new) (hname : x.isBareStar = false) :
    Survives r.files path x.exportedName := by
  have hself (h : e.isBareStar = false) : Survives r.files path e.exportedName :=
    .named hread he h
  cases h with
  | astray =>
    rw [List.mem_singleton.1 hx] at hname ⊢
    exact hself hname
  | barrel lead hbarrel hnested =>
    rw [← hpath] at lead
    have hacc := hnested (htypes.of_edge ⟨content, e, _, hread, he, lead⟩)
    rcases Entry.mem_inlined hx with rfl | ⟨hstar, n, hn, hthrough⟩ | ⟨hbare, rfl⟩
    · exact hself hname
    · rw [Entry.isBareStar_of_through hthrough] at hname
      obtain ⟨hsame, hne⟩ := Entry.exportedName_of_through hthrough hname
      rw [hsame]
      exact .barrel hread he hstar lead hbarrel hne (hacc.survives n hn hname)
    · exact hself hbare
  | leaf lead _ hnew =>
    rw [← hpath] at lead
    rw [leafResult_of_not_types hflat (htypes _ _ _ _ _ .refl hread he lead)] at hnew
    cases hnew
    rw [List.mem_singleton.1 hx] at hname ⊢
    exact hself hname

/-- What takes the place of an `export *` keeps the names that survive behind it. -/
theorem keeps_of_replaced (hpath : Path.normalize path = path) (hflat : r.flatten = false)
    (hread : r.files.read path = .ok content) (he : e ∈ moduleEntries content)
    (htypes : r.files.NoTypesModules path)
    (h : Replaced r (Path.directory path) (fun target found => r.files.NoTypesModules target →
      Accounted r.files target found) e new)
    (hstar : e.isBareStar = true) (hne : name ≠ defaultSpecifier)
    (lead : Leads r.files (Path.directory path) e target nested)
    (htarget : isBarrel (moduleEntries nested) = true ∧ Survives r.files target name ∨
      isBarrel (moduleEntries nested) = false ∧ Exports r.files false target name) :
    Keeps r.files (Path.directory path) new name := by
  have hbrings : e.Brings r.files false (Path.directory path) name := by
    refine ⟨hstar, nofun, hne, target, lead.located, ?_⟩
    rcases htarget with ⟨-, h⟩ | ⟨-, h⟩
    · exact h.exports
    · exact h
  cases h with
  | astray h => exact absurd lead (h target nested)
  | @barrel target' _ found lead' hbarrel hfound =>
    obtain rfl : target' = target := Option.some.inj (lead'.located.symm.trans lead.located)
    obtain rfl := Except.ok.inj (lead'.read.symm.trans lead.read)
    have hacc := hfound (htypes.of_edge ⟨content, e, _, hread, he, by rwa [hpath]⟩)
    have hsurvives : Survives r.files target' name := by
      rcases htarget with ⟨-, h⟩ | ⟨hleaf, -⟩
      · exact h
      · rw [hbarrel] at hleaf
        cases hleaf
    by_cases hnil : found = []
    · subst hnil
      exact hbrings.keeps List.mem_cons_self hstar rfl
    · exact hbrings.keeps_inlined (hacc.keeps hnil name hsurvives)
  | leaf lead' _ hnew =>
    rw [leafResult_of_not_types hflat
      (htypes _ _ _ _ _ .refl hread he (by rwa [hpath]))] at hnew
    cases hnew
    exact hbrings.keeps List.mem_cons_self hstar rfl

/-- The lists in the place of the entries of a module, merged, keep the names that survive in it. -/
theorem keeps_merged_of_replaced (hpath : Path.normalize path = path) (hflat : r.flatten = false)
    (hread : r.files.read path = .ok content) (htypes : r.files.NoTypesModules path)
    {news : List (List Entry)}
    (hnews : List.Forall₂ (Replaced r (Path.directory path) fun target found =>
      r.files.NoTypesModules target → Accounted r.files target found) (moduleEntries content) news)
    (hname : Survives r.files path name) :
    Keeps r.files (Path.directory path) (merged news.flatten) name := by
  cases hname with
  | @named _ _ e hread' he hbare =>
    obtain rfl := Except.ok.inj (hread'.symm.trans hread)
    obtain ⟨new, hnew, hrep⟩ := exists_of_mem_left hnews he
    obtain ⟨t, rfl, -⟩ := hrep.of_not_isBareStar hbare
    exact Keeps.merged (.inl ⟨{ e with isTypeOnly := t }, List.mem_cons_self, hbare, rfl⟩) hnew
  | leaf hread' he hstar lead hleaf hne htarget =>
    obtain rfl := Except.ok.inj (hread'.symm.trans hread)
    rw [hpath] at lead
    obtain ⟨new, hnew, hrep⟩ := exists_of_mem_left hnews he
    exact (keeps_of_replaced hpath hflat hread he htypes hrep hstar hne lead
      (.inr ⟨hleaf, htarget⟩)).merged hnew
  | barrel hread' he hstar lead hbarrel hne htarget =>
    obtain rfl := Except.ok.inj (hread'.symm.trans hread)
    rw [hpath] at lead
    obtain ⟨new, hnew, hrep⟩ := exists_of_mem_left hnews he
    exact (keeps_of_replaced hpath hflat hread he htypes hrep hstar hne lead
      (.inl ⟨hbarrel, htarget⟩)).merged hnew

/-- Every list found along the traversal accounts for the names of its module. -/
theorem carried_accounted (hfiles : r.files.Canonical) (hflat : r.flatten = false) :
    Carried r fun path found => r.files.NoTypesModules path → Accounted r.files path found where
  nil _ _ := ⟨nofun, fun h => absurd rfl h⟩
  spelled h htypes := by
    obtain ⟨hsurvives, hkeeps⟩ := h (htypes.normalize hfiles)
    rw [Path.normalize_normalize] at hkeeps
    exact ⟨fun x hx hname => (Survives.normalize_iff hfiles).1 (hsurvives x hx hname),
      fun hne name hname => hkeeps hne name ((Survives.normalize_iff hfiles).2 hname)⟩
  merged hpath hread hnews htypes := by
    refine ⟨fun x hx hname => ?_, fun _ name hname => ?_⟩
    · obtain ⟨e, he, new, hrep, hx⟩ := exists_of_mem_merged hnews hx
      exact survives_of_replaced hpath hflat hread he htypes hrep hx hname
    · rw [hpath]
      exact keeps_merged_of_replaced hpath hflat hread htypes hnews hname

/-! ### The list for a module -/

/-- Where no module is taken for one of types and namespaces are not written out, nothing is scanned
and every run ends. -/
theorem unhindered_of_no_types (m : MemoryFiles) :
    Unhindered ⟨m.files, false⟩ m.files.NoTypesModules where
  read := exists_readResult m
  entry hpath _ hread he :=
    ⟨fun lead _ => hpath.of_edge ⟨_, _, _, by rwa [← m.canonical_files], he, lead⟩,
      fun lead _ => ⟨_, leafResult_of_not_types rfl
        (hpath _ _ _ _ _ .refl (by rwa [← m.canonical_files]) he lead)⟩⟩

/-- **The names that are kept.** Where no module is taken for one of types and namespaces are not
written out, a list is found for every module, and a name that the re-exports of the module give it
is kept in the list exactly if it survives or an `export *` in the list leads to it. -/
theorem resolveFile_keeps_iff (m : MemoryFiles) (root : String)
    (htypes : m.files.NoTypesModules root) :
    ∃ found q, Yields (Resolver.resolveFile ⟨m.files, false⟩ root) {} found q ∧
      ∀ name, Forwards m.files false root name →
        (Keeps m.files (Path.directory (Path.normalize root)) found name ↔
          Survives m.files root name ∨
            ∃ x ∈ found, x.Brings m.files false (Path.directory (Path.normalize root)) name) := by
  have hfiles := m.canonical_files
  have hcarried := carried_accounted (r := ⟨m.files, false⟩) hfiles rfl
  obtain ⟨found, q, h⟩ := ends_resolveWithin (unhindered_of_no_types m) _ htypes {}
  obtain ⟨-, hacc⟩ := resolveWithin_lists hcarried _ (records_empty _) h
  refine ⟨found, q, h, fun name _ => ⟨?_, ?_⟩⟩
  · rintro (⟨x, hx, hbare, rfl⟩ | hbrings)
    · exact .inl ((hacc htypes).survives x hx hbare)
    · exact .inr hbrings
  · rintro (hname | hbrings)
    · rw [← Survives.normalize_iff hfiles] at hname
      rcases resolveFile_replaced hcarried h with ⟨hread, -⟩ | ⟨content, news, hread, hnews, rfl⟩
      · obtain ⟨content, hread'⟩ := hname.readable
        exact absurd hread' (hread content)
      · exact keeps_merged_of_replaced (Path.normalize_normalize root) rfl hread
          (htypes.normalize hfiles) hnews hname
    · exact .inr hbrings

/-- A check of all entries in memory at once. -/
theorem MemoryFiles.noTypesModules_of_all (m : MemoryFiles)
    (h : (m.entries.all fun f => (moduleEntries f.2).all fun e =>
      (locate m.files moduleExtensions e.source (Path.directory f.1)).all
        fun target => !isTypesModule e.source target) = true) (root : String) :
    m.files.NoTypesModules root := by
  intro path content target nested e _ hread he lead
  have hread : m.read path = .ok content := hread
  unfold MemoryFiles.read at hread
  split at hread
  · rename_i f hf
    cases hread
    have hkey : f.1 = Path.normalize path := by simpa using List.find?_some hf
    have hall := List.all_eq_true.1 (List.all_eq_true.1 h f (List.mem_of_find?_eq_some hf)) e he
    rw [hkey, lead.located] at hall
    simpa using hall
  · cases hread

/-- A barrel that declares a name besides the one it passes on, behind an `export *`. -/
def mixedFiles : MemoryFiles := .ofList
  [("/p/index.ts", "export * from \"./mid\";\n"),
    ("/p/mid.ts", "export { a } from \"./leaf\";\nexport const own = 1;\n"),
    ("/p/leaf.ts", "export const a = 1;\n")]

/-- The name that the barrel passes on survives, and so it is kept. -/
theorem resolveFile_keeps_iff_mixed : mixedFiles.files.NoTypesModules "/p/index.ts" ∧
    ∃ found q, Yields (Resolver.resolveFile ⟨mixedFiles.files, false⟩ "/p/index.ts") {} found q ∧
      ∀ name, Forwards mixedFiles.files false "/p/index.ts" name →
        (Keeps mixedFiles.files (Path.directory (Path.normalize "/p/index.ts")) found name ↔
          Survives mixedFiles.files "/p/index.ts" name ∨
            ∃ x ∈ found, x.Brings mixedFiles.files false
              (Path.directory (Path.normalize "/p/index.ts")) name) :=
  have htypes := mixedFiles.noTypesModules_of_all (by decide +kernel) "/p/index.ts"
  ⟨htypes, resolveFile_keeps_iff mixedFiles "/p/index.ts" htypes⟩

/-- **A name is lost.** The re-export of the first module gives it the name `own`, which the barrel
behind it declares; in the list that is found nothing leads to the name. -/
theorem resolveFile_drops_declared : mixedFiles.files.NoTypesModules "/p/index.ts" ∧
    Forwards mixedFiles.files false "/p/index.ts" "own" ∧
    ∃ found q, Yields (Resolver.resolveFile ⟨mixedFiles.files, false⟩ "/p/index.ts") {} found q ∧
      ¬Keeps mixedFiles.files (Path.directory (Path.normalize "/p/index.ts")) found "own" := by
  have hindex : mixedFiles.files.read "/p/index.ts" = .ok "export * from \"./mid\";\n" := by
    decide +kernel
  have hmid : mixedFiles.files.read "/p/mid.ts" =
      .ok "export { a } from \"./leaf\";\nexport const own = 1;\n" := by
    decide +kernel
  refine ⟨mixedFiles.noTypesModules_of_all (by decide +kernel) _, ?_, ?_⟩
  · refine .star hindex
      (e := { specifier := "*", source := "./mid", kind := .star, originLine := 1,
              specifier_ne_empty := by decide, source_ne_empty := by decide,
              specifier_of_star := fun _ => rfl })
      (by decide +kernel) ⟨rfl, by simp, by decide, "/p/mid.ts", by decide +kernel, ?_⟩
    exact .declared hmid
      (s := { exports := [⟨"a", false, .clause, 1, by decide⟩, ⟨"own", false, .binding, 2, by decide⟩] })
      (d := ⟨"own", false, .binding, 2, by decide⟩)
      (by decide +kernel) (by simp) (by simp)
  · obtain ⟨q, h⟩ := exists_yields_of_run (p := {})
      (x := Resolver.resolveFile ⟨mixedFiles.files, false⟩ "/p/index.ts")
      (a := [{ specifier := "a", source := "./mid", kind := .named, originLine := 1,
               specifier_ne_empty := by decide, source_ne_empty := by decide,
               specifier_of_star := by decide }])
      (by decide +kernel)
    refine ⟨_, q, h, ?_⟩
    rintro (⟨x, hx, -, hname⟩ | ⟨x, hx, hstar, -⟩)
    · rw [List.mem_singleton.1 hx] at hname
      revert hname
      decide
    · rw [List.mem_singleton.1 hx] at hstar
      cases hstar

end Reexport
