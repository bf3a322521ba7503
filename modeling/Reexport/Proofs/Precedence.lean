import Reexport.Proofs.Endings
import Reexport.Proofs.Provenance
import Reexport.Proofs.Retyping
import Reexport.Proofs.WellFormed

/-!
# A name of one's own beside an `export *`

A module can name a binding in a re-export of its own and get the same name through an `export *`.
The two meet when the lists in the place of the entries are merged: of entries with one name, one
form and one flavour, the last one is left. So a name of one's own holds against what was written
before it, and gives way to a later `export *` that supplies the name in the same form and flavour.
Where the form or the flavour differs, both are left.

## What is proved

* `Prevails` — which entry is left: in its form and flavour it is the only one of the name; it is the
  module's own if no later `export *` supplies one, or else that of the last to do so; all others of
  the name come from an `export *`.
* `exists_prevails_of_replaced` — merging leaves such an entry.
* `resolveFile_precedence` — so there is one in the list found for the module.
* `resolveFile_star_overrides` — a name of one's own that gives way.
-/

namespace Reexport

open Resolving

namespace Resolver

variable {r : Resolver} {directory : String} {c : Context} {entries : List Entry}
  {news : List (List Entry)} {e x : Entry} {name : String}

/-- By the lists that a run has for the barrels, `x` is among what takes the place of the entry. -/
def Supplies (r : Resolver) (directory : String) (c : Context) (e x : Entry) : Prop :=
  ∃ new, Replaced r directory (Listed c) e new ∧ x ∈ new

/-- None of the entries supplies anything under the key of `x`. -/
def Unopposed (r : Resolver) (directory : String) (c : Context) (entries : List Entry) (x : Entry) :
    Prop :=
  ∀ e ∈ entries, ∀ y, r.Supplies directory c e y → y.mergeKey ≠ x.mergeKey

/-- What an entry supplies is the list that takes its place. -/
theorem supplies_iff_of_replaced {new : List Entry} (h : Replaced r directory (Listed c) e new) :
    r.Supplies directory c e x ↔ x ∈ new := by
  refine ⟨?_, fun hx => ⟨new, h, hx⟩⟩
  rintro ⟨new', h', hx⟩
  rwa [h.unique h' fun _ _ _ hlist hlist' => hlist'.2.symm.trans hlist.2] at hx

theorem unopposed_of_replaced (h : List.Forall₂ (Replaced r directory (Listed c)) entries news)
    (hkeys : ∀ new ∈ news, ∀ y ∈ new, y.mergeKey ≠ x.mergeKey) :
    r.Unopposed directory c entries x := by
  intro e he y hy
  obtain ⟨new, hnew, hrep⟩ := exists_of_mem_left h he
  exact hkeys new hnew y ((supplies_iff_of_replaced hrep).1 hy)

/-- The list for a barrel, all of which is traced in it. -/
def Sourced (files : Files) (c : Context) (target : String) (nested : List Entry) : Prop :=
  Listed c target nested ∧ ∀ n ∈ nested, Traced files target n

/-- Where no entry has a name of its own, an entry found under the name comes through an
`export *`. -/
theorem brings_of_mem_flatten
    (hnews : List.Forall₂ (Replaced r directory (Sourced r.files c)) entries news)
    (hnone : ∀ e ∈ entries, e.isBareStar = false → e.exportedName ≠ name) {new : List Entry}
    (hnew : new ∈ news) (hx : x ∈ new) (hname : x.exportedName = name)
    (hbare : x.isBareStar = false) : x.kind = .named ∧ ∃ star ∈ entries,
      star.Brings r.files (!x.isTypeOnly) directory name ∧ x.source = star.source := by
  obtain ⟨e, he, hrep⟩ := exists_of_mem_right hnews hnew
  cases hstar : e.isBareStar with
  | false =>
    obtain ⟨t, rfl, -⟩ := hrep.of_not_isBareStar hstar
    rw [List.mem_singleton.1 hx] at hname
    exact absurd hname (hnone e he hstar)
  | true =>
    obtain ⟨hkind, hbrings⟩ :=
      brings_of_replaced hstar (hrep.imp fun _ _ hsourced => hsourced.2) hx hbare
    have hvalue : (!x.isTypeOnly) = true → x.isTypeOnly = false := by simp
    exact ⟨hkind, e, he, hname ▸ hbrings _ hvalue, hrep.source_eq hx⟩

end Resolver

open Resolver

/-- Which entry is left for a re-export `e` that a module writes between others, after a run with the
given lists for the barrels. -/
structure Prevails (r : Resolver) (directory : String) (c : Context) (before : List Entry) (e : Entry)
    (after found : List Entry) (x : Entry) : Prop where
  mem : x ∈ found
  name : x.exportedName = e.exportedName
  /-- It has the form of the re-export. -/
  kind : x.kind = e.kind
  /-- It has the flavour of the re-export, which becomes a type where the barrel behind it passes the
  name on as one. -/
  type : x.isTypeOnly = true ↔ e.isTypeOnly = true ∨ BecomesType r.files c directory e
  /-- **The last write wins.** If nothing that is written later supplies an entry in this form and
  flavour, it is the re-export itself. Else it comes from the last `export *` that does so, which brings
  the name. -/
  last : x = { e with isTypeOnly := x.isTypeOnly } ∧ r.Unopposed directory c after x ∨
    e.kind = .named ∧ ∃ between star later, after = between ++ star :: later ∧
      r.Supplies directory c star x ∧ r.Unopposed directory c later x ∧
      star.Brings r.files (!x.isTypeOnly) directory e.exportedName ∧ x.source = star.source
  /-- Any other entry of the name has another form or flavour, and is a plain name from an `export *`
  that brings the name. -/
  others : ∀ y ∈ found, y.exportedName = e.exportedName → y ≠ x →
    (y.kind ≠ x.kind ∨ y.isTypeOnly ≠ x.isTypeOnly) ∧ y.kind = .named ∧
      ∃ star ∈ before ++ after, star.Brings r.files (!y.isTypeOnly) directory e.exportedName ∧
        y.source = star.source

namespace Resolver

variable {r : Resolver} {directory : String} {c : Context} {before after : List Entry} {e : Entry}
  {news : List (List Entry)}

/-- Of the lists that are merged after an entry, the last one that has its key leaves its entry. -/
theorem last_of_mem_merged {news₁ news₂ : List (List Entry)} {e' x : Entry}
    (hafter : List.Forall₂ (Replaced r directory (Sourced r.files c)) after news₂)
    (honly : ∀ other ∈ after, other.isBareStar = false → other.exportedName ≠ x.exportedName)
    (hbare : x.isBareStar = false)
    (hx : x ∈ merged (news₁.flatten ++ e' :: news₂.flatten)) (hkey : x.mergeKey = e'.mergeKey) :
    x = e' ∧ r.Unopposed directory c after x ∨
      x.kind = .named ∧ ∃ between star later, after = between ++ star :: later ∧
        r.Supplies directory c star x ∧ r.Unopposed directory c later x ∧
        star.Brings r.files (!x.isTypeOnly) directory x.exportedName ∧ x.source = star.source := by
  have hlisted {entries : List Entry} {lists : List (List Entry)}
      (h : List.Forall₂ (Replaced r directory (Sourced r.files c)) entries lists) :
      List.Forall₂ (Replaced r directory (Listed c)) entries lists :=
    h.imp fun _ _ hrep => hrep.imp fun _ _ hsourced => hsourced.1
  rcases mem_merged_append_cons hx hkey with ⟨rfl, hlater⟩ | hx
  · refine .inl ⟨rfl, unopposed_of_replaced (hlisted hafter) fun new hnew y hy => ?_⟩
    exact hlater y (List.mem_flatten.2 ⟨new, hnew, hy⟩)
  · obtain ⟨earlier, group, later, rfl, hx, hlater⟩ := exists_last_of_mem_merged hx
    obtain ⟨between, star, rest, rfl, -, hstar, hrest⟩ := exists_split_of_forall₂ hafter.flip
    obtain ⟨hkind, star', hmem, hbrings, hsource⟩ := brings_of_mem_flatten (.cons hstar .nil)
      (fun other hother => honly other (by
        rw [List.mem_singleton.1 hother]
        simp)) (List.mem_singleton_self group) hx rfl hbare
    obtain rfl := List.mem_singleton.1 hmem
    refine .inr ⟨hkind, between, star', rest, rfl, ?_, ?_, hbrings, hsource⟩
    · exact (supplies_iff_of_replaced (hstar.imp fun _ _ hsourced => hsourced.1)).2 hx
    · exact unopposed_of_replaced (hlisted hrest.flip) hlater

/-- An entry of the name that is left beside the one with the key differs from it in form or flavour,
and comes through an `export *`. -/
theorem other_of_mem_merged {news₁ news₂ : List (List Entry)} {e' x y : Entry} {name : String}
    (hbefore : List.Forall₂ (Replaced r directory (Sourced r.files c)) before news₁)
    (hafter : List.Forall₂ (Replaced r directory (Sourced r.files c)) after news₂)
    (honly : ∀ other ∈ before ++ after, other.isBareStar = false → other.exportedName ≠ name)
    (hbare : ∀ {x : Entry}, x.exportedName = name → x.isBareStar = false)
    (hx : x ∈ merged (news₁.flatten ++ e' :: news₂.flatten)) (hkey : x.mergeKey = e'.mergeKey)
    (hy : y ∈ merged (news₁.flatten ++ e' :: news₂.flatten)) (hxname : x.exportedName = name)
    (hyname : y.exportedName = name) (hne : y ≠ x) :
    (y.kind ≠ x.kind ∨ y.isTypeOnly ≠ x.isTypeOnly) ∧ y.kind = .named ∧
      ∃ star ∈ before ++ after, star.Brings r.files (!y.isTypeOnly) directory name ∧
        y.source = star.source := by
  have hkeys : y.mergeKey ≠ x.mergeKey := fun heq => hne (eq_of_mem_merged hy hx heq)
  have hother : y.kind ≠ x.kind ∨ y.isTypeOnly ≠ x.isTypeOnly := by
    by_contra hsame
    rw [not_or, not_not, not_not] at hsame
    refine hkeys (Entry.mergeKey_eq_iff.2 ⟨hyname.trans hxname.symm, hsame.1, hsame.2,
      by rw [hbare hyname, hbare hxname], fun hstar => ?_⟩)
    rw [hbare hyname] at hstar
    cases hstar
  refine ⟨hother, ?_⟩
  obtain ⟨new, hnew, hmem⟩ : ∃ new ∈ news₁ ++ news₂, y ∈ new := by
    rcases List.mem_append.1 (mem_of_mem_merged hy) with hy | hy
    · obtain ⟨new, hnew, hmem⟩ := List.mem_flatten.1 hy
      exact ⟨new, List.mem_append_left _ hnew, hmem⟩
    · rcases List.mem_cons.1 hy with rfl | hy
      · exact absurd hkey.symm hkeys
      · obtain ⟨new, hnew, hmem⟩ := List.mem_flatten.1 hy
        exact ⟨new, List.mem_append_right _ hnew, hmem⟩
  exact brings_of_mem_flatten (List.rel_append hbefore hafter) honly hnew hmem hyname (hbare hyname)

/-- Merging the lists in the place of the entries of a module leaves such an entry. -/
theorem exists_prevails_of_replaced
    (hnews : List.Forall₂ (Replaced r directory (Sourced r.files c)) (before ++ e :: after) news)
    (hname : e.isBareStar = false) (hword : e.exportedName ≠ starSpecifier)
    (honly : ∀ other ∈ before ++ after, other.isBareStar = false →
      other.exportedName ≠ e.exportedName) :
    ∃ x, Prevails r directory c before e after (merged news.flatten) x := by
  have hbare {x : Entry} (hx : x.exportedName = e.exportedName) : x.isBareStar = false := by
    rw [← Bool.not_eq_true]
    intro hstar
    exact hword (hx ▸ Entry.exportedName_of_isBareStar hstar)
  obtain ⟨news₁, new, news₂, rfl, hbefore, hnew, hafter⟩ := exists_split_of_forall₂ hnews
  obtain ⟨t, rfl, -⟩ := hnew.of_not_isBareStar hname
  have htype := isTypeOnly_iff_of_replaced (hnew.imp fun _ _ hsourced => hsourced.1) hname
  have hflatten : (news₁ ++ [{ e with isTypeOnly := t }] :: news₂).flatten =
      news₁.flatten ++ { e with isTypeOnly := t } :: news₂.flatten := by simp
  rw [hflatten]
  obtain ⟨x, hx, hkey⟩ := exists_mem_merged_iff.2
    ⟨{ e with isTypeOnly := t }, List.mem_append_right news₁.flatten
      (List.mem_cons_self (l := news₂.flatten)), rfl⟩
  obtain ⟨hxname, hxkind, hxtype, -, -⟩ := Entry.mergeKey_eq_iff.1 hkey
  have hxname : x.exportedName = e.exportedName := hxname
  refine ⟨x, hx, hxname, hxkind, by rw [hxtype]; exact htype, ?_, fun y hy hyname hne => ?_⟩
  · rw [← hxname] at honly ⊢
    have honlyAfter := (List.forall_mem_append.1 honly).2
    obtain ⟨rfl, hlater⟩ | ⟨hkind, hstar⟩ :=
      last_of_mem_merged hafter honlyAfter (hbare hxname) hx hkey
    · exact .inl ⟨rfl, hlater⟩
    · exact .inr ⟨hxkind.symm.trans hkind, hstar⟩
  · exact other_of_mem_merged hbefore hafter honly hbare hx hkey hy hxname hyname hne

/-- A list that a run has for a barrel has what is carried, before the module itself is recorded. -/
theorem Records.of_listed {Q : String → List Entry → Prop} {path target : String}
    {found nested : List Entry} (h : Records Q (c.record path found)) (hQ : Carried r Q)
    (hopen : c.recorded? path = none) (hlist : Listed c target nested) : Q target nested := by
  obtain ⟨-, hnested⟩ := hlist
  cases hrec : c.recorded? (Path.normalize target) with
  | none =>
    rw [hrec] at hnested
    exact hnested ▸ hQ.nil target
  | some list =>
    rw [hrec] at hnested
    obtain rfl : list = nested := hnested
    have hne : Path.normalize target ≠ path := fun heq => by simp [heq, hopen] at hrec
    refine hQ.spelled (h.recorded? ?_)
    rw [Context.recorded?_record, if_neg hne, hrec]

/-- In the list found for a module, everything comes from lists that are traced. -/
theorem sourced_of_resolveFile (hfiles : r.files.Canonical) {root content : String}
    {found : List Entry} {q : Progress} (hread : r.files.read (Path.normalize root) = .ok content)
    (h : Yields (r.resolveFile root) {} found q) :
    ∃ c news, q.context = c.record (Path.normalize root) found ∧
      c.recorded? (Path.normalize root) = none ∧ found = merged news.flatten ∧
      List.Forall₂ (Replaced r (Path.directory (Path.normalize root)) (Sourced r.files c))
        (moduleEntries content) news := by
  obtain ⟨c, news, hnews, hfound, hopen, hq⟩ := replaced_of_resolveFile rfl hread h
  have hcarried := carried_traced hfiles
  obtain ⟨hrecords, -⟩ := resolveWithin_lists hcarried _ (records_empty _) h
  rw [hq] at hrecords
  refine ⟨c, news, hq, hopen, hfound, hnews.imp fun _ _ hrep => hrep.imp fun _ _ hlist => ⟨hlist, ?_⟩⟩
  exact hrecords.of_listed hcarried hopen hlist

end Resolver

/-- **A name of one's own.** Let a module have a name from one re-export of its own. If all modules
can be scanned, a list is found for it; and in any list that is found, one entry is left for the
re-export in its form and in the flavour that it comes to have. The last write wins: it is the
re-export itself, unless an `export *` that is written later supplies an entry in this form and flavour.
What is supplied is told by the lists that the run has for the barrels before it records that of the
module. -/
theorem resolveFile_precedence (m : MemoryFiles) (flatten : Bool) {root content : String}
    {before after : List Entry} {e : Entry} (hread : m.files.read root = .ok content)
    (hentries : moduleEntries content = before ++ e :: after) (hname : e.isBareStar = false)
    (honly : ∀ other ∈ before ++ after, other.isBareStar = false →
      other.exportedName ≠ e.exportedName) :
    ((∀ path text, m.files.read path = .ok text → ∃ s, scan path text = .ok s) →
      ∃ found q, Yields (Resolver.resolveFile ⟨m.files, flatten⟩ root) {} found q) ∧
    ∀ found q, Yields (Resolver.resolveFile ⟨m.files, flatten⟩ root) {} found q →
      ∃ c x, q.context = c.record (Path.normalize root) found ∧
        c.recorded? (Path.normalize root) = none ∧
        Prevails ⟨m.files, flatten⟩ (Path.directory (Path.normalize root)) c before e after found
          x := by
  refine ⟨fun hscans => Resolver.ends_resolveWithin
    (Resolver.unhindered_of_scans m flatten hscans) _ trivial {}, fun found q h => ?_⟩
  have hread' : m.files.read (Path.normalize root) = .ok content := (m.canonical_files root).trans hread
  obtain ⟨c, news, hq, hopen, rfl, hnews⟩ := sourced_of_resolveFile m.canonical_files hread' h
  have he : e ∈ moduleEntries content := by
    rw [hentries]
    exact List.mem_append_right _ List.mem_cons_self
  rw [hentries] at hnews
  obtain ⟨x, hx⟩ := exists_prevails_of_replaced hnews hname
    ((wellFormed_of_mem_moduleEntries he).exportedName_ne_star hname) honly
  exact ⟨c, x, hq, hopen, hx⟩

/-- A module that names a binding of its own between two namespaces, both of which bring the name. -/
def shadowFiles : MemoryFiles := .ofList
  [("/p/index.ts",
      "export * from \"./b\";\nexport { N } from \"./a\";\nexport type * from \"./b\";\n"),
    ("/p/a.ts", "export const N = 1;\n"),
    ("/p/b.ts", "export { N } from \"./c\";\n"),
    ("/p/c.ts", "export const N = 2;\n")]

/-- The name of the module's own holds against the namespace before it, and stands beside the type
that the namespace after it brings. -/
theorem resolveFile_precedence_between : ∃ before e after found q,
    moduleEntries "export * from \"./b\";\nexport { N } from \"./a\";\nexport type * from \"./b\";\n" =
      before ++ e :: after ∧
    (∀ other ∈ before ++ after, other.isBareStar = false → other.exportedName ≠ e.exportedName) ∧
    Yields (Resolver.resolveFile ⟨shadowFiles.files, true⟩ "/p/index.ts") {} found q ∧
    (found.map fun x => (x.exportedName, x.source, x.isTypeOnly)) =
      [("N", "./a", false), ("N", "./b", true)] ∧
    ∃ c x, q.context = c.record "/p/index.ts" found ∧ c.recorded? "/p/index.ts" = none ∧
      Prevails ⟨shadowFiles.files, true⟩ "/p" c before e after found x := by
  let star (typeOnly : Bool) (line : Nat) : Entry :=
    { specifier := "*", source := "./b", kind := .star, isTypeOnly := typeOnly, originLine := line,
      specifier_ne_empty := by decide, source_ne_empty := by decide,
      specifier_of_star := fun _ => rfl }
  let named (source : String) (h : source ≠ "") (typeOnly : Bool) (line : Nat) : Entry :=
    { specifier := "N", source := source, kind := .named, isTypeOnly := typeOnly,
      originLine := line, specifier_ne_empty := by decide, source_ne_empty := h,
      specifier_of_star := by decide }
  obtain ⟨q, h⟩ := exists_yields_of_run (p := {})
    (x := Resolver.resolveFile ⟨shadowFiles.files, true⟩ "/p/index.ts")
    (a := [named "./a" (by decide) false 2, named "./b" (by decide) true 3])
    (by decide +kernel)
  have hread : shadowFiles.files.read "/p/index.ts" = .ok
      "export * from \"./b\";\nexport { N } from \"./a\";\nexport type * from \"./b\";\n" := by
    decide +kernel
  have honly : ∀ other ∈ [star false 1] ++ [star true 3], other.isBareStar = false →
      other.exportedName ≠ "N" := by decide
  refine ⟨[star false 1], named "./a" (by decide) false 2, [star true 3], _, q, by decide +kernel,
    honly, h, rfl, ?_⟩
  exact (resolveFile_precedence shadowFiles true hread (by decide +kernel) rfl honly).2 _ q h

/-- A module that names a binding of its own before a namespace that brings the name. -/
def overriddenFiles : MemoryFiles := .ofList
  [("/p/index.ts", "export { N } from \"./a\";\nexport * from \"./b\";\n"),
    ("/p/a.ts", "export const N = 1;\n"),
    ("/p/b.ts", "export { N } from \"./c\";\n"),
    ("/p/c.ts", "export const N = 2;\n")]

/-- **A name of one's own gives way**: the module has the name from one re-export, and in the list
that is found for it the name comes from another source. -/
theorem resolveFile_star_overrides : ∃ content e found q,
    overriddenFiles.files.read "/p/index.ts" = .ok content ∧
    (moduleEntries content).filter (fun e => !e.isBareStar && e.exportedName = "N") = [e] ∧
    Yields (Resolver.resolveFile ⟨overriddenFiles.files, false⟩ "/p/index.ts") {} found q ∧
    ∀ x ∈ found, x.exportedName = "N" → x.source ≠ e.source := by
  obtain ⟨q, h⟩ := exists_yields_of_run (p := {})
    (x := Resolver.resolveFile ⟨overriddenFiles.files, false⟩ "/p/index.ts")
    (a := [{ specifier := "N", source := "./b", kind := .named, originLine := 2,
             specifier_ne_empty := by decide, source_ne_empty := by decide,
             specifier_of_star := by decide }])
    (by decide +kernel)
  refine ⟨"export { N } from \"./a\";\nexport * from \"./b\";\n",
    { specifier := "N", source := "./a", kind := .named, originLine := 1,
      specifier_ne_empty := by decide, source_ne_empty := by decide,
      specifier_of_star := by decide },
    _, q, by decide +kernel, by decide +kernel, h, fun x hx _ => ?_⟩
  rw [List.mem_singleton.1 hx]
  decide

end Reexport
