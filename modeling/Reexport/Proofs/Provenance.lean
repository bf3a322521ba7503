import Reexport.Proofs.Exports

/-!
# Where the entries of a resolved barrel come from

Resolution never invents a binding. A name in the list that the resolver gives for a module is one
that the re-exports of the module give it, and it is a value only if it comes as a value all the way
from where it is declared or named. An `export *` that is left has the source of an `export *` that
the module itself writes.

## What is proved

* `brings_of_replaced` — a name in the place of an `export *` is one that the `export *` brings.
* `traced_of_replaced` — the step: what takes the place of an entry of a module is `Traced` in the
  module if the lists of the barrels behind the entry are traced in theirs.
* `carried_traced` — so being traced is carried through the traversal.
* `resolveFile_invents_nothing` — hence it holds of the list for any module, with and without
  namespaces written out, over all files in memory, cycles included.
-/

namespace Reexport

open Resolving

/-- Where an entry in the list of a module comes from. -/
structure Traced (files : Files) (path : String) (x : Entry) : Prop where
  /-- A name is forwarded by the module, and as a value if the entry is one. -/
  name : x.isBareStar = false → ∀ valuesOnly, (valuesOnly = true → x.isTypeOnly = false) →
    Forwards files valuesOnly path x.exportedName
  /-- A whole namespace has the source of one that the module writes. -/
  star : x.isBareStar = true → ∃ content, files.read path = .ok content ∧
    ∃ e ∈ moduleEntries content, e.isBareStar = true ∧ e.source = x.source

namespace Resolver

variable {r : Resolver} {path content : String}

/-- A name in the place of an `export *` is one that the `export *` brings. -/
theorem brings_of_replaced {directory : String} {e x : Entry} {new : List Entry}
    (hstar : e.isBareStar = true)
    (h : Replaced r directory (fun target nested => ∀ n ∈ nested, Traced r.files target n) e new)
    (hx : x ∈ new) (hname : x.isBareStar = false) : x.kind = .named ∧
      ∀ valuesOnly, (valuesOnly = true → x.isTypeOnly = false) →
        e.Brings r.files valuesOnly directory x.exportedName := by
  have hself : x ≠ e := by
    rintro rfl
    rw [hstar] at hname
    cases hname
  cases h with
  | astray => exact absurd (List.mem_singleton.1 hx) hself
  | barrel lead _ hnested =>
    rcases Entry.mem_inlined hx with rfl | ⟨-, n, hn, hthrough⟩ | ⟨hbare, -⟩
    · exact absurd rfl hself
    · rw [Entry.isBareStar_of_through hthrough] at hname
      obtain ⟨hsame, hne⟩ := Entry.exportedName_of_through hthrough hname
      obtain ⟨-, -, htype, -, hform⟩ := Entry.through_eq_some hthrough
      obtain ⟨-, hkind, -⟩ := hform.resolve_left (by rintro ⟨h, -⟩; rw [hname] at h; cases h)
      refine ⟨hkind, fun valuesOnly hvalue => ?_⟩
      have hvalues : valuesOnly = true → n.isTypeOnly = false ∧ e.isTypeOnly = false := fun hv =>
        Bool.or_eq_false_iff.1 (htype ▸ hvalue hv)
      rw [hsame]
      exact ⟨hstar, fun hv => (hvalues hv).2, hne, _, lead.located,
        ((hnested n hn).name hname valuesOnly fun hv => (hvalues hv).1).exports⟩
    · rw [hstar] at hbare
      cases hbare
  | leaf lead _ hnew =>
    rcases mem_leafResult hnew hx with rfl | ⟨-, s, d, t, hscan, hd, rfl, ht⟩
    · exact absurd rfl hself
    · exact ⟨rfl, fun valuesOnly hvalue => ⟨hstar, fun hv => (ht (hvalue hv)).1,
        name_ne_default_of_scan hscan d hd, _, lead.located,
        .declared lead.read hscan hd fun hv => (ht (hvalue hv)).2⟩⟩

/-- **The step**: what takes the place of an entry comes from where the entry leads. -/
theorem traced_of_replaced (hpath : Path.normalize path = path)
    (hread : r.files.read path = .ok content) {e x : Entry} (he : e ∈ moduleEntries content)
    {new : List Entry}
    (h : Replaced r (Path.directory path) (fun target nested => ∀ n ∈ nested,
      Traced r.files target n) e new) (hx : x ∈ new) : Traced r.files path x := by
  cases hbare : e.isBareStar with
  | false =>
    obtain ⟨t, rfl, ht⟩ := h.of_not_isBareStar hbare
    rw [List.mem_singleton.1 hx]
    refine ⟨fun _ _ hvalue => .named (e := e) hread he hbare fun hv => ?_,
      fun hstar => ⟨content, hread, e, he, hstar, rfl⟩⟩
    have hvalue : t = false := hvalue hv
    simpa [hvalue] using ht
  | true =>
    refine ⟨fun hname valuesOnly hvalue => ?_, fun _ => ⟨content, hread, e, he, hbare,
      (h.source_eq hx).symm⟩⟩
    have hbrings := (brings_of_replaced hbare h hx hname).2 valuesOnly hvalue
    exact .star hread he (by rwa [hpath])

theorem Traced.normalize_iff {files : Files} (hfiles : files.Canonical) {x : Entry} :
    Traced files (Path.normalize path) x ↔ Traced files path x := by
  constructor
  · rintro ⟨hname, hstar⟩
    refine ⟨fun h v hv => (forwards_normalize_iff hfiles).1 (hname h v hv), fun h => ?_⟩
    rw [← hfiles]
    exact hstar h
  · rintro ⟨hname, hstar⟩
    refine ⟨fun h v hv => (forwards_normalize_iff hfiles).2 (hname h v hv), fun h => ?_⟩
    rw [hfiles]
    exact hstar h

/-- Being traced is carried through the traversal. -/
theorem carried_traced (hfiles : r.files.Canonical) :
    Carried r fun path found => ∀ x ∈ found, Traced r.files path x where
  nil _ := nofun
  spelled h x hx := (Traced.normalize_iff hfiles).1 (h x hx)
  merged hpath hread hnews x hx := by
    obtain ⟨e, he, new, hrep, hx⟩ := exists_of_mem_merged hnews hx
    exact traced_of_replaced hpath hread he hrep hx

end Resolver

/-- **Resolution never invents a binding.** In the list that is found for a module, from scratch and
whatever the files, every name is one that the re-exports of the module give it, and one that they
give it as a value if the entry is a value; and every whole namespace has the source of one that the
module writes. -/
theorem resolveFile_invents_nothing (m : MemoryFiles) (flatten : Bool) (root : String)
    {found : List Entry} {q : Progress}
    (h : Yields (Resolver.resolveFile ⟨m.files, flatten⟩ root) {} found q) :
    (∀ x ∈ found, x.isBareStar = false → Forwards m.files false root x.exportedName ∧
      (x.isTypeOnly = false → Forwards m.files true root x.exportedName)) ∧
    ∀ x ∈ found, x.isBareStar = true → ∃ content, m.files.read root = .ok content ∧
      ∃ e ∈ moduleEntries content, e.isBareStar = true ∧ e.source = x.source := by
  obtain ⟨-, htraced⟩ := Resolver.resolveWithin_lists
    (Resolver.carried_traced (r := ⟨m.files, flatten⟩) m.canonical_files) _
    (Resolver.records_empty _) h
  refine ⟨fun x hx hname => ⟨?_, fun hvalue => ?_⟩, fun x hx hstar => (htraced x hx).star hstar⟩
  · exact (htraced x hx).name hname false nofun
  · exact (htraced x hx).name hname true fun _ => hvalue

/-- Two barrels that pass on all of each other, one a type and the other a value. -/
def loopFiles : MemoryFiles := .ofList
  [("/a.ts", "export * from \"./b\";\nexport { V } from \"./c\";\n"),
    ("/b.ts", "export * from \"./a\";\nexport type { T } from \"./c\";\n")]

/-- The first of two barrels in a loop: the whole namespace of the second stays, and both names are
accounted for. -/
theorem resolveFile_invents_nothing_loop : ∃ found q,
    Yields (Resolver.resolveFile ⟨loopFiles.files, true⟩ "/a.ts") {} found q ∧
      found.map Entry.exportedName = ["*", "T", "V"] ∧
      (∀ x ∈ found, x.isBareStar = false → Forwards loopFiles.files false "/a.ts" x.exportedName ∧
        (x.isTypeOnly = false → Forwards loopFiles.files true "/a.ts" x.exportedName)) ∧
      ∀ x ∈ found, x.isBareStar = true → ∃ content, loopFiles.files.read "/a.ts" = .ok content ∧
        ∃ e ∈ moduleEntries content, e.isBareStar = true ∧ e.source = x.source := by
  obtain ⟨q, h⟩ := exists_yields_of_run (p := {})
    (x := Resolver.resolveFile ⟨loopFiles.files, true⟩ "/a.ts")
    (a := [{ specifier := "*", source := "./b", kind := .star, originLine := 1,
             specifier_ne_empty := by decide, source_ne_empty := by decide,
             specifier_of_star := fun _ => rfl },
           { specifier := "T", source := "./b", kind := .named, isTypeOnly := true, originLine := 1,
             specifier_ne_empty := by decide, source_ne_empty := by decide,
             specifier_of_star := by decide },
           { specifier := "V", source := "./c", kind := .named, originLine := 2,
             specifier_ne_empty := by decide, source_ne_empty := by decide,
             specifier_of_star := by decide }])
    (by decide +kernel)
  exact ⟨_, q, h, rfl, resolveFile_invents_nothing loopFiles true "/a.ts" h⟩

end Reexport
