import Reexport.Proofs.Traversal

/-!
# What is conserved in a module

The list that is found for a module is made from its entries alone, however deep the barrels behind
them are. Every entry found stands for one that the module writes, with the source and the line of
that one, and it is a type if that one is. Every name of the module's own is found again in its form.
An `export *` is found again as it was written unless it leads to a module that can be read and is
another one: only such a module has a list to put in its place.

Merging takes nothing away from this. The entry that is left under a key may be another one than the
one put in first, but it has the name, the form and the flavour, and an `export *` has its source in
its key.

## What is proved

* `inlined_nil`, `eq_singleton_of_confined` — an entry that leads to no other module stays as it is.
* `exists_mem_merged_of_replaced` — what takes the place of an entry is left, up to its key.
* `resolveFile_conserves` — what is conserved in the list found for a module, from scratch, over all
  files.
-/

namespace Reexport

open Resolving

/-- An entry of the module with the given normal path and text leads to no other module that can be
read. -/
inductive Entry.Confined (files : Files) (path content : String) (e : Entry) : Prop where
  /-- The source is that of a package. -/
  | package (h : e.isRelative = false)
  /-- The source leads to no path. -/
  | missing (h : locate files moduleExtensions e.source (Path.directory path) = none)
  /-- The source leads to a path whose module cannot be read. -/
  | unreadable {target : String}
      (hloc : locate files moduleExtensions e.source (Path.directory path) = some target)
      (h : ∀ text, files.read target ≠ .ok text)
  /-- The source leads to the module itself, perhaps under another spelling of its path. -/
  | itself {target : String}
      (hloc : locate files moduleExtensions e.source (Path.directory path) = some target)
      (hpath : Path.normalize target = path) (hread : files.read target = .ok content)

/-- A barrel that gives nothing changes nothing. -/
theorem Entry.inlined_nil (e : Entry) : e.inlined [] = [e] := rfl

namespace Resolver

variable {r : Resolver} {path content : String} {e : Entry} {new : List Entry} {c : Context}

/-- A module to which such an entry leads is the one that holds the entry. -/
theorem Leads.of_confined {target text : String} (h : e.Confined r.files path content)
    (lead : Leads r.files (Path.directory path) e target text) :
    Path.normalize target = path ∧ text = content := by
  cases h with
  | package hrel =>
    rw [isRelative_of_locate lead.located] at hrel
    cases hrel
  | missing hloc =>
    rw [lead.located] at hloc
    cases hloc
  | unreadable hloc hread =>
    obtain rfl := Option.some.inj (lead.located.symm.trans hloc)
    exact absurd lead.read (hread text)
  | itself hloc hpath hread =>
    obtain rfl := Option.some.inj (lead.located.symm.trans hloc)
    exact ⟨hpath, Except.ok.inj (lead.read.symm.trans hread)⟩

/-- **An entry that leads to no other module stays as it is.** While a module is being resolved it has
no list, so an entry that leads back to it finds nothing. -/
theorem eq_singleton_of_confined (he : e ∈ moduleEntries content)
    (h : e.Confined r.files path content) (hopen : c.recorded? path = none)
    (hrep : Replaced r (Path.directory path) (Listed c) e new) : new = [e] := by
  cases hrep with
  | astray => rfl
  | barrel lead _ hlist =>
    obtain ⟨hpath, -⟩ := lead.of_confined h
    obtain ⟨-, hnested⟩ := hlist
    rw [hpath, hopen] at hnested
    rw [← hnested]
    exact e.inlined_nil
  | leaf lead hleaf =>
    -- The module itself is a barrel: it holds an entry that leads somewhere.
    obtain ⟨-, htext⟩ := lead.of_confined h
    have hbarrel := isBarrel_of_leads he lead
    rw [← htext, hleaf] at hbarrel
    cases hbarrel

/-- What takes the place of an entry is left, up to its key. -/
theorem exists_mem_merged_of_replaced {R : Entry → List Entry → Prop} {entries : List Entry}
    {news : List (List Entry)} (hnews : List.Forall₂ R entries news) (he : e ∈ entries) :
    ∃ new, R e new ∧ ∀ x ∈ new, ∃ y ∈ merged news.flatten, y.mergeKey = x.mergeKey := by
  obtain ⟨new, hnew, hrep⟩ := exists_of_mem_left hnews he
  exact ⟨new, hrep, fun x hx => exists_mem_merged_iff.2 ⟨x, List.mem_flatten.2 ⟨new, hnew, hx⟩, rfl⟩⟩

end Resolver

/-- An `export *` has its identity in its key. -/
theorem Entry.identity_eq_of_mergeKey_eq {x y : Entry} (hkey : y.mergeKey = x.mergeKey)
    (hbare : x.isBareStar = true) : y.identity = x.identity := by
  obtain ⟨hname, hkind, htype, hstar, hsource⟩ := mergeKey_eq_iff.1 hkey
  rw [identity, identity, hname, hkind, htype, hsource (hstar.trans hbare)]

/-- **What is conserved.** Let a list be found, from scratch and over any files, for a module that can
be read.

1. Every entry in it has the source and the line of an entry of the module, and is a type if that one
   is.
2. Every name of the module's own is in it, in its form, and as a type if it is one.
3. Every `export *` that leads to no other module is in it, with its source and its flavour.
4. No two entries in it have one key. -/
theorem resolveFile_conserves (r : Resolver) {root content : String} {found : List Entry}
    {q : Progress} (hread : r.files.read (Path.normalize root) = .ok content)
    (h : Yields (r.resolveFile root) {} found q) :
    (∀ x ∈ found, ∃ e ∈ moduleEntries content, x.source = e.source ∧ x.originLine = e.originLine ∧
      (e.isTypeOnly = true → x.isTypeOnly = true)) ∧
    (∀ e ∈ moduleEntries content, e.isBareStar = false → ∃ x ∈ found,
      x.exportedName = e.exportedName ∧ x.kind = e.kind ∧
        (e.isTypeOnly = true → x.isTypeOnly = true)) ∧
    (∀ e ∈ moduleEntries content, e.isBareStar = true →
      e.Confined r.files (Path.normalize root) content → ∃ x ∈ found, x.identity = e.identity) ∧
    (found.map Entry.mergeKey).Nodup := by
  obtain ⟨c, news, hnews, rfl, hopen, -⟩ := Resolver.replaced_of_resolveFile rfl hread h
  refine ⟨fun x hx => ?_, fun e he hname => ?_, fun e he hbare hconfined => ?_,
    nodup_keys_merged _⟩
  · obtain ⟨e, he, new, hrep, hx⟩ := Resolver.exists_of_mem_merged hnews hx
    obtain ⟨hsource, hline, htype⟩ := hrep.derived hx
    exact ⟨e, he, hsource, hline, htype⟩
  · obtain ⟨new, hrep, hleft⟩ := Resolver.exists_mem_merged_of_replaced hnews he
    obtain ⟨t, rfl, ht⟩ := hrep.of_not_isBareStar hname
    obtain ⟨x, hx, hkey⟩ := hleft _ List.mem_cons_self
    obtain ⟨hsame, hkind, htype, -, -⟩ := Entry.mergeKey_eq_iff.1 hkey
    exact ⟨x, hx, hsame, hkind, fun he => by rw [htype]; exact ht he⟩
  · obtain ⟨new, hrep, hleft⟩ := Resolver.exists_mem_merged_of_replaced hnews he
    obtain rfl := Resolver.eq_singleton_of_confined he hconfined hopen hrep
    obtain ⟨x, hx, hkey⟩ := hleft e List.mem_cons_self
    exact ⟨x, hx, Entry.identity_eq_of_mergeKey_eq hkey hbare⟩

/-- All of a package, of a missing module, of one that may not be read, of the module itself and of a
barrel that leads back to it, and a name which that barrel has as a type. -/
def strandedText : String :=
  "export * from \"pkg\";\nexport * from \"./gone\";\nexport * from \"./locked\";\n" ++
    "export * from \"./index\";\nexport type * from \"./b\";\nexport { T as U } from \"./b\";\n"

/-- The barrel of this text, the one behind it, and the module that may not be read. -/
def strandedFiles : Files :=
  (MemoryFiles.ofList [("/p/index.ts", strandedText),
    ("/p/b.ts", "export type { T } from \"./c\";\nexport * from \"./index\";\n")]).files.withLocked
    ["/p/locked.ts"]

theorem resolveFile_conserves_stranded :
    strandedFiles.read (Path.normalize "/p/index.ts") = .ok strandedText ∧
    ∃ found q, Yields (Resolver.resolveFile ⟨strandedFiles, true⟩ "/p/index.ts") {} found q ∧
      (found.map fun x => (x.exportedName, x.source, x.isTypeOnly, x.originLine)) =
        [("*", "pkg", false, 1), ("*", "./gone", false, 2), ("*", "./locked", false, 3),
          ("*", "./index", false, 4), ("T", "./b", true, 5), ("*", "./b", true, 5),
          ("U", "./b", true, 6)] ∧
      (∀ x ∈ found, ∃ e ∈ moduleEntries strandedText, x.source = e.source ∧
        x.originLine = e.originLine ∧ (e.isTypeOnly = true → x.isTypeOnly = true)) ∧
      (∀ e ∈ moduleEntries strandedText, e.isBareStar = false → ∃ x ∈ found,
        x.exportedName = e.exportedName ∧ x.kind = e.kind ∧
          (e.isTypeOnly = true → x.isTypeOnly = true)) ∧
      (∀ e ∈ moduleEntries strandedText, e.isBareStar = true →
        e.Confined strandedFiles (Path.normalize "/p/index.ts") strandedText →
          ∃ x ∈ found, x.identity = e.identity) ∧
      (found.map Entry.mergeKey).Nodup := by
  have hread : strandedFiles.read (Path.normalize "/p/index.ts") = .ok strandedText := by
    decide +kernel
  obtain ⟨found, q, h, hfound⟩ := exists_yields_of_map (p := {})
    (x := Resolver.resolveFile ⟨strandedFiles, true⟩ "/p/index.ts")
    (f := List.map fun x => (x.exportedName, x.source, x.isTypeOnly, x.originLine))
    (b := [("*", "pkg", false, 1), ("*", "./gone", false, 2), ("*", "./locked", false, 3),
      ("*", "./index", false, 4), ("T", "./b", true, 5), ("*", "./b", true, 5),
      ("U", "./b", true, 6)])
    (by decide +kernel)
  exact ⟨hread, found, q, h, hfound, resolveFile_conserves ⟨strandedFiles, true⟩ hread h⟩

end Reexport
