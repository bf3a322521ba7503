import Reexport.Proofs.Expansion
import Reexport.Proofs.RoundTrip
import Reexport.Proofs.Stages
import Reexport.Proofs.WordNames

/-!
# Reading a transformed barrel

A transformation gives the entries of a barrel and a text for them. Whether the text holds these
entries depends on their names alone. All else about an entry is fit to be written: an entry that was
read is well formed, and one made of a declared name is well formed if the name is a word (`Formed`).
Only words are read from a text, so a name that is none is lost, be it from a namespace with a dotted
name or from an export under a name in quotes.

## What is proved

* `formed_of_replaced`, `carried_formed` — entries are formed, however deep they come from.
* `formed_of_collect` — so are the entries that are left of a barrel, whatever the options.
* `transform_agrees_iff` — text and entries agree exactly if the names of the entries are words, and a
  name that is none is one that some module declares.
-/

namespace Reexport

open Text Resolver Resolving

/-- A module that can be read declares the name. -/
def Files.Declares (files : Files) (name : String) : Prop :=
  ∃ path content s, files.read path = .ok content ∧ scan path content = .ok s ∧
    ∃ d ∈ s.exports, d.name = name

/-- The form of an entry that can be found: it is that of an entry that is read, but for a name that
may be no word. -/
structure Entry.Formed (files : Files) (x : Entry) : Prop where
  /-- If the name is a word, the entry is well formed. -/
  wellFormed : x.kind = .star ∨ IsWord x.exportedName.toList → x.WellFormed
  /-- If it is none, a module declares it. -/
  declared : x.isBareStar = false → IsWord x.exportedName.toList ∨ files.Declares x.exportedName

variable {files : Files} {e n x : Entry}

theorem Entry.WellFormed.formed (h : x.WellFormed) : x.Formed files :=
  ⟨fun _ => h, fun hname => .inl (h.isWord_exportedName hname)⟩

theorem Entry.Formed.of_isBareStar (h : e.Formed files) (hbare : e.isBareStar = true) :
    e.WellFormed :=
  h.wellFormed (.inl (isBareStar_iff.1 hbare).1)

/-- Both words and declared names pass through an `export *`. -/
theorem Entry.Formed.of_through (he : e.WellFormed) (hn : n.Formed files)
    (h : e.through n = some x) : x.Formed files := by
  cases hbare : n.isBareStar with
  | true => exact (he.of_through_of_isWord h fun hname => by simp [hbare] at hname).formed
  | false =>
    obtain ⟨hname, -⟩ := exportedName_of_through h hbare
    have hkind : x.kind ≠ .star := by
      obtain ⟨-, -, -, -, ⟨hbare', -⟩ | ⟨-, hkind, -⟩⟩ := through_eq_some h
      · rw [hbare] at hbare'
        cases hbare'
      · rw [hkind]
        decide
    refine ⟨fun hword => he.of_through_of_isWord h fun _ => ?_, fun _ => ?_⟩
    · rw [← hname]
      exact hword.resolve_left hkind
    · rw [hname]
      exact hn.declared hbare

/-- A declared name in the place of an `export *`. -/
theorem Entry.Formed.of_ofDeclared (he : e.Formed files) {target content : String}
    (hread : files.read target = .ok content) (h : OfDeclared e target content x) :
    x.Formed files := by
  obtain ⟨hbare, s, d, t, hscan, hd, rfl, -⟩ := h
  have hne := name_ne_default_of_scan hscan d hd
  exact ⟨fun hword => (he.of_isBareStar hbare).ofDeclared (hword.resolve_left nofun) hne,
    fun _ => .inr ⟨target, content, s, hread, hscan, d, hd, rfl⟩⟩

/-- What takes the place of an entry is formed, if the entry and the lists of barrels are. -/
theorem formed_of_replaced {r : Resolver} {directory : String} {new : List Entry}
    (he : e.WellFormed)
    (h : Replaced r directory (fun _ nested => ∀ n ∈ nested, n.Formed r.files) e new)
    (hx : x ∈ new) : x.Formed r.files := by
  cases h with
  | astray =>
    rw [List.mem_singleton.1 hx]
    exact he.formed
  | barrel _ _ hnested =>
    rcases Entry.mem_inlined hx with rfl | ⟨-, n, hn, hthrough⟩ | ⟨-, rfl⟩
    · exact he.formed
    · exact .of_through he (hnested n hn) hthrough
    · have hretyped : Entry.WellFormed { e with isTypeOnly := true } :=
        ⟨he.source, he.specifier, he.kind, he.asName, he.renames⟩
      exact hretyped.formed
  | leaf lead _ hnew =>
    rcases mem_leafResult hnew hx with rfl | hdeclared
    · exact he.formed
    · exact .of_ofDeclared he.formed lead.read hdeclared

theorem formed_of_merged {r : Resolver} {directory content : String} {news : List (List Entry)}
    (hnews : List.Forall₂
      (Replaced r directory fun _ nested => ∀ n ∈ nested, n.Formed r.files)
      (moduleEntries content) news) : ∀ x ∈ merged news.flatten, x.Formed r.files := by
  intro x hx
  obtain ⟨e, he, new, hrep, hx⟩ := exists_of_mem_merged hnews hx
  exact formed_of_replaced (wellFormed_of_mem_moduleEntries he) hrep hx

/-- All entries of all lists that are found are formed. -/
theorem carried_formed (r : Resolver) :
    Carried r fun _ found => ∀ x ∈ found, x.Formed r.files where
  nil _ := nofun
  spelled h := h
  merged _ _ hnews := formed_of_merged hnews

/-! ### Transformers -/

namespace Transformer

open Transforming

variable {t : Transformer} {source path text : String} {entries : List Entry}
  {log log' : List Event}

theorem formed_of_entriesOf (h : Yields (t.entriesOf source path) log entries log') :
    ∀ x ∈ entries, x.Formed t.files := by
  unfold entriesOf at h
  split at h
  · obtain ⟨q, hrun, -⟩ := yields_resolving_iff.1 h
    obtain ⟨news, hnews, rfl⟩ := resolveSource_replaced (carried_formed t.resolver) rfl hrun
    exact formed_of_merged hnews
  · obtain ⟨rfl, -⟩ := yields_pure_iff.1 h
    exact fun x hx => (wellFormed_of_mem_moduleEntries hx).formed

theorem formed_of_nameStars {found : List Entry} (hfound : ∀ x ∈ found, x.Formed t.files)
    (h : Yields (t.nameStars path found) log entries log') : ∀ x ∈ entries, x.Formed t.files := by
  intro x hx
  unfold nameStars at h
  split at h
  · rcases yields_expandStars h hx with hx | ⟨e, he, o, names, o', hnames, hx⟩
    · exact hfound x hx
    · obtain ⟨q, hrun, -⟩ := yields_resolving_iff.1 hnames
      obtain ⟨hresult, -⟩ := (quiet_expandStar t.resolver e _).yields hrun
      obtain ⟨target, content, lead, hdeclared⟩ := ofDeclared_of_mem_starResult hresult hx
      exact .of_ofDeclared (hfound e he) lead.read hdeclared
  · obtain ⟨rfl, -⟩ := yields_pure_iff.1 h
    exact hfound x hx

/-- The entries that are left of a barrel are formed, whatever the options. -/
theorem formed_of_collect (h : Yields (t.collect source path) log entries log') :
    ∀ x ∈ entries, x.Formed t.files := by
  obtain ⟨found, named, ⟨o, hfound⟩, hnamed, rfl⟩ := staged_of_collect h
  intro x hx
  have hx := Options.mem_of_mem_staged hx
  have hformed := formed_of_entriesOf hfound
  rcases hnamed with rfl | ⟨o, o', hnamed⟩
  · exact hformed x hx
  · exact formed_of_nameStars hformed hnamed x hx

end Transformer

/-! ### Text and entries -/

/-- Formed entries whose names are words are read from their text. -/
theorem mem_identities_barrelText (before : String) {entries : List Entry} (hne : entries ≠ [])
    (h : ∀ x ∈ entries, x.WellFormed) (i : Entry.Identity) :
    i ∈ (moduleEntries (barrelText before entries)).map Entry.identity ↔
      i ∈ entries.map Entry.identity := by
  have hunplaced (xs : List Entry) :
      (xs.map Entry.unplaced).map Entry.identity = xs.map Entry.identity := by
    rw [List.map_map]
    rfl
  rw [← hunplaced, unplaced_moduleEntries_barrelText before hne h, ← hunplaced entries]
  simp only [List.mem_map, mem_arranged_iff]

/-- **When text and entries agree.** Let a transformation, over any files and with any options, give
a text and some entries. The identities of the entries in the text are those of the entries given
exactly if all names of these are words. A name that is no word is declared by a module that can be
read. -/
theorem transform_agrees_iff (t : Transformer) {source path text : String} {entries : List Entry}
    {log log' : List Event} (hne : entries ≠ [])
    (h : Yields (t.transform source path) log (text, entries) log') :
    ((∀ i, i ∈ (moduleEntries text).map Entry.identity ↔ i ∈ entries.map Entry.identity) ↔
      ∀ x ∈ entries, x.isBareStar = false → IsWord x.exportedName.toList) ∧
    ∀ x ∈ entries, x.isBareStar = false → ¬IsWord x.exportedName.toList →
      t.files.Declares x.exportedName := by
  obtain ⟨rfl, hcollected⟩ := Transformer.barrelText_of_transform h
  obtain ⟨o, o', hcollect⟩ := hcollected hne
  have hformed := Transformer.formed_of_collect hcollect
  refine ⟨⟨fun hagree x hx hname => ?_, fun hwords => ?_⟩,
    fun x hx hname hword => ((hformed x hx).declared hname).resolve_left hword⟩
  · by_cases hkind : x.kind = .star
    · exact ((hformed x hx).wellFormed (.inl hkind)).isWord_exportedName hname
    -- The entry of this identity in the text has a name of its own too, and such a name is a word.
    obtain ⟨y, hy, hidentity⟩ := List.mem_map.1 ((hagree _).2 (List.mem_map_of_mem hx))
    simp only [Entry.identity, Entry.Identity.mk.injEq] at hidentity
    obtain ⟨hsame, -, hsamekind, -⟩ := hidentity
    rw [← hsame]
    refine (wellFormed_of_mem_moduleEntries hy).isWord_exportedName ?_
    rw [← hsamekind] at hkind
    simp [Entry.isBareStar, hkind]
  · refine mem_identities_barrelText source hne fun x hx => (hformed x hx).wellFormed ?_
    cases hbare : x.isBareStar with
    | true => exact .inl (Entry.isBareStar_iff.1 hbare).1
    | false => exact .inr (hwords x hx hbare)

/-- A barrel behind a barrel, a module whose names are written out, and one of types. -/
def printedFiles : MemoryFiles := .ofList
  [("/p/a.ts", "export { default as D, x } from \"./leaf\";\nexport * as all from \"pkg\";\n"),
    ("/p/leaf.ts", "export const x = 1;\nexport class C \x7b\x7d\nexport type T = 1;\n"),
    ("/p/types.ts", "export interface I \x7b\x7d\n")]

/-- A barrel of these modules. -/
def printedSource : String :=
  "// all\nexport * from \"./leaf\";\nexport { x as y } from \"./leaf\";\n" ++
    "export * from \"./a\";\nexport * from \"./types\";\nexport { default } from \"pkg\";\n"

/-- The text that takes its place. -/
def printedText : String :=
  "export { x, D, all } from \"./a\";\nexport { C, x as y } from \"./leaf\";\n" ++
    "export type { T } from \"./leaf\";\nexport type { I } from \"./types\";\n" ++
    "export { default } from \"pkg\";\n"

/-- The transformer for these modules, with all stages on but sorting. -/
def printedTransformer : Transformer :=
  ⟨printedFiles.files, ⟨true, false, true, true⟩, ["index.ts"]⟩

/-- Names from a barrel, names and types that are written out, and a default: all are words, and the
text has them all. -/
theorem transform_agrees_iff_printed : ∃ entries log', entries ≠ [] ∧
    Yields (printedTransformer.transform printedSource "/p/index.ts") [] (printedText, entries)
      log' ∧
    ((∀ i, i ∈ (moduleEntries printedText).map Entry.identity ↔ i ∈ entries.map Entry.identity) ↔
      ∀ x ∈ entries, x.isBareStar = false → IsWord x.exportedName.toList) ∧
    (∀ x ∈ entries, x.isBareStar = false → ¬IsWord x.exportedName.toList →
      printedTransformer.files.Declares x.exportedName) ∧
    ∀ i, i ∈ (moduleEntries printedText).map Entry.identity ↔ i ∈ entries.map Entry.identity := by
  obtain ⟨⟨text, entries⟩, log', h, hresult⟩ := exists_yields_of_map (p := [])
    (x := printedTransformer.transform printedSource "/p/index.ts")
    (f := fun r => (r.1, r.2.isEmpty, r.2.all fun x => decide (IsWord x.exportedName.toList)))
    (b := (printedText, false, true)) (by decide +kernel)
  simp only [Prod.mk.injEq] at hresult
  obtain ⟨rfl, hsome, hwords⟩ := hresult
  have hne : entries ≠ [] := by simpa using hsome
  obtain ⟨hiff, hdeclared⟩ := transform_agrees_iff printedTransformer hne h
  exact ⟨entries, log', hne, h, hiff, hdeclared, hiff.2 fun x hx _ =>
    of_decide_eq_true (List.all_eq_true.1 hwords x hx)⟩

/-- A module that exports a namespace within a namespace. -/
def dottedLeafFiles : MemoryFiles := .ofList
  [("/p/index.ts", "export * from \"./leaf\";\n"),
    ("/p/leaf.ts", "export namespace A.B \x7b\n  export const c = 1;\n\x7d\n")]

/-- **A name is lost**: the namespace is written out by its dotted name, which is read by no one. -/
theorem transform_loses_dotted : ∃ entries log',
    Yields (Transformer.transform ⟨dottedLeafFiles.files, { nameStars := true }, ["index.ts"]⟩
      "export * from \"./leaf\";\n" "/p/index.ts") []
      ("export { A.B } from \"./leaf\";\n", entries) log' ∧
    entries.map Entry.identity = [⟨"A.B", "./leaf", .named, false⟩] ∧
    ¬∀ i, i ∈ (moduleEntries "export { A.B } from \"./leaf\";\n").map Entry.identity ↔
      i ∈ entries.map Entry.identity := by
  obtain ⟨⟨text, entries⟩, log', h, hresult⟩ := exists_yields_of_map (p := [])
    (x := Transformer.transform ⟨dottedLeafFiles.files, { nameStars := true }, ["index.ts"]⟩
      "export * from \"./leaf\";\n" "/p/index.ts")
    (f := fun r => (r.1, r.2.map Entry.identity))
    (b := ("export { A.B } from \"./leaf\";\n", [⟨"A.B", "./leaf", .named, false⟩]))
    (by decide +kernel)
  simp only [Prod.mk.injEq] at hresult
  obtain ⟨rfl, hidentities⟩ := hresult
  have hread : moduleEntries "export { A.B } from \"./leaf\";\n" = [] := by decide +kernel
  refine ⟨entries, log', h, hidentities, fun hagree => ?_⟩
  have hlost := (hagree ⟨"A.B", "./leaf", .named, false⟩).2 (by rw [hidentities]; simp)
  rw [hread] at hlost
  cases hlost

end Reexport
