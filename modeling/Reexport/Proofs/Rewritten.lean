import Reexport.Proofs.Endings
import Reexport.Proofs.Lines
import Reexport.Proofs.RoundTrip
import Reexport.Proofs.Stages
import Reexport.Proofs.Traversal
import Reexport.Proofs.WordNames

/-!
# Modules after a barrel was rewritten

`Rewritten m o path source out found` says that a run found the entries `found` for the barrel at
`path`, and that its text `source` gives way to `out`. The sections below say what a second run meets,
in which `out` is stored in the place of `source`: the entries read from `out` are those written,
their sources lead where they led before, and all modules behind them were taken up by the first run.

## What is proved

* `Rewritten.unplaced_moduleEntries` — the entries of the new text.
* `Rewritten.leafResult_again` — nothing takes the place of an entry of the new text whose source is
  no barrel: an `export *` that stands in it found no names, and finds none again.
* `Rewritten.exists_again` — the second run is not interrupted.
* `Rewritten.again_wellFormed` — the list that it finds is well formed.
-/

namespace Reexport

open Text Resolver Resolving

/-! ### The new text -/

/-- The run for the barrel at `path` with the text `source` found the entries `found`, and the text
of the barrel becomes `out`. -/
structure Rewritten (m : MemoryFiles) (o : Options) (path source out : String)
    (found : List Entry) : Prop where
  /-- The text before is stored. -/
  read : m.read path = .ok source
  /-- Only words are written out. -/
  words : Resolver.WritesWords ⟨m.files, o.nameStars⟩
  /-- The run. -/
  run : ∃ q, Yields (Resolver.resolveSource ⟨m.files, o.nameStars⟩ source path)
    ⟨{}, [.started path]⟩ found q
  /-- The text after. -/
  text : out = barrelText source (o.staged found)

namespace Rewritten

variable {m : MemoryFiles} {o : Options} {path source out : String} {found : List Entry}

/-- The entries found replace those of the text before. -/
theorem replaced (h : Rewritten m o path source out found) :
    ∃ news, List.Forall₂ (Replaced ⟨m.files, o.nameStars⟩ (Path.directory (Path.normalize path))
      fun _ nested => ∀ n ∈ nested, n.WellFormed) (moduleEntries source) news ∧
        found = merged news.flatten := by
  obtain ⟨q, hrun⟩ := h.run
  obtain ⟨news, hnews, rfl⟩ := resolveSource_replaced (carried_wellFormed h.words) rfl hrun
  exact ⟨news, hnews, rfl⟩

theorem wellFormed (h : Rewritten m o path source out found) {x : Entry} (hx : x ∈ found) :
    x.WellFormed := by
  obtain ⟨news, hnews, rfl⟩ := h.replaced
  obtain ⟨e, he, new, hrep, hx⟩ := exists_of_mem_merged hnews hx
  exact wellFormed_of_replaced h.words (wellFormed_of_mem_moduleEntries he) hrep hx

/-- **The entries of the new text** are those that are left, in the order in which they are
written. -/
theorem unplaced_moduleEntries (h : Rewritten m o path source out found) :
    (moduleEntries out).map Entry.unplaced = arranged (o.staged found) := by
  rw [h.text]
  by_cases hnil : o.staged found = []
  · have hfound : found = [] := by
      by_contra hne
      exact Options.staged_ne_nil hne hnil
    obtain ⟨news, hnews, hmerged⟩ := h.replaced
    have hsource : moduleEntries source = [] := by
      by_contra hne
      exact merged_ne_nil_of_replaced hnews hne (hmerged.symm.trans hfound)
    rw [hnil]
    show (moduleEntries source).map Entry.unplaced = []
    rw [hsource]
    rfl
  · exact unplaced_moduleEntries_barrelText source hnil
      fun x hx => h.wellFormed (Options.mem_of_mem_staged hx)

/-- Every entry of the new text was found, on some line. -/
theorem exists_found (h : Rewritten m o path source out found) {e : Entry}
    (he : e ∈ moduleEntries out) : ∃ x ∈ found, x.unplaced = e.unplaced := by
  have hmem : e.unplaced ∈ (moduleEntries out).map Entry.unplaced := List.mem_map_of_mem he
  rw [h.unplaced_moduleEntries, mem_arranged_iff] at hmem
  obtain ⟨x, hx, heq⟩ := List.mem_map.1 hmem
  exact ⟨x, Options.mem_of_mem_staged hx, heq⟩

/-- It took the place of an entry of the text before. -/
theorem exists_replaced (h : Rewritten m o path source out found) {e : Entry}
    (he : e ∈ moduleEntries out) : ∃ e' ∈ moduleEntries source, ∃ new x,
      Replaced ⟨m.files, o.nameStars⟩ (Path.directory (Path.normalize path))
        (fun _ nested => ∀ n ∈ nested, n.WellFormed) e' new ∧
      x ∈ new ∧ x.unplaced = e.unplaced ∧ e'.source = e.source := by
  obtain ⟨x, hx, heq⟩ := h.exists_found he
  obtain ⟨news, hnews, rfl⟩ := h.replaced
  obtain ⟨e', he', new, hrep, hx⟩ := exists_of_mem_merged hnews hx
  refine ⟨e', he', new, x, hrep, hx, heq, ?_⟩
  rw [← hrep.source_eq hx]
  exact (Entry.unplaced_eq_iff.1 heq).2.1

/-! ### What the second run meets -/

theorem holds_add (h : Rewritten m o path source out found) :
    (m.add path out).files.holds = m.files.holds :=
  MemoryFiles.holds_add_of_holds (MemoryFiles.holds_of_read h.read) out

theorem read_add_path (m : MemoryFiles) (path out : String) :
    (m.add path out).files.read (Path.normalize path) = .ok out := by
  show (m.add path out).read (Path.normalize path) = .ok out
  rw [MemoryFiles.read_add, if_pos (Path.normalize_normalize path)]

theorem read_add_of_ne {other : String} (hne : Path.normalize other ≠ Path.normalize path) :
    (m.add path out).files.read other = m.files.read other := by
  show (m.add path out).read other = m.read other
  rw [MemoryFiles.read_add, if_neg hne]

theorem read_of_add {other content : String} (hne : Path.normalize other ≠ Path.normalize path)
    (hread : (m.add path out).files.read (Path.normalize other) = .ok content) :
    m.files.read (Path.normalize other) = .ok content := by
  rw [← hread]
  exact (read_add_of_ne (by rw [Path.normalize_normalize]; exact hne)).symm

/-- Entries lead where they led before. -/
theorem located_add (h : Rewritten m o path source out found) {directory target content : String}
    {e e' : Entry} (lead : Leads (m.add path out).files directory e target content)
    (hsource : e'.source = e.source) :
    locate m.files moduleExtensions e'.source directory = some target := by
  rw [hsource, ← locate_congr h.holds_add]
  exact lead.located

/-- Another module is found as it was before. -/
theorem leads_of_add (h : Rewritten m o path source out found) {directory target content : String}
    {e e' : Entry} (lead : Leads (m.add path out).files directory e target content)
    (hsource : e'.source = e.source) (hne : Path.normalize target ≠ Path.normalize path) :
    Leads m.files directory e' target content :=
  ⟨h.located_add lead hsource, read_add_of_ne hne ▸ lead.read⟩

/-- A module that is no barrel is another one, as one that leads somewhere is a barrel. -/
theorem ne_of_leaf {directory target content : String} {e : Entry}
    (lead : Leads (m.add path out).files directory e target content)
    (hbarrel : isBarrel (moduleEntries out) = true)
    (hleaf : isBarrel (moduleEntries content) = false) :
    Path.normalize target ≠ Path.normalize path := by
  intro heq
  have hread : (m.add path out).read target = .ok content := lead.read
  rw [MemoryFiles.read_add, if_pos heq, Except.ok.injEq] at hread
  rw [← hread, hbarrel] at hleaf
  cases hleaf

/-- **Names are written out once**: where an `export *` of the new text leads to a module that is no
barrel, nothing takes its place. -/
theorem leafResult_again (h : Rewritten m o path source out found) {e : Entry}
    (he : e ∈ moduleEntries out) {target content : String}
    (lead : Leads (m.add path out).files (Path.directory (Path.normalize path)) e target content)
    (hleaf : isBarrel (moduleEntries content) = false) :
    Resolver.leafResult ⟨(m.add path out).files, o.nameStars⟩ e target content = .ok [e] := by
  by_cases hbare : e.isBareStar = true
  · obtain ⟨e', -, new, x, hrep, hx, heq, hsource⟩ := h.exists_replaced he
    have hne := ne_of_leaf lead (isBarrel_of_leads he lead) hleaf
    have lead' := h.leads_of_add lead hsource hne
    have hxbare : x.isBareStar = true := by
      have h' : x.unplaced.isBareStar = e.unplaced.isBareStar := by rw [heq]
      exact h'.trans hbare
    have hresult : Resolver.leafResult ⟨m.files, o.nameStars⟩ e' target content = .ok [e'] ∧
        x = e' := by
      cases hrep with
      | astray hnone => exact absurd lead' (hnone _ _)
      | barrel lead'' hbarrel =>
        obtain rfl := Option.some.inj (lead'.located.symm.trans lead''.located)
        obtain rfl := Except.ok.inj (lead'.read.symm.trans lead''.read)
        rw [hleaf] at hbarrel
        cases hbarrel
      | leaf lead'' _ hnew =>
        obtain rfl := Option.some.inj (lead'.located.symm.trans lead''.located)
        obtain rfl := Except.ok.inj (lead'.read.symm.trans lead''.read)
        obtain rfl := leafResult_of_mem_star hnew hx hxbare
        exact ⟨hnew, List.mem_singleton.1 hx⟩
    obtain ⟨hresult, rfl⟩ := hresult
    have hline : e = x.atLine e.originLine := by
      have h' : x.unplaced.atLine e.originLine = e.unplaced.atLine e.originLine := by rw [heq]
      exact h'.symm
    have hatLine := leafResult_atLine ⟨m.files, o.nameStars⟩ x e.originLine target content
    rw [← hline, hresult] at hatLine
    refine hatLine.trans ?_
    rw [hline]
    rfl
  · exact leafResult_of_not_isBareStar (by simpa using hbare) target content

/-! ### The second run -/

/-- The modules to which a second run can come: the barrel, and, unless all its sources lie outside,
those that the first run took up. -/
def Reach (path out : String) (c : Context) (target : String) : Prop :=
  Path.normalize target = Path.normalize path ∨
    isBarrel (moduleEntries out) = true ∧ Path.normalize target ∈ c.visited

/-- Nothing that the first run passed stops the second one. -/
theorem unhindered (h : Rewritten m o path source out found) :
    ∃ c, Unhindered ⟨(m.add path out).files, o.nameStars⟩ (Reach path out c) := by
  obtain ⟨q, hrun⟩ := h.run
  obtain ⟨⟨news, hnews, -⟩, hdone⟩ := done_of_resolveSource rfl hrun
  refine ⟨q.context, exists_readResult _, fun {other content e} hpath _ hread he => ⟨?_, ?_⟩⟩
  · intro target nested lead hbarrel
    by_cases ht : Path.normalize target = Path.normalize path
    · exact .inl ht
    by_cases hp : Path.normalize other = Path.normalize path
    · rw [hp] at hread lead
      obtain rfl := Except.ok.inj ((read_add_path m path out).symm.trans hread)
      obtain ⟨e', he', -, -, -, -, -, hsource⟩ := h.exists_replaced he
      exact .inr ⟨isBarrel_of_leads he lead,
        (followed_of_replaced hnews he').barrel (h.leads_of_add lead hsource ht) hbarrel⟩
    · obtain ⟨hout, hvisited⟩ := hpath.resolve_left hp
      have hdone := (hdone _ hvisited).resolve_left hp content (read_of_add hp hread)
      exact .inr ⟨hout, (hdone e he).barrel (h.leads_of_add lead rfl ht) hbarrel⟩
  · intro target nested lead hleaf
    by_cases hp : Path.normalize other = Path.normalize path
    · rw [hp] at hread lead
      obtain rfl := Except.ok.inj ((read_add_path m path out).symm.trans hread)
      exact ⟨[e], h.leafResult_again he lead hleaf⟩
    · obtain ⟨hout, hvisited⟩ := hpath.resolve_left hp
      have hdone := (hdone _ hvisited).resolve_left hp content (read_of_add hp hread)
      exact (hdone e he).leaf (h.leads_of_add lead rfl (ne_of_leaf lead hout hleaf)) hleaf

/-- **A second run is not interrupted.** -/
theorem exists_again (h : Rewritten m o path source out found) (p : Progress) :
    ∃ again q, Yields (Resolver.resolveSource ⟨(m.add path out).files, o.nameStars⟩ out path) p
      again q := by
  obtain ⟨c, hS⟩ := h.unhindered
  exact ends_resolveSource hS (.inl rfl) (read_add_path m path out) p

/-- The names that other modules declare are the same. -/
theorem writesWords_add (h : Rewritten m o path source out found)
    (hbarrel : isBarrel (moduleEntries out) = true) :
    Resolver.WritesWords ⟨(m.add path out).files, o.nameStars⟩ := by
  intro directory e target content new lead hleaf hnew
  exact h.words directory e target content new
    (h.leads_of_add lead rfl (ne_of_leaf lead hbarrel hleaf)) hleaf hnew

/-- The list that a second run finds is well formed. -/
theorem again_wellFormed (h : Rewritten m o path source out found) {again : List Entry}
    {p q : Progress} (hp : p.context = {})
    (hrun : Yields (Resolver.resolveSource ⟨(m.add path out).files, o.nameStars⟩ out path) p
      again q) : ∀ x ∈ again, x.WellFormed := by
  intro x hx
  cases hbarrel : isBarrel (moduleEntries out) with
  | true =>
    have hwords := h.writesWords_add hbarrel
    obtain ⟨news, hnews, rfl⟩ := resolveSource_replaced (carried_wellFormed hwords) hp hrun
    obtain ⟨e, he, new, hrep, hx⟩ := exists_of_mem_merged hnews hx
    exact wellFormed_of_replaced hwords (wellFormed_of_mem_moduleEntries he) hrep hx
  | false =>
    obtain ⟨⟨news, hnews, rfl⟩, -⟩ := done_of_resolveSource hp hrun
    obtain ⟨e, he, new, hrep, hx⟩ := exists_of_mem_merged hnews hx
    have hnone {target content : String} : ¬Leads (m.add path out).files
        (Path.directory (Path.normalize path)) e target content := by
      intro lead
      rw [isBarrel_of_leads he lead] at hbarrel
      cases hbarrel
    cases hrep with
    | astray =>
      rw [List.mem_singleton.1 hx]
      exact wellFormed_of_mem_moduleEntries he
    | barrel lead => exact absurd lead hnone
    | leaf lead => exact absurd lead hnone

end Rewritten

end Reexport
