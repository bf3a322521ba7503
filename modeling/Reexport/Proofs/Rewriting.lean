import Reexport.Proofs.Retyping
import Reexport.Proofs.Rewritten

/-!
# Rewriting a barrel again

A barrel that was rewritten with other barrels followed is read back as it was written, and yet a
second rewriting need not leave it alone. A name that came through an `export *` stands in the new
text with the barrel as its source, and is now compared with what that barrel passes on: if the
barrel passes on a type of that name too, the second run takes the name for a type. An `export *`
that is left in the text and leads to a barrel is inlined once more, in another place than before.

## What is proved

* `rewrite_again_iff` — the second rewriting ends, and gives the same text exactly if the entries that
  it finds are arranged as those of the text are. If no `export *` of the text leads to a barrel, this
  comes to one thing: no name that the text passes on as a value is passed on as a type by the
  barrel behind it.
-/

namespace Reexport

open Text Resolver

/-! ### Entries that stay entries -/

/-- One entry takes the place of one, and at most it becomes a type. -/
def Retyped (e : Entry) (new : List Entry) : Prop :=
  ∃ t, new = [{ e with isTypeOnly := t }] ∧ (e.isTypeOnly = true → t = true)

section Retyped

variable {entries : List Entry} {news : List (List Entry)}

theorem eq_of_mem_zip {α β : Type} {xs : List α} {ys : List β} (hnodup : xs.Nodup)
    (hlength : xs.length = ys.length) {x : α} {y y' : β} (hy : (x, y) ∈ xs.zip ys)
    (hy' : (x, y') ∈ xs.zip ys) : y = y' := by
  have hfst : ((xs.zip ys).map Prod.fst).Nodup := by
    rwa [List.map_fst_zip (le_of_eq hlength)]
  exact congrArg Prod.snd (List.inj_on_of_nodup_map hfst hy hy' rfl)

/-- If no entry is missing afterwards, each one stayed as it was. -/
theorem eq_singleton_of_retyped (hnodup : (entries.map Entry.unplaced).Nodup)
    (h : List.Forall₂ Retyped entries news)
    (hall : ∀ e ∈ entries, e.unplaced ∈ news.flatten.map Entry.unplaced) :
    List.Forall₂ (fun e new => new = [e]) entries news := by
  rw [List.forall₂_iff_zip] at h ⊢
  obtain ⟨hlength, hzip⟩ := h
  refine ⟨hlength, fun {e new} hmem => ?_⟩
  obtain ⟨t, rfl, ht⟩ := hzip hmem
  by_cases htype : e.isTypeOnly = t
  · rw [← htype]
  · have hvalue : e.isTypeOnly = false := by
      rw [← Bool.not_eq_true]
      exact fun h => htype (h.trans (ht h).symm)
    -- The value comes from an entry that is a value too, and so from itself.
    have he := (List.of_mem_zip hmem).1
    obtain ⟨x, hx, hxe⟩ := List.mem_map.1 (hall e he)
    obtain ⟨_, hnew, hx⟩ := List.mem_flatten.1 hx
    rw [← List.map_snd_zip (le_of_eq hlength.symm)] at hnew
    obtain ⟨⟨e', new⟩, hmem', rfl⟩ := List.mem_map.1 hnew
    obtain ⟨t', rfl, ht'⟩ := hzip hmem'
    rw [List.mem_singleton] at hx
    have hfalse : t' = false := by
      rw [← hvalue, ← (Entry.unplaced_eq_iff.1 hxe).2.2.2.2, hx]
    have hvalue' : e'.isTypeOnly = t' := by
      rw [hfalse, ← Bool.not_eq_true]
      intro h
      rw [ht' h] at hfalse
      cases hfalse
    have hself : x = e' := by rw [hx, ← hvalue']
    obtain rfl : e' = e :=
      List.inj_on_of_nodup_map hnodup (List.of_mem_zip hmem').1 he (hself ▸ hxe)
    rw [eq_of_mem_zip (.of_map _ hnodup) hlength hmem hmem', ← hvalue']

theorem flatten_of_eq_singleton (h : List.Forall₂ (fun e new => new = [e]) entries news) :
    news.flatten = entries := by
  induction h with
  | nil => rfl
  | cons hnew _ ih => rw [List.flatten_cons, hnew, ih, List.singleton_append]

end Retyped

/-- No `export *` in a text leads to a barrel. -/
def Files.StarsEnd (files : Files) (path content : String) : Prop :=
  ∀ e ∈ moduleEntries content, e.isBareStar = true → ∀ target nested,
    Leads files (Path.directory (Path.normalize path)) e target nested →
      isBarrel (moduleEntries nested) = false

/-! ### Entries of a text that was written -/

namespace Rewritten

variable {m : MemoryFiles} {o : Options} {path source out : String} {found again : List Entry}
  {x y : Entry}

theorem nodup (h : Rewritten m o path source out found) :
    ((moduleEntries out).map Entry.unplaced).Nodup := by
  rw [h.unplaced_moduleEntries]
  exact nodup_arranged _

/-- No key stands twice in the new text. -/
theorem eq_of_mergeKey_eq (h : Rewritten m o path source out found) (hx : x ∈ moduleEntries out)
    (hy : y ∈ moduleEntries out) (hkey : x.mergeKey = y.mergeKey) : x = y := by
  obtain ⟨a, ha, hax⟩ := h.exists_found hx
  obtain ⟨b, hb, hby⟩ := h.exists_found hy
  obtain ⟨news, -, rfl⟩ := h.replaced
  have hsame : a.mergeKey = b.mergeKey :=
    calc a.mergeKey = a.unplaced.mergeKey := rfl
      _ = x.unplaced.mergeKey := by rw [hax]
      _ = y.unplaced.mergeKey := hkey
      _ = b.unplaced.mergeKey := by rw [hby]
  obtain rfl := eq_of_mem_merged ha hb hsame
  exact List.inj_on_of_nodup_map h.nodup hx hy (hax.symm.trans hby)

/-- The stages after the first leave the entries of the new text as they are written. -/
theorem arranged_staged_moduleEntries (h : Rewritten m o path source out found) :
    arranged (o.staged (moduleEntries out)) = (moduleEntries out).map Entry.unplaced :=
  (Options.arranged_staged h.unplaced_moduleEntries).trans h.unplaced_moduleEntries.symm

/-! ### The second text -/

/-- The second run gives the same text if what it finds is arranged alike. -/
theorem barrelText_again_iff (h : Rewritten m o path source out found) {p q : Progress}
    (hp : p.context = {})
    (hrun : Yields (Resolver.resolveSource ⟨(m.add path out).files, o.nameStars⟩ out path) p
      again q) : barrelText out (o.staged again) = out ↔
        arranged (o.staged again) = (moduleEntries out).map Entry.unplaced := by
  obtain ⟨⟨news, hnews, hagain⟩, -⟩ := done_of_resolveSource hp hrun
  by_cases hnil : moduleEntries out = []
  · rw [hnil] at hnews
    cases hnews
    have hnone : o.staged again = [] := by
      rw [hagain]
      exact o.staged_nil
    rw [hnone, hnil]
    exact iff_of_true rfl rfl
  · have hne : o.staged again ≠ [] :=
      Options.staged_ne_nil (hagain ▸ merged_ne_nil_of_replaced hnews hnil)
    have hne' : o.staged found ≠ [] := by
      intro hstaged
      have hwritten := h.unplaced_moduleEntries
      rw [hstaged] at hwritten
      exact hnil (List.map_eq_nil_iff.1 hwritten)
    have hwf : ∀ x ∈ o.staged again, x.WellFormed := fun x hx =>
      h.again_wellFormed hp hrun x (Options.mem_of_mem_staged hx)
    have hwf' : ∀ x ∈ o.staged found, x.WellFormed := fun x hx =>
      h.wellFormed (Options.mem_of_mem_staged hx)
    have hprologue : prologue out.toList = prologue source.toList := by
      rw [h.text]
      exact prologue_barrelText source hne' hwf'
    calc barrelText out (o.staged again) = out
        ↔ barrelText source (o.staged again) = barrelText source (o.staged found) := by
          rw [barrelText_congr hne hprologue, ← h.text]
      _ ↔ arranged (o.staged again) = arranged (o.staged found) :=
          barrelText_eq_iff source hne hne' hwf hwf'
      _ ↔ _ := by rw [h.unplaced_moduleEntries]

/-! ### Stars that end -/

section StarsEnd

variable {c : Context} {news : List (List Entry)}

/-- An `export *` that leads to no barrel stays. -/
theorem eq_singleton_of_isBareStar (h : Rewritten m o path source out found)
    (hstars : (m.add path out).files.StarsEnd path out) {e : Entry} {new : List Entry}
    (he : e ∈ moduleEntries out) (hbare : e.isBareStar = true)
    (hrep : Replaced ⟨(m.add path out).files, o.nameStars⟩ (Path.directory (Path.normalize path))
      (Listed c) e new) : new = [e] := by
  cases hrep with
  | astray => rfl
  | barrel lead hbarrel =>
    rw [hstars e he hbare _ _ lead] at hbarrel
    cases hbarrel
  | leaf lead hleaf hnew =>
    rw [h.leafResult_again he lead hleaf] at hnew
    exact (Except.ok.inj hnew).symm

theorem retyped_again (h : Rewritten m o path source out found)
    (hstars : (m.add path out).files.StarsEnd path out)
    (hnews : List.Forall₂ (Replaced ⟨(m.add path out).files, o.nameStars⟩
      (Path.directory (Path.normalize path)) (Listed c)) (moduleEntries out) news) :
    List.Forall₂ Retyped (moduleEntries out) news := by
  rw [List.forall₂_iff_zip] at hnews ⊢
  refine ⟨hnews.1, fun {e new} hmem => ?_⟩
  cases hbare : e.isBareStar with
  | true =>
    have hnew := h.eq_singleton_of_isBareStar hstars (List.of_mem_zip hmem).1 hbare (hnews.2 hmem)
    exact ⟨e.isTypeOnly, hnew, id⟩
  | false => exact (hnews.2 hmem).of_not_isBareStar hbare

/-- Every entry stays as it is exactly if no name becomes a type. -/
theorem eq_singleton_again_iff (h : Rewritten m o path source out found)
    (hstars : (m.add path out).files.StarsEnd path out)
    (hnews : List.Forall₂ (Replaced ⟨(m.add path out).files, o.nameStars⟩
      (Path.directory (Path.normalize path)) (Listed c)) (moduleEntries out) news) :
    List.Forall₂ (fun e new => new = [e]) (moduleEntries out) news ↔
      ∀ e ∈ moduleEntries out, ¬BecomesType (m.add path out).files c
        (Path.directory (Path.normalize path)) e := by
  constructor
  · intro hsame e he hbecomes
    have hboth := List.Forall₂.mp (fun _ _ hrep hnew => And.intro hrep hnew) hnews hsame
    obtain ⟨new, -, hrep, hnew⟩ := exists_of_mem_left hboth he
    have hname : e.isBareStar = false := by
      simp [Entry.isBareStar, hbecomes.1]
    exact (eq_singleton_iff_of_replaced hrep hname).1 hnew hbecomes
  · intro hnone
    rw [List.forall₂_iff_zip] at hnews ⊢
    refine ⟨hnews.1, fun {e new} hmem => ?_⟩
    have he := (List.of_mem_zip hmem).1
    cases hbare : e.isBareStar with
    | true => exact h.eq_singleton_of_isBareStar hstars he hbare (hnews.2 hmem)
    | false => exact (eq_singleton_iff_of_replaced (hnews.2 hmem) hbare).2 (hnone e he)

/-- If no `export *` leads to a barrel, the second text is the same exactly if no name becomes a
type. -/
theorem barrelText_again_iff_of_starsEnd (h : Rewritten m o path source out found)
    {p q : Progress} (hp : p.context = {})
    (hrun : Yields (Resolver.resolveSource ⟨(m.add path out).files, o.nameStars⟩ out path) p
      again q) (hstars : (m.add path out).files.StarsEnd path out) :
    barrelText out (o.staged again) = out ↔ ∀ e ∈ moduleEntries out,
      ¬BecomesType (m.add path out).files q.context (Path.directory (Path.normalize path)) e := by
  obtain ⟨⟨news, hnews, hagain⟩, -⟩ := done_of_resolveSource hp hrun
  rw [h.barrelText_again_iff hp hrun, ← h.eq_singleton_again_iff hstars hnews]
  constructor
  · intro harranged
    refine eq_singleton_of_retyped h.nodup (h.retyped_again hstars hnews) fun e he => ?_
    have hmem : e.unplaced ∈ arranged (o.staged again) := by
      rw [harranged]
      exact List.mem_map_of_mem he
    obtain ⟨x, hx, hxe⟩ := List.mem_map.1 (mem_arranged_iff.1 hmem)
    rw [← hxe]
    exact List.mem_map_of_mem (mem_of_mem_merged (hagain ▸ Options.mem_of_mem_staged hx))
  · intro hsame
    have hkeys : ((moduleEntries out).map Entry.mergeKey).Nodup :=
      (List.Nodup.of_map _ h.nodup).map_on fun x hx y hy => h.eq_of_mergeKey_eq hx hy
    rw [hagain, flatten_of_eq_singleton hsame, merged_of_nodup hkeys]
    exact h.arranged_staged_moduleEntries

end StarsEnd

end Rewritten

/-! ### Rewriting again -/

/-- **When a second rewriting changes nothing.** If only words are written out, the second rewriting
of a barrel ends. It gives the same text exactly if the entries that it finds are arranged as those
of the text are; and where no `export *` of the text leads to a barrel, exactly if no name of the
text becomes a type. -/
theorem rewrite_again_iff (m : MemoryFiles) (o : Options) (names : List String) {path out : String}
    (hon : o.resolveBarrels = true) (hname : Path.baseName path ∈ names)
    (hwords : Resolver.WritesWords ⟨m.files, o.nameStars⟩)
    (h : Transformer.Rewrites ⟨m.files, o, names⟩ path out) :
    ∃ again found q, Transformer.Rewrites ⟨(m.add path out).files, o, names⟩ path again ∧
      Yields (Resolver.resolveSource ⟨(m.add path out).files, o.nameStars⟩ out path)
        ⟨{}, [.started path]⟩ found q ∧
      (again = out ↔ arranged (o.staged found) = (moduleEntries out).map Entry.unplaced) ∧
      ((m.add path out).files.StarsEnd path out → (again = out ↔ ∀ e ∈ moduleEntries out,
        ¬BecomesType (m.add path out).files q.context
          (Path.directory (Path.normalize path)) e)) := by
  have hbarrel (files : Files) :
      Transformer.isBarrelFile ⟨files, o, names⟩ path = true := List.contains_iff_mem.2 hname
  obtain ⟨source, first, hread, hfirst, htext⟩ := (Transformer.rewrites_iff hon (hbarrel _)).1 h
  have hwritten : Rewritten m o path source out first := ⟨hread, hwords, hfirst, htext⟩
  obtain ⟨found, q, hrun⟩ := hwritten.exists_again ⟨{}, [.started path]⟩
  have hstored : (m.add path out).files.read path = .ok out := by
    show (m.add path out).read path = .ok out
    rw [MemoryFiles.read_add, if_pos rfl]
  refine ⟨barrelText out (o.staged found), found, q, ?_, hrun,
    hwritten.barrelText_again_iff rfl hrun,
    fun hstars => hwritten.barrelText_again_iff_of_starsEnd rfl hrun hstars⟩
  exact (Transformer.rewrites_iff hon (hbarrel _)).2 ⟨out, found, hstored, ⟨q, hrun⟩, rfl⟩

/-- A barrel that passes on a value from another barrel, and a type. -/
def plainFiles : MemoryFiles := .ofList
  [("/p/index.ts", "export * from \"./b\";\nexport type { T } from \"./t\";\n"),
    ("/p/b.ts", "export { N } from \"./x\";\n"),
    ("/p/x.ts", "export const N = 1;\n"),
    ("/p/t.ts", "export type T = 1;\n")]

/-- The text of the barrel after it was rewritten. -/
def plainText : String :=
  "export { N } from \"./b\";\nexport type { T } from \"./t\";\n"

/-- No name becomes a type, and the text stays. -/
theorem rewrite_again_iff_plain :
    ({ resolveBarrels := true } : Options).resolveBarrels = true ∧
    Path.baseName "/p/index.ts" ∈ ["index.ts"] ∧
    Resolver.WritesWords ⟨plainFiles.files, false⟩ ∧
    Transformer.Rewrites ⟨plainFiles.files, { resolveBarrels := true }, ["index.ts"]⟩ "/p/index.ts"
      plainText ∧
    (plainFiles.add "/p/index.ts" plainText).files.StarsEnd "/p/index.ts" plainText ∧
    ∃ again found q, Transformer.Rewrites
        ⟨(plainFiles.add "/p/index.ts" plainText).files, { resolveBarrels := true }, ["index.ts"]⟩
        "/p/index.ts" again ∧
      Yields (Resolver.resolveSource ⟨(plainFiles.add "/p/index.ts" plainText).files, false⟩
        plainText "/p/index.ts") ⟨{}, [.started "/p/index.ts"]⟩ found q ∧
      (again = plainText ↔ arranged (({ resolveBarrels := true } : Options).staged found) =
        (moduleEntries plainText).map Entry.unplaced) ∧
      ((plainFiles.add "/p/index.ts" plainText).files.StarsEnd "/p/index.ts" plainText →
        (again = plainText ↔ ∀ e ∈ moduleEntries plainText,
          ¬BecomesType (plainFiles.add "/p/index.ts" plainText).files q.context
            (Path.directory (Path.normalize "/p/index.ts")) e)) ∧
      again = plainText := by
  have hname : Path.baseName "/p/index.ts" ∈ ["index.ts"] :=
    List.mem_singleton.2 (by decide +kernel)
  have hwords := writesWords_of_all plainFiles false (by decide +kernel)
  have hfirst : Transformer.Rewrites
      ⟨plainFiles.files, { resolveBarrels := true }, ["index.ts"]⟩ "/p/index.ts" plainText :=
    exists_yields_of_run (by decide +kernel)
  have hbare : ∀ e ∈ moduleEntries plainText, e.isBareStar = false := by decide +kernel
  have hstars : (plainFiles.add "/p/index.ts" plainText).files.StarsEnd "/p/index.ts" plainText := by
    intro e he hstar
    rw [hbare e he] at hstar
    cases hstar
  obtain ⟨log, hsecond⟩ : Transformer.Rewrites
      ⟨(plainFiles.add "/p/index.ts" plainText).files, { resolveBarrels := true }, ["index.ts"]⟩
      "/p/index.ts" plainText :=
    exists_yields_of_run (by decide +kernel)
  obtain ⟨again, found, q, hagain, hrun, hiff, hstop⟩ :=
    rewrite_again_iff plainFiles { resolveBarrels := true } ["index.ts"] rfl hname hwords hfirst
  obtain ⟨log', hlog⟩ := hagain
  exact ⟨rfl, hname, hwords, hfirst, hstars, again, found, q, ⟨log', hlog⟩, hrun, hiff, hstop,
    (hlog.unique hsecond).1⟩

/-- A barrel behind an `export *` that passes on a value and a type of one name. -/
def twinFiles : MemoryFiles := .ofList
  [("/p/index.ts", "export * from \"./b\";\n"),
    ("/p/b.ts", "export { N } from \"./x\";\nexport type { N } from \"./y\";\n"),
    ("/p/x.ts", "export const N = 1;\n"),
    ("/p/y.ts", "export type N = 1;\n")]

/-- **The second rewriting drops a value**: the name stands in the first text as a value and as a
type, and in the second one as a type only. -/
theorem rewrite_changes_twin : Transformer.Rewrites
      ⟨twinFiles.files, { resolveBarrels := true }, ["index.ts"]⟩ "/p/index.ts"
      "export { N } from \"./b\";\nexport type { N } from \"./b\";\n" ∧
    Transformer.Rewrites
      ⟨(twinFiles.add "/p/index.ts"
        "export { N } from \"./b\";\nexport type { N } from \"./b\";\n").files,
        { resolveBarrels := true }, ["index.ts"]⟩ "/p/index.ts"
      "export type { N } from \"./b\";\n" ∧
    "export { N } from \"./b\";\nexport type { N } from \"./b\";\n" ≠
      "export type { N } from \"./b\";\n" :=
  ⟨exists_yields_of_run (by decide +kernel), exists_yields_of_run (by decide +kernel), by decide⟩

/-- A namespace whose name is no word, behind an `export *` that is written out. -/
def dottedFiles : MemoryFiles := .ofList
  [("/p/index.ts", "export * from \"./n\";\nexport { z } from \"./z\";\n"),
    ("/p/n.ts", "export namespace A.B \x7b \x7d\n"),
    ("/p/z.ts", "export const z = 1;\n")]

-- Only words are read back: the name that is none is gone after the second rewriting.
example : Transformer.Rewrites
      ⟨dottedFiles.files, { resolveBarrels := true, nameStars := true }, ["index.ts"]⟩
      "/p/index.ts" "export { A.B } from \"./n\";\nexport { z } from \"./z\";\n" ∧
    Transformer.Rewrites
      ⟨(dottedFiles.add "/p/index.ts"
        "export { A.B } from \"./n\";\nexport { z } from \"./z\";\n").files,
        { resolveBarrels := true, nameStars := true }, ["index.ts"]⟩ "/p/index.ts"
      "export { z } from \"./z\";\n" :=
  ⟨exists_yields_of_run (by decide +kernel), exists_yields_of_run (by decide +kernel)⟩

end Reexport
