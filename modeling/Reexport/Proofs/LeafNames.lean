import Reexport.Proofs.AbsolutePath
import Reexport.Proofs.Expansion
import Reexport.Proofs.Exports
import Reexport.Proofs.Once
import Reexport.Proofs.Stages

/-!
# Two ways to the names of a module

An `export *` from a module that is no barrel is written out in two ways: when the barrel with the
`export *` is resolved, or alone, by `expandStar`. Both scan the module. But in a barrel that is resolved,
a module without re-exports that is taken for one of types gives way to its types first
(`TypesStandIn`), all of them marked as types, and its values are left out.

## What is proved

* `quiet_resolveContent_alone` — what is found for a barrel with a single entry in front of such a module.
* `resolveSource_eq_expandStar_iff` — the two ways agree exactly if no types stand in for the module, or
  if they are all that would be written out. Then a transformation that writes namespaces out ends alike
  whether it follows barrels or not.
* `resolveSource_ne_expandStar` — a module for which they do not agree.
-/

namespace Reexport

open Resolving Resolver

variable {r : Resolver} {e : Entry} {path text directory target content : String}
  {scanned : DeclarationScan}

/-! ### Declared names -/

namespace Entry

/-- Entries made of names that differ stand side by side. -/
theorem merged_ofDeclared {flavour : Declared → Bool} {names : List Declared}
    (h : (names.map Declared.name).Nodup) :
    merged (names.map fun d => e.ofDeclared (flavour d) d) =
      names.map fun d => e.ofDeclared (flavour d) d := by
  refine merged_of_nodup (List.Nodup.of_map MergeKey.name ?_)
  rw [List.map_map, List.map_map]
  exact h

end Entry

/-! ### Modules of types -/

/-- The types of a module stand in for the module: it passes nothing on, it is taken for one of types,
and it does declare types. -/
structure TypesStandIn (e : Entry) (target content : String) (scanned : DeclarationScan) : Prop where
  scan : scan target content = .ok scanned
  none : moduleEntries content = []
  named : isTypesModule e.source target = true
  some : scanned.typeDeclarations ≠ []

theorem leafResult_of_typesStandIn (hstar : e.isBareStar = true)
    (h : TypesStandIn e target content scanned) :
    r.leafResult e target content = .ok (e.typeNamesOf scanned) := by
  have hne : (e.typeNamesOf scanned).isEmpty = false := by
    simpa [Entry.typeNamesOf] using h.some
  unfold leafResult typesResult
  rw [hstar, h.none, h.named, h.scan]
  show (if _ then _ else _) = _
  rw [hne]
  rfl

/-- Otherwise the module is scanned for all its names. -/
theorem leafResult_of_flatten (hflat : r.flatten = true) (hstar : e.isBareStar = true)
    (h : ∀ scanned, ¬TypesStandIn e target content scanned) :
    r.leafResult e target content = (scan target content).mapError .declared >>= fun s =>
      .ok (if (e.namesOf s).isEmpty then [e] else e.namesOf s) := by
  have hnames : r.namesResult e target content =
      (scan target content).mapError .declared >>= fun s => .ok (e.namesOf s) := by
    rw [namesResult, hflat, hstar]
    rfl
  unfold leafResult typesResult
  rw [hnames]
  cases hscan : scan target content with
  | error fault => split <;> rfl
  | ok s =>
    split
    · rename_i hc
      simp only [Bool.and_eq_true, List.isEmpty_iff] at hc
      have hnil : s.typeDeclarations = [] := by
        by_contra hsome
        exact h s ⟨hscan, hc.1.2, hc.2, hsome⟩
      show (if !(e.typeNamesOf s).isEmpty then _ else _) = _
      rw [Entry.typeNamesOf, hnil]
      rfl
    · rfl

/-- Where types stand in for a module, all names would be written out alike exactly if they are known
and all of them are types by then. -/
theorem typeNamesOf_eq_iff (hstar : e.isBareStar = true) (hsome : scanned.typeDeclarations ≠ []) :
    e.typeNamesOf scanned = (if (e.namesOf scanned).isEmpty then [e] else e.namesOf scanned) ↔
      scanned.hasStar = false ∧
        ∀ d ∈ scanned.exports, d.isTypeOnly = true ∨ d.form.isType = true ∧ e.isTypeOnly = true := by
  unfold Entry.typeNamesOf Entry.namesOf
  cases hunknown : scanned.hasStar with
  | true =>
    refine iff_of_false (fun h => ?_) (by simp)
    have hself : e ∈ scanned.typeDeclarations.map (e.ofDeclared true) := by
      rw [h]
      exact List.mem_singleton_self e
    obtain ⟨d, -, hd⟩ := List.mem_map.1 hself
    rw [← hd] at hstar
    cases hstar
  | false =>
    have hne : scanned.exports ≠ [] := fun hnil => hsome (by simp [DeclarationScan.typeDeclarations, hnil])
    have hnames : (scanned.exports.map fun d => e.ofDeclared (e.isTypeOnly || d.isTypeOnly) d).isEmpty =
        false := by simpa using hne
    simp only [Bool.false_eq_true, if_false, hnames, true_and]
    unfold DeclarationScan.typeDeclarations
    constructor
    · intro h d hd
      have hall : ∀ d ∈ scanned.exports, (d.isTypeOnly || d.form.isType) = true :=
        List.length_filter_eq_length_iff.1 (by simpa only [List.length_map] using congrArg List.length h)
      rw [List.filter_eq_self.2 hall, List.map_inj_left] at h
      have htype : true = (e.isTypeOnly || d.isTypeOnly) := congrArg Entry.isTypeOnly (h d hd)
      have hform := hall d hd
      cases hmark : d.isTypeOnly with
      | true => exact .inl rfl
      | false =>
        rw [hmark, Bool.false_or] at hform
        rw [hmark, Bool.or_false] at htype
        exact .inr ⟨hform, htype.symm⟩
    · intro h
      rw [List.filter_eq_self.2 fun d hd => by
        rcases h d hd with hd | ⟨hd, -⟩ <;> simp [hd]]
      refine List.map_congr_left fun d hd => ?_
      rcases h d hd with hd | ⟨-, hd⟩ <;> simp [hd]

/-- The names that an `export *` is written out as, or the entry itself where there are none. -/
theorem starResult_getD (hstar : e.isBareStar = true) (lead : Leads r.files directory e target content)
    (hleaf : isBarrel (moduleEntries content) = false) :
    (r.starResult e directory).map (·.getD [e]) =
      (scan target content).mapError .declared >>= fun s =>
        .ok (if (e.namesOf s).isEmpty then [e] else e.namesOf s) := by
  rw [starResult_of_leads hstar lead hleaf]
  cases scan target content with
  | error fault => rfl
  | ok s =>
    show Except.ok (Option.getD (if _ then _ else _) _) = Except.ok _
    split <;> rfl

/-- What takes the place of an `export *` is what it is written out as, unless types stand in for the
module and are not all there is to write. -/
theorem leafResult_eq_starResult_iff (hflat : r.flatten = true) (hstar : e.isBareStar = true)
    (lead : Leads r.files directory e target content)
    (hleaf : isBarrel (moduleEntries content) = false) :
    r.leafResult e target content = (r.starResult e directory).map (·.getD [e]) ↔
      ∀ s, TypesStandIn e target content s → s.hasStar = false ∧
        ∀ d ∈ s.exports, d.isTypeOnly = true ∨ d.form.isType = true ∧ e.isTypeOnly = true := by
  rw [starResult_getD hstar lead hleaf]
  by_cases htypes : ∃ s, TypesStandIn e target content s
  · obtain ⟨s, hs⟩ := htypes
    have honly : ∀ s', TypesStandIn e target content s' → s' = s := fun s' hs' =>
      Except.ok.inj (hs'.scan.symm.trans hs.scan)
    have hiff := typeNamesOf_eq_iff hstar hs.some
    rw [leafResult_of_typesStandIn hstar hs, hs.scan]
    show Except.ok _ = Except.ok _ ↔ _
    rw [Except.ok.injEq, hiff]
    exact ⟨fun h s' hs' => honly s' hs' ▸ h, fun h => h s hs⟩
  · rw [not_exists] at htypes
    exact iff_of_true (leafResult_of_flatten hflat hstar htypes) fun s hs => absurd hs (htypes s)

/-! ### A barrel with a single entry -/

section Alone

variable {descend : String → Resolving (List Entry)}

/-- An entry in front of a module that is no barrel. -/
theorem quiet_resolveEntry_of_leaf (lead : Leads r.files directory e target content)
    (hleaf : isBarrel (moduleEntries content) = false) :
    Quiet (r.resolveEntry descend directory e) (r.leafResult e target content) := by
  rw [resolveEntry_of_leads lead, if_neg (by simp [hleaf])]
  exact quiet_leafEntries r e target content

/-- What takes the place of an `export *` in front of a module that is no barrel has no key twice. -/
theorem merged_leafResult {new : List Entry} (h : r.leafResult e target content = .ok new) :
    merged new = new := by
  rcases leafResult_eq_ok h with ⟨htypes, hne⟩ | ⟨hnames, hne⟩ | rfl
  · unfold typesResult at htypes
    split at htypes
    · obtain ⟨s, hscan, h⟩ := bind_eq_ok_iff.1 htypes
      obtain rfl := Except.ok.inj h
      have hnodup := nodup_names_of_scan (mapError_eq_ok_iff.1 hscan)
      exact Entry.merged_ofDeclared (hnodup.sublist (List.filter_sublist.map Declared.name))
    · exact absurd (Except.ok.inj htypes).symm hne
  · unfold namesResult at hnames
    split at hnames
    · obtain ⟨s, hscan, h⟩ := bind_eq_ok_iff.1 hnames
      obtain rfl := Except.ok.inj h
      unfold Entry.namesOf
      split
      · rfl
      · exact Entry.merged_ofDeclared (nodup_names_of_scan (mapError_eq_ok_iff.1 hscan))
    · exact absurd (Except.ok.inj hnames).symm hne
  · rfl

/-- **A barrel with a single entry**, in front of a module that is no barrel, is found to have what takes
the place of the entry. -/
theorem quiet_resolveContent_alone (halone : moduleEntries text = [e])
    (lead : Leads r.files (Path.directory path) e target content)
    (hleaf : isBarrel (moduleEntries content) = false) :
    Quiet (r.resolveContent descend path text) (r.leafResult e target content) := by
  have hmerged : (r.leafResult e target content >>= fun new => .ok (merged new)) =
      r.leafResult e target content := by
    cases h : r.leafResult e target content with
    | error i => rfl
    | ok new => exact congrArg Except.ok (merged_leafResult h)
  have hall : Quiet (r.resolveAll descend (Path.directory path) [] [e])
      (r.leafResult e target content) := by
    rw [← hmerged]
    exact (quiet_resolveEntry_of_leaf lead hleaf).bind fun new _ => quiet_pure (merged new)
  unfold resolveContent
  rw [halone, ← bind_pure (r.leafResult e target content)]
  exact hall.bind fun found _ => (quiet_report _).bind fun _ _ => quiet_pure found

theorem answers_resolveSource_alone (halone : moduleEntries text = [e])
    (lead : Leads r.files (Path.directory (Path.normalize path)) e target content)
    (hleaf : isBarrel (moduleEntries content) = false) :
    Answers (r.resolveSource text path) (r.leafResult e target content) := by
  have hvisit : Answers (updateContext (·.visit (Path.normalize path))) (.ok ()) := fun _ => rfl
  exact hvisit.bind_ok (quiet_resolveContent_alone halone lead hleaf).answers

/-- The same for a barrel that is kept in a file, when it is taken up. -/
theorem resolveFile_alone (halone : moduleEntries text = [e])
    (lead : Leads r.files (Path.directory (Path.normalize path)) e target content)
    (hleaf : isBarrel (moduleEntries content) = false)
    (hread : r.files.read (Path.normalize path) = .ok text) {p : Progress}
    (hnew : p.context.isNew (Path.normalize path) = true) :
    ((r.resolveFile path).run.run p).1 = r.leafResult e target content := by
  have hvisit : Answers (updateContext (·.visit (Path.normalize path))) (.ok ()) := fun _ => rfl
  have htaken : Answers (r.resolveTaken r.resolveFile (Path.normalize path))
      (r.leafResult e target content) := by
    unfold resolveTaken
    rw [readModule_of_ok hread, pure_bind, ← bind_pure (r.leafResult e target content)]
    refine (quiet_resolveContent_alone halone lead hleaf).answers.bind fun found _ => ?_
    exact fun _ => rfl
  rw [eq_resolveFile_iff.2 rfl path, agreeFrom_resolvePath_of_new hnew]
  exact hvisit.bind_ok htaken p

end Alone

/-! ### Transformations of such a barrel -/

section Collect

variable {t : Transformer}

theorem answers_resolving {α : Type} {run : Resolving α} {result : Except Interruption α}
    (h : Answers run result) : Answers (Transforming.resolving run) (result.mapError .interrupted) :=
  fun log => congrArg (Except.mapError TransformFault.interrupted) (h ⟨{}, log⟩)

theorem answers_of_reports {α : Type} {x : Transforming α} {a : α} (h : Transforming.Reports x a) :
    Answers x (.ok a) := by
  intro log
  obtain ⟨log', hrun⟩ := h log
  rw [hrun]

/-- When barrels are followed, the entry has given way before the last stages. -/
theorem answers_collect_following (hon : t.options.resolveBarrels = true)
    (halone : moduleEntries text = [e])
    (lead : Leads t.files (Path.directory (Path.normalize path)) e target content)
    (hleaf : isBarrel (moduleEntries content) = false) :
    Answers (t.collect text path)
      ((t.resolver.leafResult e target content).mapError .interrupted >>= fun found =>
        .ok (t.options.staged found)) := by
  have hfound : Answers (t.entriesOf text path)
      ((t.resolver.leafResult e target content).mapError .interrupted) := by
    unfold Transformer.entriesOf
    rw [if_pos hon]
    exact answers_resolving (answers_resolveSource_alone (r := t.resolver) halone lead hleaf)
  exact hfound.bind fun found _ =>
    answers_of_reports (Transformer.reports_collected (.inr hon) path found)

/-- When they are not, it is written out alone. -/
theorem answers_nameStars_alone (hoff : t.options.resolveBarrels = false)
    (hnames : t.options.nameStars = true) (hstar : e.isBareStar = true)
    (lead : Leads t.files (Path.directory (Path.normalize path)) e target content)
    (hleaf : isBarrel (moduleEntries content) = false) :
    Answers (t.nameStars path [e])
      (((t.resolver.starResult e (Path.directory (Path.normalize path))).map (·.getD [e])).mapError
        .interrupted) := by
  have hmap (x : Except Interruption (Option (List Entry))) :
      (x.map (·.getD [e])).mapError TransformFault.interrupted =
        x.mapError .interrupted >>= fun names => .ok (names.getD [e]) := by
    cases x <;> rfl
  have hkind : e.kind = .star := (Entry.isBareStar_iff.1 hstar).1
  have hexpand := answers_resolving
    (quiet_expandStar t.resolver e (Path.directory (Path.normalize path))).answers
  unfold Transformer.nameStars
  rw [hmap, hnames, hoff]
  show Answers (expandStars _ [e]) _
  rw [expandStars, if_pos hkind]
  refine hexpand.bind fun names hfound => ?_
  rw [starResult_of_leads (r := t.resolver) hstar lead hleaf] at hfound
  obtain ⟨s, -, h⟩ := bind_eq_ok_iff.1 (mapError_eq_ok_iff.1 hfound)
  obtain rfl := Except.ok.inj h
  cases hs : e.namesOf s with
  | nil => exact fun _ => rfl
  | cons n ns => exact fun _ => congrArg Except.ok (List.append_nil (n :: ns))

theorem answers_collect_naming (hoff : t.options.resolveBarrels = false)
    (hnames : t.options.nameStars = true) (halone : moduleEntries text = [e])
    (hstar : e.isBareStar = true)
    (lead : Leads t.files (Path.directory (Path.normalize path)) e target content)
    (hleaf : isBarrel (moduleEntries content) = false) :
    Answers (t.collect text path)
      (((t.resolver.starResult e (Path.directory (Path.normalize path))).map (·.getD [e])).mapError
        .interrupted >>= fun found => .ok (t.options.staged found)) := by
  have hentries : Answers (t.entriesOf text path) (.ok [e]) := by
    unfold Transformer.entriesOf
    rw [hoff, halone]
    exact answers_pure [e]
  refine hentries.bind_ok ((answers_of_reports (Transforming.reports_report _)).bind_ok ?_)
  exact (answers_nameStars_alone hoff hnames hstar lead hleaf).bind fun named _ =>
    answers_of_reports (Transformer.reports_staged t path named)

/-- Where the names are the same, it does not matter for a transformation that writes namespaces out
whether it follows barrels. -/
theorem exists_answers_collect {files : Files} {o : Options} (hnames : o.nameStars = true)
    (halone : moduleEntries text = [e]) (hstar : e.isBareStar = true)
    (lead : Leads files (Path.directory (Path.normalize path)) e target content)
    (hleaf : isBarrel (moduleEntries content) = false)
    (hagree : Resolver.leafResult ⟨files, true⟩ e target content =
      (Resolver.starResult ⟨files, true⟩ e (Path.directory (Path.normalize path))).map (·.getD [e]))
    (barrelNames : List String) :
    ∃ collected,
      Answers (Transformer.collect ⟨files, { o with resolveBarrels := true }, barrelNames⟩ text path)
        collected ∧
      Answers (Transformer.collect ⟨files, { o with resolveBarrels := false }, barrelNames⟩ text path)
        collected := by
  have hresolver (b : Bool) :
      Transformer.resolver ⟨files, { o with resolveBarrels := b }, barrelNames⟩ = ⟨files, true⟩ := by
    show Resolver.mk files o.nameStars = _
    rw [hnames]
  have hfollowing := answers_collect_following
    (t := ⟨files, { o with resolveBarrels := true }, barrelNames⟩) rfl halone lead hleaf
  have hnaming := answers_collect_naming
    (t := ⟨files, { o with resolveBarrels := false }, barrelNames⟩) rfl hnames halone hstar lead hleaf
  rw [hresolver] at hfollowing hnaming
  rw [hagree] at hfollowing
  exact ⟨_, hfollowing, hnaming⟩

end Collect

/-! ### The two ways -/

/-- Only the normal spelling of a directory counts for where a specifier leads. -/
theorem locate_of_normalize_eq {directory' : String}
    (h : Path.normalize directory = Path.normalize directory') (files : Files)
    (extensions : List String) (specifier : String) :
    locate files extensions specifier directory = locate files extensions specifier directory' := by
  unfold locate
  split
  · rename_i hrel
    obtain ⟨cs, hcs⟩ : ∃ cs, specifier.toList = '.' :: cs := by
      cases hspec : specifier.toList with
      | nil => simp [Entry.isRelativeSource, hspec] at hrel
      | cons c cs =>
        simp only [Entry.isRelativeSource, hspec, List.head?_cons, beq_iff_eq, Option.some.injEq] at hrel
        exact ⟨cs, by rw [hrel]⟩
    rw [Path.normalize_join_of_normalize_eq h hcs (by decide)]
  · rfl

/-- **The two ways agree** for a module that is no barrel exactly if no types stand in for it, or if the
names of the module are known and all of them are types by then. If types stand in for it, they are what
a barrel is resolved to. Where the two ways agree, a transformation that writes namespaces out collects
the same whether it follows barrels or not. -/
theorem resolveSource_eq_expandStar_iff {files : Files} (halone : moduleEntries text = [e])
    (hstar : e.isBareStar = true)
    (hdirectory : Path.normalize directory = Path.normalize (Path.directory (Path.normalize path)))
    (lead : Leads files directory e target content)
    (hleaf : isBarrel (moduleEntries content) = false) :
    ∃ resolved named,
      Answers (Resolver.resolveSource ⟨files, true⟩ text path) resolved ∧
      (files.read (Path.normalize path) = .ok text → ∀ p : Progress,
        p.context.isNew (Path.normalize path) = true →
          ((Resolver.resolveFile ⟨files, true⟩ path).run.run p).1 = resolved) ∧
      Answers (Resolver.expandStar ⟨files, true⟩ e directory) named ∧
      (∀ s, TypesStandIn e target content s → resolved = .ok (e.typeNamesOf s)) ∧
      (resolved = named.map (·.getD [e]) ↔ ∀ s, TypesStandIn e target content s →
        s.hasStar = false ∧
          ∀ d ∈ s.exports, d.isTypeOnly = true ∨ d.form.isType = true ∧ e.isTypeOnly = true) ∧
      (resolved = named.map (·.getD [e]) → ∀ (o : Options) names, o.nameStars = true → ∃ collected,
        Answers (Transformer.collect ⟨files, { o with resolveBarrels := true }, names⟩ text path)
          collected ∧
        Answers (Transformer.collect ⟨files, { o with resolveBarrels := false }, names⟩ text path)
          collected) := by
  have lead' : Leads files (Path.directory (Path.normalize path)) e target content :=
    ⟨locate_of_normalize_eq hdirectory .. ▸ lead.located, lead.read⟩
  let r : Resolver := ⟨files, true⟩
  refine ⟨r.leafResult e target content, r.starResult e directory,
    answers_resolveSource_alone (r := r) halone lead' hleaf,
    fun hread p hnew => resolveFile_alone (r := r) halone lead' hleaf hread hnew,
    (quiet_expandStar r e directory).answers,
    fun s hs => leafResult_of_typesStandIn hstar hs,
    leafResult_eq_starResult_iff (r := r) rfl hstar lead hleaf, fun hagree o names hnames => ?_⟩
  refine exists_answers_collect hnames halone hstar lead' hleaf ?_ names
  rw [starResult_getD (r := r) hstar lead' hleaf]
  rwa [starResult_getD (r := r) hstar lead hleaf] at hagree

/-- The text of a module with a value and a type. -/
def valueAndType : String := "export const v = 1;\nexport type T = 1;\n"

/-- Two modules with this text, one of which is taken for one of types. -/
def valueAndTypeFiles : MemoryFiles := .ofList
  [("/p/index.ts", "export * from \"./a\";\n"), ("/p/a.ts", valueAndType),
    ("/p/a.types.ts", valueAndType)]

/-- The `export *` from the first one. -/
def plainStar : Entry := Statement.starEntry ⟨false, .star none, "./a", by decide⟩ 1 none

/-- The `export *` from the second one. -/
def typesStar : Entry := Statement.starEntry ⟨false, .star none, "./a.types", by decide⟩ 1 none

/-- A barrel in front of the first one, its directory spelled in another way. -/
theorem resolveSource_eq_expandStar_iff_plain :
    moduleEntries "export * from \"./a\";\n" = [plainStar] ∧ plainStar.isBareStar = true ∧
    Path.normalize "/p/." = Path.normalize (Path.directory (Path.normalize "/p/index.ts")) ∧
    Leads valueAndTypeFiles.files "/p/." plainStar "/p/a.ts" valueAndType ∧
    isBarrel (moduleEntries valueAndType) = false ∧
    ∃ resolved named,
      Answers (Resolver.resolveSource ⟨valueAndTypeFiles.files, true⟩ "export * from \"./a\";\n"
        "/p/index.ts") resolved ∧
      (valueAndTypeFiles.files.read (Path.normalize "/p/index.ts") = .ok "export * from \"./a\";\n" →
        ∀ p : Progress, p.context.isNew (Path.normalize "/p/index.ts") = true →
          ((Resolver.resolveFile ⟨valueAndTypeFiles.files, true⟩ "/p/index.ts").run.run p).1 =
            resolved) ∧
      Answers (Resolver.expandStar ⟨valueAndTypeFiles.files, true⟩ plainStar "/p/.") named ∧
      (∀ s, TypesStandIn plainStar "/p/a.ts" valueAndType s →
        resolved = .ok (plainStar.typeNamesOf s)) ∧
      (resolved = named.map (·.getD [plainStar]) ↔
        ∀ s, TypesStandIn plainStar "/p/a.ts" valueAndType s → s.hasStar = false ∧
          ∀ d ∈ s.exports,
            d.isTypeOnly = true ∨ d.form.isType = true ∧ plainStar.isTypeOnly = true) ∧
      (resolved = named.map (·.getD [plainStar]) →
        ∀ (o : Options) names, o.nameStars = true → ∃ collected,
          Answers (Transformer.collect
            ⟨valueAndTypeFiles.files, { o with resolveBarrels := true }, names⟩
            "export * from \"./a\";\n" "/p/index.ts") collected ∧
          Answers (Transformer.collect
            ⟨valueAndTypeFiles.files, { o with resolveBarrels := false }, names⟩
            "export * from \"./a\";\n" "/p/index.ts") collected) := by
  have halone : moduleEntries "export * from \"./a\";\n" = [plainStar] := by decide +kernel
  have hdirectory : Path.normalize "/p/." =
      Path.normalize (Path.directory (Path.normalize "/p/index.ts")) := by decide +kernel
  have lead : Leads valueAndTypeFiles.files "/p/." plainStar "/p/a.ts" valueAndType :=
    ⟨by decide +kernel, by decide +kernel⟩
  have hleaf : isBarrel (moduleEntries valueAndType) = false := by decide +kernel
  exact ⟨halone, rfl, hdirectory, lead, hleaf,
    resolveSource_eq_expandStar_iff halone rfl hdirectory lead hleaf⟩

/-- The names that both modules declare. -/
def valueAndTypeNames : List Declared :=
  [⟨"v", false, .binding, 1, by decide⟩, ⟨"T", true, .typeAlias, 2, by decide⟩]

/-- **A value is left out**: in front of the module that is taken for one of types, a barrel is resolved
to the type alone, while the `export *` is written out as both names. -/
theorem resolveSource_ne_expandStar :
    moduleEntries "export * from \"./a.types\";\n" = [typesStar] ∧ typesStar.isBareStar = true ∧
    Leads valueAndTypeFiles.files "/p" typesStar "/p/a.types.ts" valueAndType ∧
    isBarrel (moduleEntries valueAndType) = false ∧
    Answers (Resolver.resolveSource ⟨valueAndTypeFiles.files, true⟩
      "export * from \"./a.types\";\n" "/p/index.ts")
        (.ok ((valueAndTypeNames.drop 1).map (typesStar.ofDeclared true))) ∧
    Answers (Resolver.expandStar ⟨valueAndTypeFiles.files, true⟩ typesStar "/p")
      (.ok (some (valueAndTypeNames.map fun d => typesStar.ofDeclared d.isTypeOnly d))) ∧
    (valueAndTypeNames.drop 1).map (typesStar.ofDeclared true) ≠
      valueAndTypeNames.map fun d => typesStar.ofDeclared d.isTypeOnly d := by
  let r : Resolver := ⟨valueAndTypeFiles.files, true⟩
  have halone : moduleEntries "export * from \"./a.types\";\n" = [typesStar] := by decide +kernel
  have lead : Leads r.files "/p" typesStar "/p/a.types.ts" valueAndType :=
    ⟨by decide +kernel, by decide +kernel⟩
  have hleaf : isBarrel (moduleEntries valueAndType) = false := by decide +kernel
  have hresolved : r.leafResult typesStar "/p/a.types.ts" valueAndType =
      .ok ((valueAndTypeNames.drop 1).map (typesStar.ofDeclared true)) := by decide +kernel
  have hnamed : r.starResult typesStar "/p" =
      .ok (some (valueAndTypeNames.map fun d => typesStar.ofDeclared d.isTypeOnly d)) := by
    decide +kernel
  refine ⟨halone, rfl, lead, hleaf, ?_, ?_, by decide⟩
  · rw [← hresolved]
    have hdirectory : Path.directory (Path.normalize "/p/index.ts") = "/p" := by decide +kernel
    exact answers_resolveSource_alone halone (by rwa [hdirectory]) hleaf
  · rw [← hnamed]
    exact (quiet_expandStar r typesStar "/p").answers

end Reexport
