import Reexport.Proofs.Contexts

/-!
# A module that is being resolved

While a module is being resolved it is taken up and has no list, so an entry that leads back to it
finds nothing and stays as it is. It would stay if the module could not be read, too. So what the
resolver does in the meantime is what it would do in a place `without` the module.

One computation mimics another if, from a context in which the module is held, it gives what the
other gives and leaves the same context. Only the events may differ: a module that is held is
reported as a cycle, and one that is gone as unreadable.

## What is proved

* `mimics_resolveWithin` — a call of any depth is mimicked by one without the module.
* `Replaced.without` — what takes the place of an entry does so without the module, too.
-/

namespace Reexport

open Resolving

/-- The same modules, but for the one with the given normal path: it cannot be read. -/
def Files.without (files : Files) (path : String) : Files where
  read other := if Path.normalize other = path then .error .absent else files.read other
  holds := files.holds
  capacity := files.capacity
  finite := files.finite

theorem Files.read_without {files : Files} {path other : String} (h : Path.normalize other = path) :
    (files.without path).read other = .error .absent :=
  if_pos h

theorem Files.read_without_of_ne {files : Files} {path other : String}
    (h : Path.normalize other ≠ path) : (files.without path).read other = files.read other :=
  if_neg h

/-- The module at a path is being resolved. -/
structure Context.Holding (c : Context) (path : String) : Prop where
  visited : path ∈ c.visited
  unrecorded : c.recorded? path = none

/-! ### Computations -/

namespace Resolving

variable {α β : Type} {held : String}

/-- Begun with a context in which the module is held, the second computation gives what the first one
gives, and leaves the context that the first one leaves. -/
def Mimics (held : String) (x y : Resolving α) : Prop :=
  ∀ ⦃p p' : Progress⦄ ⦃a : α⦄ ⦃q : Progress⦄, p.context.Holding held → p'.context = p.context →
    Yields x p a q → q.context.Holding held ∧ ∃ q', Yields y p' a q' ∧ q'.context = q.context

theorem mimics_of_quiet {x y : Resolving α} {result : Except Interruption α} (hx : Quiet x result)
    (hy : Quiet y result) : Mimics held x y := by
  intro p p' a q hp hp' h
  obtain ⟨rfl, hq⟩ := hx.yields h
  obtain ⟨q', h', hq'⟩ := hy.exists_yields p'
  exact ⟨hq ▸ hp, q', h', by rw [hq', hp', hq]⟩

theorem mimics_pure (a : α) : Mimics held (pure a : Resolving α) (pure a) :=
  mimics_of_quiet (quiet_pure a) (quiet_pure a)

theorem Mimics.bind {x y : Resolving α} {f g : α → Resolving β} (hx : Mimics held x y)
    (hf : ∀ a, Mimics held (f a) (g a)) : Mimics held (x >>= f) (y >>= g) := by
  intro p p' b q hp hp' h
  obtain ⟨a, o, ha, h⟩ := yields_bind_iff.1 h
  obtain ⟨ho, o', ha', ho'⟩ := hx hp hp' ha
  obtain ⟨hq, q', h', hq'⟩ := hf a ho ho' h
  exact ⟨hq, q', yields_bind_iff.2 ⟨a, o', ha', h'⟩, hq'⟩

theorem mimics_mapM {f g : α → Resolving β} (hf : ∀ a, Mimics held (f a) (g a)) (xs : List α) :
    Mimics held (xs.mapM f) (xs.mapM g) := by
  induction xs with
  | nil => exact mimics_pure []
  | cons x xs ih =>
    rw [List.mapM_cons, List.mapM_cons]
    exact (hf x).bind fun _ => ih.bind fun _ => mimics_pure _

theorem mimics_report (event : Event) : Mimics held (report event) (report event) :=
  mimics_of_quiet (quiet_report event) (quiet_report event)

/-- What is known is the same, and the module is held. -/
theorem mimics_context_bind {f g : Context → Resolving α}
    (h : ∀ c : Context, c.Holding held → Mimics held (f c) (g c)) :
    Mimics held (context >>= f) (context >>= g) := by
  intro p p' a q hp hp' hrun
  obtain ⟨c, o, ho, hrun⟩ := yields_bind_iff.1 hrun
  obtain ⟨rfl, rfl⟩ := yields_context_iff.1 ho
  obtain ⟨hq, q', hrun', hq'⟩ := h _ hp hp hp' hrun
  refine ⟨hq, q', yields_bind_iff.2 ⟨_, p', yields_context_iff.2 ⟨rfl, rfl⟩, ?_⟩, hq'⟩
  rwa [hp']

theorem mimics_updateContext {f : Context → Context}
    (hf : ∀ c : Context, c.Holding held → (f c).Holding held) :
    Mimics held (updateContext f) (updateContext f) := by
  intro p p' a q hp hp' h
  rw [yields_updateContext_iff] at h
  subst h
  exact ⟨hf _ hp, _, yields_updateContext_iff.2 rfl, congrArg f hp'⟩

end Resolving

namespace Resolver

/-- A resolver for the place without a module. -/
def without (r : Resolver) (path : String) : Resolver :=
  ⟨r.files.without path, r.flatten⟩

variable {r : Resolver} {held directory : String} {descend descend' : String → Resolving (List Entry)}
  {p q : Progress}

theorem leads_without_iff {files : Files} {e : Entry} {target content : String} :
    Leads (files.without held) directory e target content ↔
      Leads files directory e target content ∧ Path.normalize target ≠ held := by
  constructor
  · rintro ⟨hloc, hread⟩
    have hne : Path.normalize target ≠ held := fun htarget => by
      rw [Files.read_without htarget] at hread
      cases hread
    exact ⟨⟨hloc, Files.read_without_of_ne hne ▸ hread⟩, hne⟩
  · rintro ⟨⟨hloc, hread⟩, hne⟩
    exact ⟨hloc, (Files.read_without_of_ne hne).trans hread⟩

/-- Whatever spelling of its path it is read under, the module is a barrel. -/
def BarrelAt (files : Files) (path : String) : Prop :=
  ∀ target content, Path.normalize target = path → files.read target = .ok content →
    isBarrel (moduleEntries content) = true

/-- What takes the place of an entry, if the module gives nothing, does so without the module. -/
theorem Replaced.without {Q : String → List Entry → Prop} {e : Entry} {new : List Entry}
    (h : Replaced r directory Q e new)
    (hbarrel : ∀ {target content}, Leads r.files directory e target content →
      Path.normalize target = held → isBarrel (moduleEntries content) = true)
    (hQ : ∀ target nested, Path.normalize target = held → Q target nested → nested = []) :
    Replaced (r.without held) directory Q e new := by
  cases h with
  | astray hnone => exact .astray fun target content lead => hnone _ _ (leads_without_iff.1 lead).1
  | @barrel target content nested lead hcontent hnested =>
    by_cases htarget : Path.normalize target = held
    · obtain rfl := hQ _ _ htarget hnested
      refine .astray fun target' content' lead' => ?_
      obtain ⟨lead', hne⟩ := leads_without_iff.1 lead'
      obtain ⟨rfl, -⟩ := lead.unique lead'
      exact hne htarget
    · exact .barrel (leads_without_iff.2 ⟨lead, htarget⟩) hcontent hnested
  | leaf lead hleaf hnew =>
    refine .leaf (leads_without_iff.2 ⟨lead, fun htarget => ?_⟩) hleaf hnew
    rw [hbarrel lead htarget] at hleaf
    cases hleaf

/-! ### Calls -/

/-- A call for the module that is held gives nothing. -/
theorem resolveWithin_held {depth : Nat} {target : String} {nested : List Entry}
    (htarget : Path.normalize target = held) (hp : p.context.Holding held)
    (h : Yields (r.resolveWithin depth target) p nested q) :
    nested = [] ∧ q.context = p.context := by
  cases depth with
  | zero =>
    obtain ⟨rfl, rfl⟩ := yields_pure_iff.1 h
    exact ⟨rfl, rfl⟩
  | succ depth =>
    have hcall := resolveWithin_call h
    rw [htarget] at hcall
    cases hcall with
    | recorded hrec =>
      rw [hp.unrecorded] at hrec
      cases hrec
    | cycle _ _ hq => exact ⟨rfl, hq⟩
    | unreadable _ hvisited => exact absurd hp.visited hvisited
    | resolved _ hvisited => exact absurd hp.visited hvisited

theorem readResult_without (files : Files) (held target : String) :
    readResult (files.without held) target =
      if Path.normalize target = held then .ok none else readResult files target := by
  unfold readResult
  by_cases h : Path.normalize target = held
  · rw [if_pos h, Files.read_without h]
    rfl
  · rw [if_neg h, Files.read_without_of_ne h]

/-- Another module is read as before. -/
theorem mimics_readModule {target : String} (htarget : Path.normalize target ≠ held) :
    Mimics held (r.readModule target) ((r.without held).readModule target) := by
  have hquiet := quiet_readModule (r.without held) target
  rw [show readResult (r.without held).files target = readResult r.files target from
    (readResult_without r.files held target).trans (if_neg htarget)] at hquiet
  exact mimics_of_quiet (quiet_readModule r target) hquiet

/-- An entry that leads back to the module stays as it is. -/
theorem resolveEntry_held (hbarrel : BarrelAt r.files held)
    (hself : ∀ {target p nested q}, Path.normalize target = held → p.context.Holding held →
      Yields (descend target) p nested q → nested = [] ∧ q.context = p.context)
    {e : Entry} {target : String} {new : List Entry}
    (hloc : locate r.files moduleExtensions e.source directory = some target)
    (htarget : Path.normalize target = held) (hp : p.context.Holding held)
    (h : Yields (r.resolveEntry descend directory e) p new q) :
    new = [e] ∧ q.context = p.context := by
  cases resolveEntry_call h with
  | astray _ hq => exact ⟨rfl, hq⟩
  | barrel lead _ ho hnested =>
    obtain rfl := Option.some.inj (hloc.symm.trans lead.located)
    obtain ⟨rfl, hq⟩ := hself htarget (ho ▸ hp) hnested
    exact ⟨rfl, hq.trans ho⟩
  | leaf lead hleaf =>
    obtain rfl := Option.some.inj (hloc.symm.trans lead.located)
    rw [hbarrel _ _ htarget lead.read] at hleaf
    cases hleaf

/-- It stays as it is without the module, too. -/
theorem quiet_resolveEntry_without {e : Entry} {target : String}
    (hloc : locate r.files moduleExtensions e.source directory = some target)
    (htarget : Path.normalize target = held) :
    Quiet ((r.without held).resolveEntry descend directory e) (.ok [e]) := by
  have hquiet := quiet_readModule (r.without held) target
  rw [show readResult (r.without held).files target = .ok none from
    (readResult_without r.files held target).trans (if_pos htarget)] at hquiet
  unfold resolveEntry
  split
  · exact quiet_pure [e]
  rw [show locate (r.without held).files moduleExtensions e.source directory = some target from hloc]
  show Quiet _ ((.ok none : Except Interruption (Option String)) >>= fun _ => .ok [e])
  refine hquiet.bind fun out hout => ?_
  cases hout
  exact quiet_pure [e]

/-- One entry. -/
theorem mimics_resolveEntry (hbarrel : BarrelAt r.files held)
    (hdescend : ∀ target, Mimics held (descend target) (descend' target))
    (hself : ∀ {target p nested q}, Path.normalize target = held → p.context.Holding held →
      Yields (descend target) p nested q → nested = [] ∧ q.context = p.context)
    (directory : String) (e : Entry) : Mimics held (r.resolveEntry descend directory e)
      ((r.without held).resolveEntry descend' directory e) := by
  by_cases hback : ∃ target, locate r.files moduleExtensions e.source directory = some target ∧
      Path.normalize target = held
  · obtain ⟨target, hloc, htarget⟩ := hback
    intro p p' new q hp hp' h
    obtain ⟨rfl, hq⟩ := resolveEntry_held hbarrel hself hloc htarget hp h
    obtain ⟨q', h', hq'⟩ := (quiet_resolveEntry_without hloc htarget).exists_yields p'
    exact ⟨hq ▸ hp, q', h', by rw [hq', hp', hq]⟩
  unfold resolveEntry
  split
  · exact mimics_pure _
  rw [show locate (r.without held).files moduleExtensions e.source directory =
    locate r.files moduleExtensions e.source directory from rfl]
  cases hloc : locate r.files moduleExtensions e.source directory with
  | none => exact (mimics_report _).bind fun _ => mimics_pure _
  | some target =>
    have htarget : Path.normalize target ≠ held := fun h => hback ⟨target, hloc, h⟩
    refine (mimics_readModule htarget).bind fun out => ?_
    cases out with
    | none => exact mimics_pure _
    | some content =>
      show Mimics held (if isBarrel (moduleEntries content) = true then _ else _)
        (if isBarrel (moduleEntries content) = true then _ else _)
      split
      · exact (hdescend target).bind fun _ => mimics_pure _
      · exact mimics_of_quiet (quiet_leafEntries r e target content)
          (quiet_leafEntries (r.without held) e target content)

theorem mimics_resolveContent
    (hentries : ∀ directory e, Mimics held (r.resolveEntry descend directory e)
      ((r.without held).resolveEntry descend' directory e))
    (path content : String) : Mimics held (r.resolveContent descend path content)
      ((r.without held).resolveContent descend' path content) := by
  have hall : Mimics held
      (r.resolveAll descend (Path.directory path) [] (moduleEntries content))
      ((r.without held).resolveAll descend' (Path.directory path) [] (moduleEntries content)) := by
    intro p p' found q hp hp' h
    obtain ⟨news, hnews, rfl⟩ := yields_resolveAll_iff.1 h
    obtain ⟨hq, q', hnews', hq'⟩ := mimics_mapM (hentries _) _ hp hp' hnews
    exact ⟨hq, q', yields_resolveAll_iff.2 ⟨news, hnews', rfl⟩, hq'⟩
  exact hall.bind fun _ => (mimics_report _).bind fun _ => mimics_pure _

/-- One call, for whatever module. -/
theorem mimics_resolvePath
    (hentries : ∀ directory e, Mimics held (r.resolveEntry descend directory e)
      ((r.without held).resolveEntry descend' directory e))
    (path : String) : Mimics held (r.resolvePath descend path)
      ((r.without held).resolvePath descend' path) := by
  unfold resolvePath
  refine mimics_context_bind fun c hc => ?_
  split
  · exact mimics_pure _
  split
  · exact (mimics_report _).bind fun _ => mimics_pure _
  rename_i hnew
  have hpath : Path.normalize path ≠ held := fun h => hnew (h ▸ hc.visited)
  have hvisit : Mimics held (updateContext (·.visit (Path.normalize path)))
      (updateContext (·.visit (Path.normalize path))) := mimics_updateContext fun c hc =>
    ⟨Context.mem_visited_visit.2 (.inl hc.visited), by
      rw [Context.recorded?_visit]
      exact hc.unrecorded⟩
  refine hvisit.bind fun _ => (mimics_readModule ?_).bind fun out => ?_
  · rwa [Path.normalize_normalize]
  cases out with
  | none => exact mimics_pure _
  | some content =>
    refine (mimics_resolveContent hentries _ content).bind fun found => ?_
    have hrecord : Mimics held (updateContext (·.record (Path.normalize path) found))
        (updateContext (·.record (Path.normalize path) found)) := mimics_updateContext fun c hc =>
      ⟨by rw [Context.visited_record]; exact hc.visited, by
        rw [Context.recorded?_record, if_neg (Ne.symm hpath)]
        exact hc.unrecorded⟩
    exact hrecord.bind fun _ => mimics_pure _

/-- **A module that is being resolved is as good as gone**: a call of any depth is mimicked by one in
the place without it. -/
theorem mimics_resolveWithin (hbarrel : BarrelAt r.files held) (depth : Nat) (path : String) :
    Mimics held (r.resolveWithin depth path) ((r.without held).resolveWithin depth path) := by
  induction depth generalizing path with
  | zero => exact mimics_pure []
  | succ depth ih =>
    exact mimics_resolvePath
      (mimics_resolveEntry hbarrel ih fun htarget hp h => resolveWithin_held htarget hp h) path

/-- So is a run over entries. -/
theorem mimics_resolveEntries (hbarrel : BarrelAt r.files held) (depth : Nat) (directory : String)
    (entries : List Entry) :
    Mimics held (entries.mapM (r.resolveEntry (r.resolveWithin depth) directory))
      (entries.mapM ((r.without held).resolveEntry ((r.without held).resolveWithin depth)
        directory)) :=
  mimics_mapM (mimics_resolveEntry hbarrel (mimics_resolveWithin hbarrel depth)
    (fun htarget hp h => resolveWithin_held htarget hp h) directory) entries

end Resolver

end Reexport
