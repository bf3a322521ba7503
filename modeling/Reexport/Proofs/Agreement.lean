import Reexport.Proofs.Contexts

/-!
# Runs that agree

Two computations `AgreeFrom` a progress if, begun with it, they end alike and leave the same progress,
events included. One call of the resolver agrees with another if the calls below them do
(`agreeFrom_resolvePath`), and these are only made for modules of the place, with contexts that have
grown from the one in which the module was taken up. So whoever compares two traversals has to compare
the calls below from such contexts only (`AgreeAfter`).

The two resolvers need not be the same, either. They may work on places that are `Alike`: where modules
stand at the same paths and have the same re-exports, whatever else is in their texts.
-/

namespace Reexport

namespace Resolving

variable {α β : Type} {p : Progress}

/-- Begun with `p`, both computations end alike and leave the same progress. -/
def AgreeFrom (p : Progress) (x y : Resolving α) : Prop :=
  x.run.run p = y.run.run p

namespace AgreeFrom

variable {x y : Resolving α}

theorem refl (p : Progress) (x : Resolving α) : AgreeFrom p x x := rfl

theorem symm (h : AgreeFrom p x y) : AgreeFrom p y x := Eq.symm h

theorem trans {z : Resolving α} (h : AgreeFrom p x y) (h' : AgreeFrom p y z) : AgreeFrom p x z :=
  Eq.trans h h'

theorem of_eq (h : x = y) : AgreeFrom p x y := h ▸ refl p x

/-- Sequences of steps agree if the steps do, from wherever the first step ends. -/
theorem bind (hx : AgreeFrom p x y) {f g : α → Resolving β}
    (hf : ∀ a o, Yields x p a o → AgreeFrom o (f a) (g a)) : AgreeFrom p (x >>= f) (y >>= g) := by
  unfold AgreeFrom at hx hf ⊢
  rw [run_bind, run_bind, ← hx]
  cases hrun : x.run.run p with
  | mk result o =>
    cases result with
    | ok a => exact hf a o hrun
    | error i => rfl

/-- A common first step. -/
theorem bind_left (x : Resolving α) {f g : α → Resolving β}
    (hf : ∀ a o, Yields x p a o → AgreeFrom o (f a) (g a)) : AgreeFrom p (x >>= f) (x >>= g) :=
  (refl p x).bind hf

end AgreeFrom

/-- A step that only looks at the context. -/
theorem agreeFrom_context_bind (p : Progress) (f : Context → Resolving α) :
    AgreeFrom p (context >>= f) (f p.context) := rfl

/-- Computations that agree from every progress are one. -/
theorem eq_of_agreeFrom {x y : Resolving α} (h : ∀ p, AgreeFrom p x y) : x = y :=
  funext h

end Resolving

open Resolving

namespace Resolver

variable {r r' : Resolver} {descend descend' : String → Resolving (List Entry)}
  {directory path : String} {c : Context} {e : Entry} {p : Progress}

/-! ### Places that are alike -/

/-- What takes the place of an entry whose source is no barrel is the same for both resolvers. -/
def SameLeaf (r r' : Resolver) (directory : String) (e : Entry) : Prop :=
  ∀ ⦃target nested nested' : String⦄, Leads r.files directory e target nested →
    Leads r'.files directory e target nested' →
      r.leafEntries e target nested = r'.leafEntries e target nested'

/-- Modules stand at the same paths, have the same re-exports or fail to be read in the same way. -/
structure Alike (r r' : Resolver) : Prop where
  holds : r.files.holds = r'.files.holds
  /-- Of the texts, only the re-exports count. -/
  read (path : String) :
    (r.files.read path).map moduleEntries = (r'.files.read path).map moduleEntries
  /-- Nor does anything else count before a module that is no barrel. -/
  leaf {path content : String} {e : Entry} (hpath : Path.normalize path = path)
    (hread : r.files.read path = .ok content) (he : e ∈ moduleEntries content) :
    SameLeaf r r' (Path.directory path) e

theorem sameLeaf_refl (r : Resolver) (directory : String) (e : Entry) : SameLeaf r r directory e := by
  intro target nested nested' lead lead'
  obtain ⟨-, rfl⟩ := lead.unique lead'
  rfl

theorem Alike.refl (r : Resolver) : Alike r r :=
  ⟨rfl, fun _ => rfl, fun _ _ _ => sameLeaf_refl r _ _⟩

theorem readModule_of_ok {content : String} (h : r.files.read path = .ok content) :
    r.readModule path = pure (some content) := by
  unfold readModule
  rw [h]

/-- An entry in front of a module. -/
theorem resolveEntry_of_leads {target content : String} (lead : Leads r.files directory e target content) :
    r.resolveEntry descend directory e =
      if isBarrel (moduleEntries content) then do return e.inlined (← descend target)
      else r.leafEntries e target content := by
  unfold resolveEntry
  rw [isRelative_of_locate lead.located, lead.located]
  simp only [Bool.not_true, Bool.false_eq_true, if_false, readModule_of_ok lead.read, pure_bind]

/-- A module can be read in both places or in none, and then for the same reason. -/
theorem Alike.readModule (h : Alike r r') (path : String) :
    ((∀ content, r.files.read path ≠ .ok content) ∧ r.readModule path = r'.readModule path) ∨
      ∃ content content', r.files.read path = .ok content ∧ r'.files.read path = .ok content' ∧
        moduleEntries content = moduleEntries content' := by
  have hread := h.read path
  unfold Resolver.readModule
  cases hr : r.files.read path with
  | error why =>
    cases hr' : r'.files.read path with
    | error why' =>
      rw [hr, hr'] at hread
      obtain rfl := Except.error.inj hread
      exact .inl ⟨nofun, rfl⟩
    | ok content' =>
      rw [hr, hr'] at hread
      cases hread
  | ok content =>
    cases hr' : r'.files.read path with
    | error why' =>
      rw [hr, hr'] at hread
      cases hread
    | ok content' =>
      rw [hr, hr'] at hread
      exact .inr ⟨content, content', rfl, rfl, Except.ok.inj hread⟩

/-- What follows a module that cannot be read is one computation in both places. -/
theorem agreeFrom_readModule_bind {α : Type} {x : Resolving α} {f g : String → Resolving α}
    (hread : ∀ content, r.files.read path ≠ .ok content) :
    AgreeFrom p
      (do match ← r.readModule path with
          | none => x
          | some content => f content)
      (do match ← r.readModule path with
          | none => x
          | some content => g content) := by
  refine .bind_left _ fun out o hout => ?_
  cases out with
  | none => exact .refl o x
  | some content =>
    exact absurd (readResult_eq_some_iff.1 ((quiet_readModule r path).yields hout).1) (hread content)

/-! ### Calls -/

/-- The calls for modules of the place agree, from all contexts that have grown from the given one. -/
def AgreeAfter (files : Files) (c : Context) (descend descend' : String → Resolving (List Entry)) :
    Prop :=
  ∀ ⦃target : String⦄ ⦃o : Progress⦄, files.holds target = true → c.Grows o.context →
    AgreeFrom o (descend target) (descend' target)

theorem AgreeAfter.mono {files : Files} {c' : Context} (h : AgreeAfter files c descend descend')
    (hgrows : c.Grows c') : AgreeAfter files c' descend descend' :=
  fun _ _ hholds ho => h hholds (hgrows.trans ho)

/-- One entry. -/
theorem agreeFrom_resolveEntry (h : Alike r r') (hleaf : SameLeaf r r' directory e)
    (hdescend : AgreeAfter r.files p.context descend descend') :
    AgreeFrom p (r.resolveEntry descend directory e) (r'.resolveEntry descend' directory e) := by
  unfold resolveEntry
  split
  · exact .refl p _
  rw [← locate_congr h.holds]
  split
  · exact .refl p _
  rename_i target hloc
  rcases h.readModule target with ⟨hread, heq⟩ | ⟨content, content', hread, hread', hentries⟩
  · rw [← heq]
    exact agreeFrom_readModule_bind hread
  have lead : Leads r.files directory e target content := ⟨hloc, hread⟩
  have lead' : Leads r'.files directory e target content' := ⟨locate_congr h.holds .. ▸ hloc, hread'⟩
  simp only [readModule_of_ok hread, readModule_of_ok hread', pure_bind, ← hentries]
  split
  · exact (hdescend lead.holds (.refl _)).bind fun nested o _ => .refl o _
  · exact .of_eq (hleaf lead lead')

/-- Entries one after another. -/
theorem agreeFrom_resolveAll (h : Alike r r') {entries : List Entry}
    (hleaf : ∀ e ∈ entries, SameLeaf r r' directory e) (hgrowing : ∀ target, Growing (descend target))
    (hdescend : AgreeAfter r.files p.context descend descend') (found : List Entry) :
    AgreeFrom p (r.resolveAll descend directory found entries)
      (r'.resolveAll descend' directory found entries) := by
  induction entries generalizing p found with
  | nil => exact .refl p _
  | cons e entries ih =>
    rw [List.forall_mem_cons] at hleaf
    refine (agreeFrom_resolveEntry h hleaf.1 hdescend).bind fun new o hnew => ?_
    have hgrows := (growing_resolveEntry hgrowing directory e).yields hnew
    exact ih hleaf.2 (hdescend.mono hgrows) _

/-- A text, or another one with the same re-exports. -/
theorem agreeFrom_resolveContent (h : Alike r r') {content content' : String}
    (hentries : moduleEntries content = moduleEntries content')
    (hleaf : ∀ e ∈ moduleEntries content, SameLeaf r r' (Path.directory path) e)
    (hgrowing : ∀ target, Growing (descend target))
    (hdescend : AgreeAfter r.files p.context descend descend') :
    AgreeFrom p (r.resolveContent descend path content)
      (r'.resolveContent descend' path content') := by
  unfold resolveContent
  rw [← hentries]
  exact (agreeFrom_resolveAll h hleaf hgrowing hdescend []).bind fun found o _ => .refl o _

/-- **Calls agree if the calls below them do**, from where the module has been taken up. If it was
taken up before, nothing is called. -/
theorem agreeFrom_resolvePath (h : Alike r r') (hgrowing : ∀ target, Growing (descend target))
    (path : String)
    (hdescend : Path.normalize path ∉ p.context.visited →
      AgreeAfter r.files (p.context.visit (Path.normalize path)) descend descend') :
    AgreeFrom p (r.resolvePath descend path) (r'.resolvePath descend' path) := by
  have hpath := Path.normalize_normalize path
  refine .bind_left _ fun known o hknown => ?_
  obtain ⟨rfl, rfl⟩ := yields_context_iff.1 hknown
  split
  · exact .refl o _
  split
  · exact .refl o _
  rename_i hnew
  refine .bind_left _ fun _ o₁ ho₁ => ?_
  have ho₁ : o₁.context = o.context.visit (Path.normalize path) := by
    rw [yields_updateContext_iff.1 ho₁]
  rcases h.readModule (Path.normalize path) with
    ⟨hread, heq⟩ | ⟨content, content', hread, hread', hentries⟩
  · rw [← heq]
    exact agreeFrom_readModule_bind hread
  simp only [readModule_of_ok hread, readModule_of_ok hread', pure_bind]
  refine (agreeFrom_resolveContent h hentries (fun e he => h.leaf hpath hread he) hgrowing ?_).bind
    fun entries o₂ _ => .refl o₂ _
  rw [ho₁]
  exact hdescend hnew

end Resolver

end Reexport
