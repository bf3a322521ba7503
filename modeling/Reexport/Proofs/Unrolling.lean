import Reexport.Proofs.Agreement
import Reexport.Proofs.Traversal

/-!
# The traversal ends

A module is resolved by one call inside another: `resolvePath` says what one call does, given what the
calls below it do, and `resolveFile` unrolls it to a depth at which, it is said, no call arrives. Here
this is shown, and with it that the recursion needs no bound. Each call that gets past the check whether
its module was taken up before takes up one more (`unvisited`), whatever spellings of its path the
modules use and whatever cycles they form.

To speak of the calls that are active at one time, the traversal is unrolled with a hook
(`Resolver.hooked`): each call that gets past the check runs it with the paths of the calls that are then
active. A hook that does nothing changes nothing, so the hooked traversal is the traversal as long as the
hook does nothing where it is run.

## What is proved

* `agreeFrom_resolveWithin` — the step and the run: whatever goes on like `resolvePath` at each level is
  what `resolveWithin` is, at every depth that exceeds the number of modules left.
* `resolveWithin_eq_resolveFile`, `eq_resolveFile_iff` — depth that is not needed changes nothing, and the
  recursion has exactly one solution.
* `hooked_watch` — calls that are active at one time are for different modules, all but the outermost
  modules of the place, and none arrives below the depth.
-/

namespace Reexport

open Resolving

/-- Whether a module was neither taken up before nor recorded. A call for it computes its entries. -/
def Context.isNew (c : Context) (path : String) : Bool :=
  (c.recorded? path).isNone && decide (path ∉ c.visited)

theorem Context.isNew_iff {c : Context} {path : String} :
    c.isNew path = true ↔ c.recorded? path = none ∧ path ∉ c.visited := by
  unfold isNew
  rw [Bool.and_eq_true, Option.isNone_iff_eq_none, decide_eq_true_eq]

namespace Resolver

variable {r : Resolver}

/-! ### Calls inside one another -/

/-- The paths of calls inside one another, the innermost first: they differ in their normal spellings,
and all but the outermost lead to modules of the place. -/
def Nested (r : Resolver) (paths : List String) : Prop :=
  (paths.map Path.normalize).Nodup ∧ ∀ path ∈ paths.dropLast, r.files.holds path = true

instance (r : Resolver) (paths : List String) : Decidable (r.Nested paths) :=
  inferInstanceAs (Decidable (_ ∧ _))

theorem nested_nil (r : Resolver) : r.Nested [] := ⟨.nil, nofun⟩

theorem Nested.cons {paths : List String} {path : String} (h : r.Nested paths)
    (hnew : Path.normalize path ∉ paths.map Path.normalize)
    (hholds : paths = [] ∨ r.files.holds path = true) : r.Nested (path :: paths) := by
  refine ⟨List.nodup_cons.2 ⟨hnew, h.1⟩, fun v hv => ?_⟩
  cases paths with
  | nil => cases hv
  | cons other paths =>
    rw [List.dropLast_cons_cons] at hv
    rcases List.mem_cons.1 hv with rfl | hv
    · exact hholds.resolve_left (List.cons_ne_nil _ _)
    · exact h.2 v hv

/-- Calls that are active with a context: their modules were taken up. -/
structure Active (r : Resolver) (c : Context) (paths : List String) : Prop where
  nested : r.Nested paths
  visited : ∀ path ∈ paths, Path.normalize path ∈ c.visited

theorem active_nil (r : Resolver) (c : Context) : r.Active c [] := ⟨nested_nil r, nofun⟩

/-- One more call becomes active when it takes up its module. -/
theorem Active.cons {c : Context} {paths : List String} {path : String} (h : r.Active c paths)
    (hnew : Path.normalize path ∉ c.visited) (hholds : paths = [] ∨ r.files.holds path = true) :
    r.Active (c.visit (Path.normalize path)) (path :: paths) where
  nested := by
    refine h.nested.cons (fun hmem => hnew ?_) hholds
    obtain ⟨other, hother, heq⟩ := List.mem_map.1 hmem
    exact heq ▸ h.visited other hother
  visited other hother := by
    rw [Context.mem_visited_visit]
    rcases List.mem_cons.1 hother with rfl | hother
    · exact .inr rfl
    · exact .inl (h.visited other hother)

theorem Active.grows {c c' : Context} {paths : List String} (h : r.Active c paths)
    (hgrows : c.Grows c') : r.Active c' paths :=
  ⟨h.nested, fun path hpath => hgrows.visited _ (h.visited path hpath)⟩

/-! ### Unrolling to any depth -/

/-- **The unrolled traversal is whatever goes on like it.** A family of calls, which may look at the
paths of the calls around them, is `resolveWithin` if each level is `resolvePath` of the one below,
wherever calls can arrive at it. The induction is on the depth, which exceeds the number of modules left. -/
theorem agreeFrom_resolveWithin (calls : Nat → List String → String → Resolving (List Entry))
    (hstep : ∀ level active path (p : Progress), r.Active p.context active →
      (active = [] ∨ r.files.holds path = true) →
      AgreeFrom p (r.resolvePath (calls level (path :: active)) path) (calls (level + 1) active path))
    {known : List String} (hknown : ∀ path, r.files.holds path = true → Path.normalize path ∈ known)
    {depth level : Nat} {active : List String} {path : String} {p : Progress}
    (hactive : r.Active p.context active) (hholds : active = [] ∨ r.files.holds path = true)
    (hpath : Path.normalize path ∈ known) (hdepth : unvisited known p.context < depth)
    (hlevel : unvisited known p.context < level) :
    AgreeFrom p (r.resolveWithin depth path) (calls level active path) := by
  induction depth generalizing level active path p with
  | zero => exact absurd hdepth (Nat.not_lt_zero _)
  | succ depth ih =>
    obtain ⟨level, rfl⟩ : ∃ l, level = l + 1 := ⟨level - 1, by omega⟩
    refine AgreeFrom.trans ?_ (hstep level active path p hactive hholds)
    refine agreeFrom_resolvePath (.refl r) (growing_resolveWithin r depth) path
      fun hnew target o htarget hgrows => ?_
    have hless : unvisited known o.context < unvisited known p.context :=
      lt_of_le_of_lt (unvisited_le hgrows.visited) (unvisited_visit_lt hpath hnew)
    exact ih ((hactive.cons hnew hholds).grows hgrows) (.inr htarget) (hknown target htarget)
      (by omega) (by omega)

/-- Depth that is not needed changes nothing. -/
theorem resolveWithin_eq_resolveFile {depth : Nat} (hdepth : r.depth ≤ depth) (path : String) :
    r.resolveWithin depth path = r.resolveFile path := by
  obtain ⟨known, hpath, hknown, hleft⟩ := r.exists_known path
  exact eq_of_agreeFrom fun p =>
    agreeFrom_resolveWithin (fun level _ => r.resolveWithin level) (fun _ _ _ p _ _ => .refl p _)
      hknown (active_nil r _) (.inl rfl) hpath (lt_of_lt_of_le (hleft _) hdepth) (hleft _)

/-- **The recursion has one solution**: what goes on for ever like `resolvePath` is `resolveFile`. -/
theorem eq_resolveFile_iff {f : String → Resolving (List Entry)} :
    (∀ path, f path = r.resolvePath f path) ↔ f = r.resolveFile := by
  constructor
  · intro hf
    funext path
    obtain ⟨known, hpath, hknown, hleft⟩ := r.exists_known path
    exact eq_of_agreeFrom fun p => AgreeFrom.symm <|
      agreeFrom_resolveWithin (fun _ _ => f)
        (fun _ _ path p _ _ => .of_eq (hf path).symm) hknown (active_nil r _) (.inl rfl) hpath
        (hleft _) (hleft _)
  · rintro rfl path
    rw [← resolveWithin_eq_resolveFile (Nat.le_succ r.depth)]
    rfl

/-- A call for a module makes calls of its own kind. -/
theorem resolveFile_call {path : String} {p q : Progress} {found : List Entry}
    (h : Yields (r.resolveFile path) p found q) :
    Call r r.resolveFile (Path.normalize path) p found q := by
  rw [eq_resolveFile_iff.2 rfl path] at h
  exact resolvePath_call h

/-! ### The traversal with a hook -/

/-- The traversal, unrolled, with a hook. Each call that gets past the check whether its module was
taken up before runs the hook with the paths of the calls that are then active, the innermost first.
What lies below the depth is `deeper`. -/
def hooked (r : Resolver) (hook : List String → Resolving Unit) (deeper : Resolving (List Entry)) :
    (depth : Nat) → (active : List String) → String → Resolving (List Entry)
  | 0, _, _ => deeper
  | depth + 1, active, path => do
    if (← context).isNew (Path.normalize path) then hook (path :: active)
    r.resolvePath (r.hooked hook deeper depth (path :: active)) path

/-- The same for a module whose text is at hand, which is active while its entries are resolved. -/
def hookedSource (r : Resolver) (hook : List String → Resolving Unit)
    (deeper : Resolving (List Entry)) (depth : Nat) (content path : String) :
    Resolving (List Entry) := do
  updateContext (·.visit (Path.normalize path))
  r.resolveContent (r.hooked hook deeper depth [path]) (Path.normalize path) content

end Resolver

/-- The answer to a question, with a hook. -/
def Query.hooked (r : Resolver) (hook : List String → Resolving Unit)
    (deeper : Resolving (List Entry)) (depth : Nat) : Query → Resolving (List Entry)
  | file path => r.hooked hook deeper depth [] path
  | source content path => r.hookedSource hook deeper depth content path

namespace Resolver

variable {r : Resolver} {deeper : Resolving (List Entry)}

/-- A hook that raises an alarm if the active calls are not as they should be. -/
def watch (r : Resolver) (alarm : Resolving Unit) (active : List String) : Resolving Unit :=
  if r.Nested active then pure () else alarm

/-- One level of the watched traversal is one call: the alarm is not raised. -/
theorem agreeFrom_hooked_watch (alarm : Resolving Unit) (depth : Nat) {active : List String}
    {path : String} {p : Progress} (hactive : r.Active p.context active)
    (hholds : active = [] ∨ r.files.holds path = true) :
    AgreeFrom p (r.resolvePath (r.hooked (r.watch alarm) deeper depth (path :: active)) path)
      (r.hooked (r.watch alarm) deeper (depth + 1) active path) := by
  have hsilent : p.context.isNew (Path.normalize path) = true →
      r.watch alarm (path :: active) = pure () := by
    intro hnew
    exact if_pos (hactive.cons (Context.isNew_iff.1 hnew).2 hholds).nested
  unfold hooked
  show AgreeFrom p _ (do
    if p.context.isNew (Path.normalize path) then r.watch alarm (path :: active)
    r.resolvePath _ path)
  split
  · rename_i hnew
    rw [hsilent hnew]
    exact .refl p _
  · exact .refl p _

/-- **No alarm is raised**, and no call arrives below the depth. -/
theorem hooked_watch (r : Resolver) (alarm : Resolving Unit) (deeper : Resolving (List Entry))
    {depth : Nat} (hdepth : r.depth ≤ depth) (query : Query) :
    query.hooked r (r.watch alarm) deeper depth = query.answer r := by
  have hrun {known : List String}
      (hknown : ∀ path, r.files.holds path = true → Path.normalize path ∈ known)
      (hleft : ∀ c, unvisited known c < r.depth) {active : List String} {path : String} {p : Progress}
      (hactive : r.Active p.context active) (hholds : active = [] ∨ r.files.holds path = true)
      (hpath : Path.normalize path ∈ known) :
      AgreeFrom p (r.resolveFile path) (r.hooked (r.watch alarm) deeper depth active path) :=
    agreeFrom_resolveWithin (r.hooked (r.watch alarm) deeper)
      (fun level _ _ _ hactive hholds => agreeFrom_hooked_watch alarm level hactive hholds) hknown
      hactive hholds hpath (hleft _) (lt_of_lt_of_le (hleft _) hdepth)
  refine eq_of_agreeFrom fun p => AgreeFrom.symm ?_
  cases query with
  | file path =>
    obtain ⟨known, hpath, hknown, hleft⟩ := r.exists_known path
    exact hrun hknown hleft (active_nil r _) (.inl rfl) hpath
  | source content path =>
    obtain ⟨known, hpath, hknown, hleft⟩ := r.exists_known path
    refine AgreeFrom.bind_left _ fun _ o ho => ?_
    have ho : o.context = p.context.visit (Path.normalize path) := by
      rw [yields_updateContext_iff.1 ho]
    refine agreeFrom_resolveContent (.refl r) rfl (fun e _ => sameLeaf_refl r _ e)
      (growing_resolveWithin r r.depth) fun target q htarget hgrows => ?_
    rw [ho] at hgrows
    have hactive : r.Active q.context [path] := by
      refine ⟨(nested_nil r).cons List.not_mem_nil (.inl rfl), fun other hother => ?_⟩
      rw [List.mem_singleton.1 hother]
      exact hgrows.visited _ (Context.mem_visited_visit.2 (.inr rfl))
    exact hrun hknown hleft hactive (.inr htarget) (hknown target htarget)

end Resolver

end Reexport
