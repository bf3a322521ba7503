import Reexport.Proofs.Unrolling

/-!
# Each module once

How often the entries of a module are computed does not show in what a call gives. So the traversal is
run with a hook that announces each call that gets past the check whether its module was taken up
before. Such a run `Echoes` the run without announcements: it gives the same, leaves the same context,
and but for the announcements it reports the same. While it does, the `charge` for a module never rises:
the announcements of the module, and one more as long as the module was not taken up.

## What is proved

* `echoes_hooked` — the announced traversal echoes the traversal, by induction on the depth.
* `resolution_ends` — the recursion has exactly one solution; calls that are active at one time are for
  different modules, all but the outermost modules of the place; and in one context the entries of a
  module are computed at most once.
-/

namespace Reexport

open Resolving

/-! ### Runs with announcements -/

/-- Whether an event announces that a file is begun. Following re-exports reports no such event. -/
def Event.isAnnouncement : Event → Bool
  | started _ => true
  | _ => false

/-- A hook that announces the innermost of the active calls. -/
def Resolver.announce : List String → Resolving Unit
  | [] => pure ()
  | path :: _ => report (.started (Path.normalize path))

/-- The second progress has the context of the first one, and but for announcements its log. -/
structure Progress.Heard (p p' : Progress) : Prop where
  context : p'.context = p.context
  log : p'.log.filter (!·.isAnnouncement) = p.log

/-- The announcements of a module, and one more as long as it was not taken up. -/
def charge (path : String) (p : Progress) : Nat :=
  p.log.count (.started path) + if path ∈ p.context.visited then 0 else 1

namespace Resolving

variable {α β : Type}

/-- The second computation, begun with `p'`, ends like the first one, begun with `p`. But for
announcements they leave the same, and no charge rises. -/
structure EchoFrom (p p' : Progress) (x y : Resolving α) : Prop where
  result : (y.run.run p').1 = (x.run.run p).1
  heard : (x.run.run p).2.Heard (y.run.run p').2
  charged (path : String) : charge path (y.run.run p').2 ≤ charge path p'

/-- The second computation echoes the first one, from whatever progress. -/
def Echoes (x y : Resolving α) : Prop :=
  ∀ ⦃p p' : Progress⦄, p.Heard p' → EchoFrom p p' x y

theorem EchoFrom.of_eq {p p' : Progress} {x y x' y' : Resolving α} (h : EchoFrom p p' x y)
    (hx : AgreeFrom p x' x) (hy : AgreeFrom p' y' y) : EchoFrom p p' x' y' := by
  constructor
  · rw [hx, hy, h.result]
  · rw [hx, hy]
    exact h.heard
  · rw [hy]
    exact h.charged

theorem echoes_pure (a : α) : Echoes (pure a) (pure a) :=
  fun _ _ hp => ⟨rfl, hp, fun _ => le_rfl⟩

theorem Echoes.bind {x y : Resolving α} {f g : α → Resolving β} (hx : Echoes x y)
    (hf : ∀ a, Echoes (f a) (g a)) : Echoes (x >>= f) (y >>= g) := by
  intro p p' hp
  obtain ⟨hresult, hheard, hcharge⟩ := hx hp
  rcases hxrun : x.run.run p with ⟨i | a, o⟩ <;> rcases hyrun : y.run.run p' with ⟨i' | a', o'⟩ <;>
    rw [hxrun, hyrun] at hresult hheard <;> rw [hyrun] at hcharge
  · cases hresult
    constructor <;> simp only [run_bind, hxrun, hyrun]
    · exact hheard
    · exact hcharge
  · cases hresult
  · cases hresult
  · cases hresult
    obtain ⟨hresult, hheard, hmore⟩ := hf a hheard
    constructor <;> simp only [run_bind, hxrun, hyrun]
    · exact hresult
    · exact hheard
    · exact fun path => (hmore path).trans (hcharge path)

/-- What only reports echoes itself. -/
theorem Tells.echoes {x : Resolving α} {result : Except Interruption α} (hx : Tells x result) :
    Echoes x x := by
  obtain ⟨events, hevents, hrun⟩ := hx
  intro p p' hp
  have hplain : events.filter (!·.isAnnouncement) = events := by
    rw [List.filter_eq_self]
    intro event hevent
    cases event with
    | started path => exact absurd hevent (hevents path)
    | _ => rfl
  constructor
  · rw [hrun, hrun]
  · rw [hrun, hrun]
    refine ⟨hp.context, ?_⟩
    rw [List.filter_append, hp.log, hplain]
  · intro path
    rw [hrun]
    unfold charge
    rw [List.count_append, List.count_eq_zero.2 (hevents path)]
    exact le_rfl

/-- A change of what is known, by which no module is forgotten. -/
theorem echoes_updateContext {f : Context → Context}
    (h : ∀ c : Context, ∀ v ∈ c.visited, v ∈ (f c).visited) :
    Echoes (updateContext f) (updateContext f) := by
  intro p p' hp
  refine ⟨rfl, ⟨congrArg f hp.context, hp.log⟩, fun path => ?_⟩
  show p'.log.count (.started path) + (if path ∈ (f p'.context).visited then 0 else 1) ≤
    charge path p'
  unfold charge
  by_cases hv : path ∈ p'.context.visited
  · rw [if_pos hv, if_pos (h _ path hv)]
  · rw [if_neg hv]
    split <;> omega

end Resolving

namespace Resolver

variable {r : Resolver} {descend descend' : String → Resolving (List Entry)} {path : String}

/-! ### Calls with announcements -/

/-- One entry. -/
theorem echoes_resolveEntry (hdescend : ∀ target, Echoes (descend target) (descend' target))
    (directory : String) (e : Entry) :
    Echoes (r.resolveEntry descend directory e) (r.resolveEntry descend' directory e) := by
  unfold resolveEntry
  split
  · exact echoes_pure _
  split
  · exact ((tells_report (by nofun)).echoes).bind fun _ => echoes_pure _
  rename_i target _
  refine (tells_readModule r target).echoes.bind fun out => ?_
  split
  · exact echoes_pure _
  split
  · exact (hdescend target).bind fun _ => echoes_pure _
  · exact (tells_leafEntries r e target _).echoes

theorem echoes_resolveAll (hdescend : ∀ target, Echoes (descend target) (descend' target))
    (directory : String) (found entries : List Entry) :
    Echoes (r.resolveAll descend directory found entries)
      (r.resolveAll descend' directory found entries) := by
  induction entries generalizing found with
  | nil => exact echoes_pure found
  | cons e entries ih => exact (echoes_resolveEntry hdescend directory e).bind fun _ => ih _

theorem echoes_resolveContent (hdescend : ∀ target, Echoes (descend target) (descend' target))
    (path content : String) :
    Echoes (r.resolveContent descend path content) (r.resolveContent descend' path content) :=
  (echoes_resolveAll hdescend _ _ _).bind fun _ =>
    (tells_report (by nofun)).echoes.bind fun _ => echoes_pure _

/-- What a call does when it has taken up the module at a normal path. -/
def resolveTaken (r : Resolver) (descend : String → Resolving (List Entry)) (path : String) :
    Resolving (List Entry) := do
  match ← r.readModule path with
  | none => return []
  | some content =>
    let entries ← r.resolveContent descend path content
    updateContext (·.record path entries)
    return entries

theorem echoes_resolveTaken (hdescend : ∀ target, Echoes (descend target) (descend' target))
    (path : String) : Echoes (r.resolveTaken descend path) (r.resolveTaken descend' path) := by
  refine (tells_readModule r path).echoes.bind fun out => ?_
  split
  · exact echoes_pure _
  · refine (echoes_resolveContent hdescend path _).bind fun entries => ?_
    refine (echoes_updateContext fun c v hv => ?_).bind fun _ => echoes_pure _
    rwa [Context.visited_record]

/-- A call that gets past the check takes its module up. -/
theorem agreeFrom_resolvePath_of_new {p : Progress}
    (hnew : p.context.isNew (Path.normalize path) = true) :
    AgreeFrom p (r.resolvePath descend path) (do
      updateContext (·.visit (Path.normalize path))
      r.resolveTaken descend (Path.normalize path)) := by
  rw [Context.isNew_iff] at hnew
  refine (agreeFrom_context_bind p _).trans ?_
  simp only [hnew.1, if_neg hnew.2]
  exact .refl p _

/-- A call that does not get past the check makes no calls. -/
theorem echoFrom_resolvePath_of_not_new {p p' : Progress} (hp : p.Heard p')
    (hnew : p.context.isNew (Path.normalize path) = false) :
    EchoFrom p p' (r.resolvePath descend path) (r.resolvePath descend' path) := by
  unfold resolvePath
  refine EchoFrom.of_eq ?_ (agreeFrom_context_bind p _) (agreeFrom_context_bind p' _)
  rw [hp.context]
  split
  · exact echoes_pure _ hp
  rename_i hrec
  split
  · exact (tells_report (by nofun)).echoes.bind (fun _ => echoes_pure _) hp
  rename_i hvisited
  rw [Context.isNew_iff.2 ⟨hrec, hvisited⟩] at hnew
  cases hnew

/-- Taking up a module makes good for announcing it. -/
theorem charge_announced_visit {v : String} {p : Progress} (hnew : p.context.isNew path = true) :
    charge v ⟨p.context.visit path, p.log ++ [.started path]⟩ ≤ charge v p := by
  rw [Context.isNew_iff] at hnew
  unfold charge
  rw [List.count_append, List.count_singleton]
  simp only [Context.mem_visited_visit, beq_iff_eq, Event.started.injEq]
  by_cases hv : path = v
  · subst hv
    rw [if_pos rfl, if_pos (.inr rfl), if_neg hnew.2]
  · rw [if_neg hv]
    split <;> split <;> first | omega | simp_all

/-- **The announced traversal echoes the traversal.** A call that gets past the check is announced,
which is made good for at once: the module is taken up next. -/
theorem echoes_hooked (depth : Nat) (active : List String) (path : String) :
    Echoes (r.resolveWithin depth path) (r.hooked announce (pure []) depth active path) := by
  induction depth generalizing active path with
  | zero => exact echoes_pure []
  | succ depth ih =>
    intro p p' hp
    have hlook := agreeFrom_context_bind p' fun known => do
      if known.isNew (Path.normalize path) then announce (path :: active)
      r.resolvePath (r.hooked announce (pure []) depth (path :: active)) path
    refine EchoFrom.of_eq ?_ (.refl p _) hlook
    rw [hp.context]
    cases hnew : p.context.isNew (Path.normalize path) with
    | false => exact echoFrom_resolvePath_of_not_new hp hnew
    | true =>
      let taken : Progress := ⟨p.context.visit (Path.normalize path), p.log⟩
      let announced : Progress := ⟨p'.context, p'.log ++ [.started (Path.normalize path)]⟩
      let taken' : Progress := ⟨p'.context.visit (Path.normalize path), announced.log⟩
      have hnew' : announced.context.isNew (Path.normalize path) = true := by rwa [← hp.context] at hnew
      have hheard : taken.Heard taken' := by
        refine ⟨congrArg (Context.visit · _) hp.context, ?_⟩
        rw [List.filter_append, hp.log]
        exact List.append_nil p.log
      obtain ⟨hresult, hheard, hcharge⟩ :=
        echoes_resolveTaken (r := r) (ih (path :: active)) (Path.normalize path) hheard
      have hrun : (r.resolvePath (r.resolveWithin depth) path).run.run p =
          (r.resolveTaken (r.resolveWithin depth) (Path.normalize path)).run.run taken :=
        agreeFrom_resolvePath_of_new hnew
      have hrun' : (r.resolvePath (r.hooked announce (pure []) depth (path :: active)) path).run.run
            announced =
          (r.resolveTaken (r.hooked announce (pure []) depth (path :: active))
            (Path.normalize path)).run.run taken' :=
        agreeFrom_resolvePath_of_new hnew'
      rw [← hrun'] at hresult hheard hcharge
      rw [← hrun] at hresult hheard
      exact ⟨hresult, hheard, fun v => (hcharge v).trans (charge_announced_visit hnew')⟩

/-- So does the answer to a question. -/
theorem echoes_query (r : Resolver) (query : Query) :
    Echoes (query.answer r) (query.hooked r announce (pure []) r.depth) := by
  cases query with
  | file path => exact echoes_hooked r.depth [] path
  | source content path =>
    exact (echoes_updateContext fun c v hv => Context.mem_visited_visit.2 (.inl hv)).bind fun _ =>
      echoes_resolveContent (echoes_hooked r.depth [path]) _ content

/-- What is left by one question after another that share a context. The modules may change between
them. -/
def sharing (calls : List (Resolver × Query)) (p : Progress) : Progress :=
  calls.foldl (fun p call => ((call.2.answer call.1).run.run p).2) p

/-- The same, with announcements. -/
def sharingAnnounced (calls : List (Resolver × Query)) (p : Progress) : Progress :=
  calls.foldl (fun p call =>
    ((call.2.hooked call.1 announce (pure []) call.1.depth).run.run p).2) p

/-- Any number of questions. -/
theorem heard_sharing (calls : List (Resolver × Query)) {p p' : Progress} (hp : p.Heard p') :
    (sharing calls p).Heard (sharingAnnounced calls p') ∧
      ∀ path, charge path (sharingAnnounced calls p') ≤ charge path p' := by
  induction calls generalizing p p' with
  | nil => exact ⟨hp, fun _ => le_rfl⟩
  | cons call calls ih =>
    have hcall := echoes_query call.1 call.2 hp
    obtain ⟨hheard, hcharge⟩ := ih hcall.heard
    exact ⟨hheard, fun path => (hcharge path).trans (hcall.charged path)⟩

end Resolver

-- A ring, asked for in three spellings: each of its modules is announced once.
example : (Resolver.sharingAnnounced
    (["/p/a.ts", "/p/./b.ts", "/p/q/../a.ts"].map fun path =>
      (⟨ringFiles.files, false⟩, .file path)) {}).log.filter (·.isAnnouncement) =
    [.started "/p/a.ts", .started "/p/b.ts"] := by
  decide +kernel

/-- **Resolution ends on every graph.** The recursion of the resolver, which nothing bounds, has exactly
one solution, and `resolveFile` is it. The traversal may be unrolled to any greater depth: no call ever
arrives below, and no alarm is raised about the calls that are active at one time, which are for paths of
different normal spellings, all but the outermost of them paths of modules. And however many questions
share a context, and whatever becomes of the modules in the meantime: where the calls that begin to
compute the entries of a module are announced, and nothing else is changed, each module is announced at
most once, and not at all if it was taken up before. -/
theorem resolution_ends (r : Resolver) :
    (∀ f : String → Resolving (List Entry),
      (∀ path, f path = r.resolvePath f path) ↔ f = r.resolveFile) ∧
    (∀ alarm deeper extra query,
      Query.hooked r (r.watch alarm) deeper (r.depth + extra) query = query.answer r) ∧
    ∀ calls c, (Resolver.sharing calls ⟨c, []⟩).Heard (Resolver.sharingAnnounced calls ⟨c, []⟩) ∧
      ∀ path, (Resolver.sharingAnnounced calls ⟨c, []⟩).log.count (.started path) ≤
        if path ∈ c.visited then 0 else 1 := by
  refine ⟨fun _ => Resolver.eq_resolveFile_iff,
    fun alarm deeper extra query =>
      Resolver.hooked_watch r alarm deeper (Nat.le_add_right r.depth extra) query,
    fun calls c => ?_⟩
  obtain ⟨hheard, hcharge⟩ := Resolver.heard_sharing calls (p := ⟨c, []⟩) ⟨rfl, rfl⟩
  refine ⟨hheard, fun path => (Nat.le_add_right _ _).trans ((hcharge path).trans ?_)⟩
  exact (Nat.zero_add _).le

end Reexport
