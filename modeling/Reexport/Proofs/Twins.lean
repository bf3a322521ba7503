import Reexport.Proofs.Contexts

/-!
# Modules under other paths

Two places may hold the same modules under different paths. They are `Twins` if paths can be paired so
that a pair leads to the same text, that a specifier in the module of a pair leads to a pair again, and
that nothing else that is read off a path tells the two apart. The resolver then does the same in both
places: by an induction on the depth of calls, two runs side by side keep their contexts alike, pair by
pair.

## What is proved

* `Twins.tracks_resolveWithin` — calls of any depth do the same for paths that are paired.
* `Twins.resolveFile_eq` — so the resolver gives the same for a module in both places.
-/

namespace Reexport

open Resolving

/-- The modules of two places under paths that are paired. -/
structure Twins (files files' : Files) (Pair : String → String → Prop) : Prop where
  /-- No path is in two pairs. -/
  unique : ∀ {path path' other other'}, Pair path path' → Pair other other' →
    (path = other ↔ path' = other')
  normal : ∀ {path path'}, Pair path path' →
    Path.normalize path = path ∧ Path.normalize path' = path'
  read : ∀ {path path'}, Pair path path' → files'.read path' = files.read path
  /-- Where a specifier leads in one place, it leads in the other. -/
  leads : ∀ {path path' content e}, Pair path path' → files.read path = .ok content →
    e ∈ moduleEntries content → e.isRelative = true → Option.Rel Pair
      (locate files moduleExtensions e.source (Path.directory path))
      (locate files' moduleExtensions e.source (Path.directory path'))
  types : ∀ {path path'}, Pair path path' → ∀ specifier,
    isTypesModule specifier path' = isTypesModule specifier path
  markup : ∀ {path path'}, Pair path path' → holdsMarkup path' = holdsMarkup path
  capacity : files'.capacity = files.capacity

/-- The same is known of the modules of two places, pair by pair. -/
structure Context.Alike (Pair : String → String → Prop) (c c' : Context) : Prop where
  visited : ∀ {path path'}, Pair path path' → (path' ∈ c'.visited ↔ path ∈ c.visited)
  recorded : ∀ {path path'}, Pair path path' → c'.recorded? path' = c.recorded? path

namespace Resolving

variable {α β : Type} {Pair : String → String → Prop}

/-- Begun with contexts that are alike, two computations come to one result, be it an interruption,
and leave contexts that are alike. -/
def Tracks (Pair : String → String → Prop) (x y : Resolving α) : Prop :=
  ∀ ⦃p p' : Progress⦄, p.context.Alike Pair p'.context →
    (y.run.run p').1 = (x.run.run p).1 ∧
      (x.run.run p).2.context.Alike Pair (y.run.run p').2.context

theorem tracks_of_quiet {x y : Resolving α} {result : Except Interruption α} (hx : Quiet x result)
    (hy : Quiet y result) : Tracks Pair x y := by
  intro p p' h
  obtain ⟨log, hlog⟩ := hx p
  obtain ⟨log', hlog'⟩ := hy p'
  rw [hlog, hlog']
  exact ⟨rfl, h⟩

theorem tracks_pure (a : α) : Tracks Pair (pure a : Resolving α) (pure a) :=
  tracks_of_quiet (quiet_pure a) (quiet_pure a)

theorem tracks_report (event event' : Event) : Tracks Pair (report event) (report event') :=
  tracks_of_quiet (quiet_report event) (quiet_report event')

/-- What comes after steps that leave the contexts alone need only be alike for what they give. -/
theorem tracks_quiet_bind {x y : Resolving α} {result : Except Interruption α} (hx : Quiet x result)
    (hy : Quiet y result) {f g : α → Resolving β}
    (hf : ∀ a, result = .ok a → Tracks Pair (f a) (g a)) : Tracks Pair (x >>= f) (y >>= g) := by
  intro p p' h
  obtain ⟨log, hlog⟩ := hx p
  obtain ⟨log', hlog'⟩ := hy p'
  rw [ExceptT.run_bind, ExceptT.run_bind, StateT.run_bind, StateT.run_bind, hlog, hlog']
  cases result with
  | error i => exact ⟨rfl, h⟩
  | ok a =>
    have htracks := hf a rfl
    exact @htracks { p with log } { p' with log := log' } h

theorem Tracks.bind {x y : Resolving α} {f g : α → Resolving β} (hx : Tracks Pair x y)
    (hf : ∀ a, Tracks Pair (f a) (g a)) : Tracks Pair (x >>= f) (y >>= g) := by
  intro p p' h
  obtain ⟨hresult, hcontext⟩ := hx h
  rw [ExceptT.run_bind, ExceptT.run_bind, StateT.run_bind, StateT.run_bind]
  cases hrun : x.run.run p with
  | mk result q =>
    cases hrun' : y.run.run p' with
    | mk result' q' =>
      rw [hrun, hrun'] at hresult hcontext
      obtain rfl : result' = result := hresult
      cases result' with
      | error i => exact ⟨rfl, hcontext⟩
      | ok a => exact hf a hcontext

/-- What is known is known in both places. -/
theorem tracks_context_bind {f g : Context → Resolving α}
    (h : ∀ c c' : Context, c.Alike Pair c' → Tracks Pair (f c) (g c')) :
    Tracks Pair (context >>= f) (context >>= g) :=
  fun _ _ hp => h _ _ hp hp

theorem tracks_updateContext {f g : Context → Context}
    (h : ∀ c c' : Context, c.Alike Pair c' → (f c).Alike Pair (g c')) :
    Tracks Pair (updateContext f) (updateContext g) :=
  fun _ _ hp => ⟨rfl, h _ _ hp⟩

end Resolving

namespace Twins

variable {files files' : Files} {Pair : String → String → Prop} {flatten : Bool}
  {path path' : String} {descend descend' : String → Resolving (List Entry)} {entries : List Entry}

/-! ### Contexts -/

theorem alike_visit (h : Twins files files' Pair) (hpair : Pair path path') {c c' : Context}
    (hc : c.Alike Pair c') : (c.visit path).Alike Pair (c'.visit path') where
  visited {other other'} hother := by
    rw [Context.mem_visited_visit, Context.mem_visited_visit, hc.visited hother,
      h.unique hother hpair]
  recorded {other other'} hother := by
    rw [Context.recorded?_visit, Context.recorded?_visit, hc.recorded hother]

theorem alike_record (h : Twins files files' Pair) (hpair : Pair path path') {c c' : Context}
    (hc : c.Alike Pair c') (found : List Entry) :
    (c.record path found).Alike Pair (c'.record path' found) where
  visited {other other'} hother := by
    rw [Context.visited_record, Context.visited_record, hc.visited hother]
  recorded {other other'} hother := by
    rw [Context.recorded?_record, Context.recorded?_record, hc.recorded hother]
    simp only [h.unique hother hpair]

/-! ### Steps -/

/-- A module is read, and what comes after it may use its text. -/
theorem tracks_readModule_bind (h : Twins files files' Pair) (hpair : Pair path path')
    {f g : Option String → Resolving (List Entry)} (hnone : Tracks Pair (f none) (g none))
    (hsome : ∀ content, files.read path = .ok content →
      Tracks Pair (f (some content)) (g (some content))) :
    Tracks Pair (Resolver.readModule ⟨files, flatten⟩ path >>= f)
      (Resolver.readModule ⟨files', flatten⟩ path' >>= g) := by
  have hread : Resolver.readResult files' path' = Resolver.readResult files path := by
    unfold Resolver.readResult
    rw [h.read hpair]
  have hquiet' := Resolver.quiet_readModule ⟨files', flatten⟩ path'
  rw [show Resolver.readResult (Resolver.mk files' flatten).files path' = _ from hread] at hquiet'
  refine tracks_quiet_bind (Resolver.quiet_readModule ⟨files, flatten⟩ path) hquiet' ?_
  intro out hout
  cases out with
  | none => exact hnone
  | some content => exact hsome content (Resolver.readResult_eq_some_iff.1 hout)

/-- What is read off the statements of a module does not depend on where it is. -/
theorem leafResult_eq (h : Twins files files' Pair) (hpair : Pair path path') (e : Entry)
    (content : String) : Resolver.leafResult ⟨files', flatten⟩ e path' content =
      Resolver.leafResult ⟨files, flatten⟩ e path content := by
  have hscan : scan path' content = scan path content := by
    unfold scan
    rw [h.markup hpair]
  unfold Resolver.leafResult Resolver.typesResult Resolver.namesResult
  rw [h.types hpair, hscan]

theorem tracks_leafEntries (h : Twins files files' Pair) (hpair : Pair path path') (e : Entry)
    (content : String) : Tracks Pair (Resolver.leafEntries ⟨files, flatten⟩ e path content)
      (Resolver.leafEntries ⟨files', flatten⟩ e path' content) := by
  refine tracks_of_quiet (Resolver.quiet_leafEntries ⟨files, flatten⟩ e path content) ?_
  rw [← h.leafResult_eq hpair]
  exact Resolver.quiet_leafEntries ⟨files', flatten⟩ e path' content

/-- **One entry.** What takes its place is the same in both places. -/
theorem tracks_resolveEntry (h : Twins files files' Pair)
    (hdescend : ∀ {target target'}, Pair target target' →
      Tracks Pair (descend target) (descend' target'))
    (hpair : Pair path path') {content : String} (hcontent : files.read path = .ok content)
    {e : Entry} (he : e ∈ moduleEntries content) :
    Tracks Pair (Resolver.resolveEntry ⟨files, flatten⟩ descend (Path.directory path) e)
      (Resolver.resolveEntry ⟨files', flatten⟩ descend' (Path.directory path') e) := by
  unfold Resolver.resolveEntry
  by_cases hrelative : e.isRelative = true
  · have hleads := h.leads hpair hcontent he hrelative
    simp only [hrelative, Bool.not_true, Bool.false_eq_true, if_false]
    generalize locate files moduleExtensions e.source (Path.directory path) = found at hleads ⊢
    generalize locate files' moduleExtensions e.source (Path.directory path') = found' at hleads ⊢
    cases hleads with
    | none => exact (tracks_report _ _).bind fun _ => tracks_pure _
    | some htarget =>
      refine h.tracks_readModule_bind htarget (tracks_pure _) fun content _ => ?_
      by_cases hbarrel : isBarrel (moduleEntries content) = true
      · simp only [hbarrel, if_true]
        exact (hdescend htarget).bind fun _ => tracks_pure _
      · simp only [hbarrel]
        exact h.tracks_leafEntries htarget e content
  · simp only [hrelative, Bool.not_false, if_true]
    exact tracks_pure _

theorem tracks_resolveAll (hentries : ∀ e ∈ entries,
      Tracks Pair (Resolver.resolveEntry ⟨files, flatten⟩ descend (Path.directory path) e)
        (Resolver.resolveEntry ⟨files', flatten⟩ descend' (Path.directory path') e))
    (found : List Entry) :
    Tracks Pair (Resolver.resolveAll ⟨files, flatten⟩ descend (Path.directory path) found entries)
      (Resolver.resolveAll ⟨files', flatten⟩ descend' (Path.directory path') found entries) := by
  induction entries generalizing found with
  | nil => exact tracks_pure found
  | cons e entries ih =>
    rw [List.forall_mem_cons] at hentries
    exact hentries.1.bind fun new => ih hentries.2 _

/-- **One call** does the same in both places, if the calls that it makes do. -/
theorem tracks_resolvePath (h : Twins files files' Pair)
    (hdescend : ∀ {target target'}, Pair target target' →
      Tracks Pair (descend target) (descend' target'))
    (hpair : Pair path path') : Tracks Pair (Resolver.resolvePath ⟨files, flatten⟩ descend path)
      (Resolver.resolvePath ⟨files', flatten⟩ descend' path') := by
  unfold Resolver.resolvePath
  obtain ⟨hnormal, hnormal'⟩ := h.normal hpair
  rw [hnormal, hnormal']
  refine tracks_context_bind fun c c' hc => ?_
  rw [hc.recorded hpair]
  cases c.recorded? path with
  | some entries => exact tracks_pure entries
  | none =>
    simp only [hc.visited hpair]
    by_cases hvisited : path ∈ c.visited
    · simp only [hvisited, if_true]
      exact (tracks_report _ _).bind fun _ => tracks_pure _
    · simp only [hvisited, if_false]
      refine (tracks_updateContext fun _ _ hc => h.alike_visit hpair hc).bind fun _ => ?_
      refine h.tracks_readModule_bind hpair (tracks_pure _) fun content hcontent => ?_
      have hentries : ∀ e ∈ moduleEntries content,
          Tracks Pair (Resolver.resolveEntry ⟨files, flatten⟩ descend (Path.directory path) e)
            (Resolver.resolveEntry ⟨files', flatten⟩ descend' (Path.directory path') e) :=
        fun e he => h.tracks_resolveEntry hdescend hpair hcontent he
      have hall := tracks_resolveAll hentries []
      have hfound := hall.bind fun found => (tracks_report (.moduleResolved path
        (moduleEntries content).length found.length) (.moduleResolved path'
          (moduleEntries content).length found.length)).bind fun _ => tracks_pure found
      refine hfound.bind fun found => ?_
      exact (tracks_updateContext fun _ _ hc => h.alike_record hpair hc found).bind fun _ =>
        tracks_pure _

/-- **Calls of any depth** do the same in both places. -/
theorem tracks_resolveWithin (h : Twins files files' Pair) (depth : Nat) (hpair : Pair path path') :
    Tracks Pair (Resolver.resolveWithin ⟨files, flatten⟩ depth path)
      (Resolver.resolveWithin ⟨files', flatten⟩ depth path') := by
  induction depth generalizing path path' with
  | zero => exact tracks_pure []
  | succ depth ih => exact h.tracks_resolvePath ih hpair

/-- **The resolver does the same in both places**, and is interrupted in one if it is in the other. -/
theorem resolveFile_eq (h : Twins files files' Pair) (hpair : Pair path path') (log log' : List Event) :
    ((Resolver.resolveFile ⟨files', flatten⟩ path').run.run ⟨{}, log'⟩).1 =
      ((Resolver.resolveFile ⟨files, flatten⟩ path).run.run ⟨{}, log⟩).1 := by
  have hdepth : Resolver.depth ⟨files', flatten⟩ = Resolver.depth ⟨files, flatten⟩ :=
    congrArg (· + 2) h.capacity
  unfold Resolver.resolveFile
  rw [hdepth]
  refine (h.tracks_resolveWithin _ hpair ?_).1
  exact ⟨fun _ => iff_of_false List.not_mem_nil List.not_mem_nil, fun _ => rfl⟩

end Twins

end Reexport
