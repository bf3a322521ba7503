import Reexport.Proofs.Replacement
import Reexport.Proofs.Tables

/-!
# What is known of modules only grows

Calls of the resolver share a context, and each call changes it at every level of its recursion. All
that a call can do to it is to take up further modules and to record lists for these: `Context.Grows`
says so of the contexts before and after. It holds of every computation that follows re-exports,
whether it ends or is interrupted, so a computation is `Growing` if its steps are.

A step that records a list is the exception. It is growing only together with the step before it that
takes the module up, for a module that was taken up earlier must keep what it has.

## What is proved

* `growing_resolveWithin` — a call of any depth makes the context grow, whatever is below it.
* `resolveFile_again` — a second call for a module gives the list of the first one and leaves the
  context alone, even if the modules have changed in the meantime.
* `session_context` — what these facts come to in a session, that is, after any number of calls that
  begin with an empty context.
-/

namespace Reexport

open Resolving

/-! ### Taking up and recording -/

namespace Context

variable {c c' : Context} {path v : String}

theorem mem_visited_visit : v ∈ (c.visit path).visited ↔ v ∈ c.visited ∨ v = path := by
  unfold visit
  split
  · rename_i hpath
    constructor
    · exact .inl
    · rintro (h | rfl)
      · exact h
      · exact hpath
  · simp

theorem resolved_visit (c : Context) (path : String) : (c.visit path).resolved = c.resolved := by
  unfold visit
  split <;> rfl

theorem visited_record (c : Context) (path : String) (entries : List Entry) :
    (c.record path entries).visited = c.visited := by
  unfold record
  split <;> rfl

theorem recorded?_visit (c : Context) (path v : String) :
    (c.visit path).recorded? v = c.recorded? v := by
  rw [recorded?, resolved_visit]
  rfl

/-- Recording a list changes the record of one module only. -/
theorem recorded?_record (c : Context) (path : String) (entries : List Entry) (v : String) :
    (c.record path entries).recorded? v = if v = path then some entries else c.recorded? v := by
  rw [recorded?, recorded?, ← lookup_put c.resolved path entries v]
  unfold record
  split <;> rfl

theorem fst_of_mem_resolved_record {entries : List Entry} {k : String × List Entry}
    (h : k ∈ (c.record path entries).resolved) : k.1 = path ∨ k ∈ c.resolved := by
  unfold record at h
  split at h
  · obtain ⟨old, hold, heq⟩ := List.mem_map.1 h
    split at heq
    · exact .inl (heq ▸ rfl)
    · exact .inr (heq ▸ hold)
  · rcases List.mem_append.1 h with h | h
    · exact .inr h
    · exact .inl (List.mem_singleton.1 h ▸ rfl)

/-- A module with a recorded list is among those that are recorded. -/
theorem mem_keys_iff : v ∈ c.resolved.map Prod.fst ↔ ∃ found, c.recorded? v = some found := by
  rw [← Option.isSome_iff_exists, recorded?, List.mem_map]
  constructor
  · rintro ⟨k, hk, rfl⟩
    rw [Option.isSome_iff_ne_none]
    intro hnone
    have hne := List.lookup_eq_none_iff.1 hnone k hk
    simp at hne
  · intro h
    obtain ⟨found, hfound⟩ := Option.isSome_iff_exists.1 h
    obtain ⟨before, after, heq, -⟩ := List.lookup_eq_some_iff.1 hfound
    exact ⟨(v, found), by simp [heq], rfl⟩

/-! ### Growing contexts -/

/-- What computations that follow re-exports do to a context. -/
structure Grows (c c' : Context) : Prop where
  /-- No module is forgotten. -/
  visited : ∀ v ∈ c.visited, v ∈ c'.visited
  /-- A module that was taken up before keeps its list, and gets none if it has none. -/
  kept : ∀ v ∈ c.visited, c'.recorded? v = c.recorded? v
  /-- Only modules that were taken up are recorded. -/
  recorded : (∀ known ∈ c.resolved, known.1 ∈ c.visited) →
    ∀ known ∈ c'.resolved, known.1 ∈ c'.visited
  /-- Modules are taken up under their normal paths. -/
  normal : (∀ v ∈ c.visited, Path.normalize v = v) → ∀ v ∈ c'.visited, Path.normalize v = v

namespace Grows

theorem refl (c : Context) : c.Grows c :=
  ⟨fun _ h => h, fun _ _ => rfl, id, id⟩

theorem trans {c'' : Context} (h : c.Grows c') (h' : c'.Grows c'') : c.Grows c'' where
  visited v hv := h'.visited v (h.visited v hv)
  kept v hv := (h'.kept v (h.visited v hv)).trans (h.kept v hv)
  recorded hc := h'.recorded (h.recorded hc)
  normal hc := h'.normal (h.normal hc)

theorem visit (c : Context) (hpath : Path.normalize path = path) : c.Grows (c.visit path) where
  visited v hv := mem_visited_visit.2 (.inl hv)
  kept v _ := recorded?_visit c path v
  recorded hc known hk := by
    rw [resolved_visit] at hk
    exact mem_visited_visit.2 (.inl (hc known hk))
  normal hc v hv := by
    rcases mem_visited_visit.1 hv with hv | rfl
    · exact hc v hv
    · exact hpath

/-- A module that is taken up, with all that follows, and recorded. -/
theorem record (h : (c.visit path).Grows c') (hpath : Path.normalize path = path)
    (hnew : path ∉ c.visited) (found : List Entry) : c.Grows (c'.record path found) where
  visited v hv := by
    rw [visited_record]
    exact h.visited v (mem_visited_visit.2 (.inl hv))
  kept v hv := by
    have hne : v ≠ path := fun heq => hnew (heq ▸ hv)
    rw [recorded?_record, if_neg hne]
    exact ((visit c hpath).trans h).kept v hv
  recorded hc known hk := by
    rw [visited_record]
    rcases fst_of_mem_resolved_record hk with heq | hk
    · exact h.visited _ (mem_visited_visit.2 (.inr heq))
    · exact ((visit c hpath).trans h).recorded hc known hk
  normal hc v hv := by
    rw [visited_record] at hv
    exact ((visit c hpath).trans h).normal hc v hv

/-- What is recorded stays recorded. -/
theorem recorded?_eq_some (h : c.Grows c') (hc : ∀ known ∈ c.resolved, known.1 ∈ c.visited)
    {found : List Entry} (hv : c.recorded? v = some found) : c'.recorded? v = some found := by
  obtain ⟨known, hk, rfl⟩ := List.mem_map.1 (mem_keys_iff.2 ⟨found, hv⟩)
  rw [h.kept _ (hc known hk), hv]

end Grows

end Context

/-! ### Computations that let the context grow -/

namespace Resolving

variable {α β : Type} {R : Context → Prop} {p : Progress}

/-- Begun with `p`, the computation leaves a context with the property, also if it is interrupted. -/
def Leaves (R : Context → Prop) (x : Resolving α) (p : Progress) : Prop :=
  R (x.run.run p).2.context

theorem leaves_pure (a : α) (hp : R p.context) : Leaves R (pure a) p := hp

theorem leaves_updateContext {f : Context → Context} (hp : R (f p.context)) :
    Leaves R (updateContext f) p := hp

theorem Leaves.bind {x : Resolving α} {f : α → Resolving β} (hx : Leaves R x p)
    (hf : ∀ a o, Yields x p a o → Leaves R (f a) o) : Leaves R (x >>= f) p := by
  unfold Leaves at hx hf ⊢
  rw [ExceptT.run_bind, StateT.run_bind]
  cases hrun : x.run.run p with
  | mk result o =>
    rw [hrun] at hx
    cases result with
    | ok a => exact hf a o hrun
    | error i => exact hx

/-- The computation lets the context grow, from whatever progress. -/
def Growing (x : Resolving α) : Prop :=
  ∀ p : Progress, Leaves p.context.Grows x p

theorem Quiet.growing {x : Resolving α} {result : Except Interruption α} (hx : Quiet x result) :
    Growing x := by
  intro p
  obtain ⟨log, hlog⟩ := hx p
  unfold Leaves
  rw [hlog]
  exact .refl p.context

theorem growing_pure (a : α) : Growing (pure a) := (quiet_pure a).growing

theorem growing_report (event : Event) : Growing (report event) := (quiet_report event).growing

theorem Growing.yields {x : Resolving α} (hx : Growing x) {a : α} {q : Progress}
    (h : Yields x p a q) : p.context.Grows q.context := by
  have hgrows := hx p
  unfold Leaves at hgrows
  rwa [h] at hgrows

/-- What grows from a context that has grown has grown from the one before. -/
theorem Growing.leaves {x : Resolving α} (hx : Growing x) {c : Context} (hp : c.Grows p.context) :
    Leaves c.Grows x p :=
  hp.trans (hx p)

theorem Growing.bind {x : Resolving α} {f : α → Resolving β} (hx : Growing x)
    (hf : ∀ a, Growing (f a)) : Growing (x >>= f) :=
  fun p => (hx p).bind fun a _ h => (hf a).leaves (hx.yields h)

end Resolving

namespace Resolver

variable {r : Resolver} {descend : String → Resolving (List Entry)} {path : String}
  {p q : Progress}

/-- One entry. -/
theorem growing_resolveEntry (hdescend : ∀ target, Growing (descend target)) (directory : String)
    (e : Entry) : Growing (r.resolveEntry descend directory e) := by
  unfold resolveEntry
  split
  · exact growing_pure _
  split
  · exact (growing_report _).bind fun _ => growing_pure _
  rename_i target _
  refine (quiet_readModule r target).growing.bind fun out => ?_
  split
  · exact growing_pure _
  · rename_i content
    split
    · exact (hdescend target).bind fun _ => growing_pure _
    · exact (quiet_leafEntries r e target content).growing

theorem growing_resolveAll (hdescend : ∀ target, Growing (descend target)) (directory : String)
    (found entries : List Entry) : Growing (r.resolveAll descend directory found entries) := by
  induction entries generalizing found with
  | nil => exact growing_pure found
  | cons e entries ih =>
    exact (growing_resolveEntry hdescend directory e).bind fun new => ih _

theorem growing_resolveContent (hdescend : ∀ target, Growing (descend target))
    (path content : String) : Growing (r.resolveContent descend path content) :=
  (growing_resolveAll hdescend _ _ _).bind fun _ =>
    (growing_report _).bind fun _ => growing_pure _

/-- One call, if the calls below it let the context grow. -/
theorem growing_resolvePath (hdescend : ∀ target, Growing (descend target)) (path : String) :
    Growing (r.resolvePath descend path) := by
  intro p
  have hpath := Path.normalize_normalize path
  unfold resolvePath
  refine Leaves.bind (Context.Grows.refl p.context) fun known o hknown => ?_
  obtain ⟨rfl, rfl⟩ := yields_context_iff.1 hknown
  split
  · exact growing_pure _ o
  split
  · exact ((growing_report _).bind fun _ => growing_pure _) o
  rename_i hnew
  have hvisit := Context.Grows.visit o.context hpath
  refine (leaves_updateContext hvisit).bind fun _ o₁ ho₁ => ?_
  have ho₁ : o₁.context = o.context.visit (Path.normalize path) := by
    rw [yields_updateContext_iff.1 ho₁]
  have hread := quiet_readModule r (Path.normalize path)
  refine (hread.growing.leaves (ho₁ ▸ hvisit)).bind fun out o₂ hout => ?_
  have ho₂ : o₂.context = o.context.visit (Path.normalize path) := (hread.yields hout).2.trans ho₁
  split
  · exact leaves_pure _ (ho₂ ▸ hvisit)
  · rename_i content
    have hcontent := growing_resolveContent (r := r) hdescend (Path.normalize path) content
    refine (hcontent.leaves (ho₂ ▸ hvisit)).bind fun entries o₃ hentries => ?_
    -- Recording is no growth by itself; here the module was taken up on the way.
    have hrecord := (ho₂ ▸ hcontent.yields hentries).record hpath hnew entries
    refine (leaves_updateContext hrecord).bind fun _ o₄ ho₄ => leaves_pure _ ?_
    rw [yields_updateContext_iff.1 ho₄]
    exact hrecord

/-- **The context grows**, however deep a call goes, and however it ends. -/
theorem growing_resolveWithin (r : Resolver) (depth : Nat) (path : String) :
    Growing (r.resolveWithin depth path) := by
  induction depth generalizing path with
  | zero => exact growing_pure []
  | succ depth ih => exact growing_resolvePath ih path

theorem growing_resolveFile (r : Resolver) (path : String) : Growing (r.resolveFile path) :=
  growing_resolveWithin r r.depth path

theorem growing_resolveSource (r : Resolver) (content path : String) :
    Growing (r.resolveSource content path) := by
  intro p
  have hvisit := Context.Grows.visit p.context (Path.normalize_normalize path)
  refine (leaves_updateContext hvisit).bind fun _ o ho => ?_
  rw [yields_updateContext_iff] at ho
  refine (growing_resolveContent (growing_resolveWithin r r.depth) _ content).leaves ?_
  rw [ho]
  exact hvisit

/-! ### Calls made again -/

/-- What a call has left for a module: its list, or no list where the call gave nothing. -/
theorem recorded?_of_resolveFile {found : List Entry} (h : Yields (r.resolveFile path) p found q) :
    q.context.recorded? (Path.normalize path) = some found ∨
      q.context.recorded? (Path.normalize path) = none ∧
        Path.normalize path ∈ q.context.visited ∧ found = [] := by
  cases resolveWithin_call h with
  | recorded hrec => exact .inl hrec
  | cycle hnew hvisited hq =>
    rw [hq]
    exact .inr ⟨hnew, hvisited, rfl⟩
  | unreadable hnew _ _ hq =>
    rw [hq, Context.recorded?_visit]
    exact .inr ⟨hnew, Context.mem_visited_visit.2 (.inr rfl), rfl⟩
  | resolved _ _ _ _ _ hq =>
    rw [hq, Context.recorded?_record, if_pos rfl]
    exact .inl rfl

/-- **A call made again gives the same list** and leaves the context alone. What the modules are by
then plays no part. -/
theorem resolveFile_again {found : List Entry} (h : Yields (r.resolveFile path) p found q)
    (r' : Resolver) : ∃ q', Yields (r'.resolveFile path) q found q' ∧ q'.context = q.context := by
  show ∃ q', Yields (r'.resolvePath _ path) q found q' ∧ q'.context = q.context
  unfold resolvePath
  have hcontext : Yields context q q.context q := yields_context_iff.2 ⟨rfl, rfl⟩
  rcases recorded?_of_resolveFile h with hrec | ⟨hnone, hvisited, rfl⟩
  · refine ⟨q, yields_bind_iff.2 ⟨q.context, q, hcontext, ?_⟩, rfl⟩
    simp only [hrec]
    exact yields_pure_iff.2 ⟨rfl, rfl⟩
  · obtain ⟨q', hreport, hq'⟩ :=
      (quiet_report (.cycleSkipped (Path.normalize path))).exists_yields q
    refine ⟨q', yields_bind_iff.2 ⟨q.context, q, hcontext, ?_⟩, hq'⟩
    simp only [hnone, if_pos hvisited]
    exact yields_bind_iff.2 ⟨(), q', hreport, yields_pure_iff.2 ⟨rfl, rfl⟩⟩

end Resolver

/-! ### Sessions -/

/-- A question to a resolver. -/
inductive Query where
  /-- What a module passes on. -/
  | file (path : String)
  /-- What a module passes on whose text is at hand. -/
  | source (content path : String)

/-- The answer to a question. -/
def Query.answer (r : Resolver) : Query → Resolving (List Entry)
  | file path => r.resolveFile path
  | source content path => r.resolveSource content path

theorem Query.growing_answer (r : Resolver) (query : Query) : Growing (query.answer r) := by
  cases query with
  | file path => exact r.growing_resolveFile path
  | source content path => exact r.growing_resolveSource content path

/-- What is left by one question after another, the first of them asked with an empty context. The
modules may change between them. A question whose answer is interrupted leaves what it had come to. -/
def session (calls : List (Resolver × Query)) : Progress :=
  calls.foldl (fun p call => ((call.2.answer call.1).run.run p).2) {}

/-- More questions let the context grow. -/
theorem grows_session (calls more : List (Resolver × Query)) :
    (session calls).context.Grows (session (calls ++ more)).context := by
  have hrun (p : Progress) : p.context.Grows
      (more.foldl (fun p call => ((call.2.answer call.1).run.run p).2) p).context := by
    induction more generalizing p with
    | nil => exact .refl p.context
    | cons call more ih => exact (call.2.growing_answer call.1 p).trans (ih _)
  unfold session
  rw [List.foldl_append]
  exact hrun _

/-- **The context through a session.** At every point of it, only modules that were taken up are
recorded, and all under their normal paths. Whatever is asked later, no module is forgotten, and no
recorded list is changed or lost. When a module is asked for twice in a row, the second answer is the
first one, also an empty one, and the context stays as it is, even if the modules have changed in
between. -/
theorem session_context (calls : List (Resolver × Query)) :
    (∀ known ∈ (session calls).context.resolved, known.1 ∈ (session calls).context.visited) ∧
    (∀ v ∈ (session calls).context.visited, Path.normalize v = v) ∧
    (∀ more, (∀ v ∈ (session calls).context.visited,
        v ∈ (session (calls ++ more)).context.visited) ∧
      ∀ v found, (session calls).context.recorded? v = some found →
        (session (calls ++ more)).context.recorded? v = some found) ∧
    ∀ r path found q, Yields (Resolver.resolveFile r path) (session calls) found q →
      ∀ r', ∃ q', Yields (Resolver.resolveFile r' path) q found q' ∧ q'.context = q.context := by
  have hall := grows_session [] calls
  have hrecorded := hall.recorded nofun
  refine ⟨hrecorded, hall.normal nofun, fun more => ?_, fun r path found q h r' => ?_⟩
  · have hgrows := grows_session calls more
    exact ⟨hgrows.visited, fun v found hv => hgrows.recorded?_eq_some hrecorded hv⟩
  · exact Resolver.resolveFile_again h r'

/-- Two barrels that pass on one another. -/
def ringFiles : MemoryFiles :=
  .ofList [("/p/a.ts", "export * from \"./b\";"), ("/p/b.ts", "export * from \"./a\";")]

/-- A module whose text is at hand, one that is missing, and a ring. -/
def ringCalls : List (Resolver × Query) :=
  [(⟨ringFiles.files, false⟩, .source "export * from \"./a\";" "/p/x.ts"),
    (⟨ringFiles.files, false⟩, .file "/p/gone.ts"), (⟨ringFiles.files, true⟩, .file "/p/b.ts")]

/-- Neither a module that was never finished nor a missing one gives anything later on. -/
theorem session_context_ring :
    (∀ known ∈ (session ringCalls).context.resolved,
      known.1 ∈ (session ringCalls).context.visited) ∧
    (∀ path ∈ ["/p/x.ts", "/p/gone.ts"],
      ∃ q, Yields (Resolver.resolveFile ⟨ringFiles.files, false⟩ path) (session ringCalls) [] q ∧
        ∀ r', ∃ q', Yields (Resolver.resolveFile r' path) q [] q' ∧ q'.context = q.context) := by
  obtain ⟨hrecorded, -, -, hagain⟩ := session_context ringCalls
  have hrun : ∀ path ∈ ["/p/x.ts", "/p/gone.ts"],
      ((Resolver.resolveFile ⟨ringFiles.files, false⟩ path).run.run (session ringCalls)).1 =
        .ok [] := by
    decide +kernel
  refine ⟨hrecorded, fun path hpath => ?_⟩
  obtain ⟨q, hq⟩ := exists_yields_of_run (hrun path hpath)
  exact ⟨q, hq, hagain _ path [] q hq⟩

end Reexport
