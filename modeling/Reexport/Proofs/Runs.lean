import Reexport.Resolve
import Mathlib.Data.List.Forall2

/-!
# Runs of the resolver

`Yields x p a q` says that the computation `x`, begun with the state `p`, gives `a` and leaves the
state `q`. A run of a sequence of steps is taken apart into the runs of the steps
(`yields_bind_iff`). Many computations neither look at the context nor change it: `Quiet x result`
says that `x` does so and ends, from whatever progress, with `result`. The events that are reported
play no part in what follows.
-/

namespace Reexport

section Forall₂

variable {α β : Type} {R : α → β → Prop} {xs : List α} {ys : List β}

theorem exists_of_mem_right (h : List.Forall₂ R xs ys) {y : β} (hy : y ∈ ys) :
    ∃ x ∈ xs, R x y := by
  induction h with
  | nil => cases hy
  | cons hR _ ih =>
    rcases List.mem_cons.1 hy with rfl | hy
    · exact ⟨_, List.mem_cons_self, hR⟩
    · obtain ⟨x, hx, hR⟩ := ih hy
      exact ⟨x, List.mem_cons_of_mem _ hx, hR⟩

theorem exists_of_mem_left (h : List.Forall₂ R xs ys) {x : α} (hx : x ∈ xs) :
    ∃ y ∈ ys, R x y := by
  obtain ⟨y, hy, hR⟩ := exists_of_mem_right h.flip hx
  exact ⟨y, hy, hR⟩

/-- What is related to the first of two lists, and what to the second. -/
theorem exists_append_of_forall₂ {left right : List α} (h : List.Forall₂ R (left ++ right) ys) :
    ∃ ys₁ ys₂, ys = ys₁ ++ ys₂ ∧ List.Forall₂ R left ys₁ ∧ List.Forall₂ R right ys₂ := by
  induction left generalizing ys with
  | nil => exact ⟨[], ys, rfl, .nil, h⟩
  | cons x left ih =>
    obtain ⟨y, ys, hy, hys, rfl⟩ := List.forall₂_cons_left_iff.1 h
    obtain ⟨ys₁, ys₂, rfl, hleft, hright⟩ := ih hys
    exact ⟨y :: ys₁, ys₂, rfl, .cons hy hleft, hright⟩

/-- A list related to one with an item in it has the item's partner in the same place. -/
theorem exists_split_of_forall₂ {before after : List α} {x : α}
    (h : List.Forall₂ R (before ++ x :: after) ys) : ∃ ys₁ y ys₂, ys = ys₁ ++ y :: ys₂ ∧
      List.Forall₂ R before ys₁ ∧ R x y ∧ List.Forall₂ R after ys₂ := by
  obtain ⟨ys₁, ys, rfl, hbefore, h⟩ := exists_append_of_forall₂ h
  obtain ⟨y, ys₂, hR, hafter, rfl⟩ := List.forall₂_cons_left_iff.1 h
  exact ⟨ys₁, y, ys₂, rfl, hbefore, hR, hafter⟩

/-- Related to a list by relations that agree, two lists are one. -/
theorem eq_of_forall₂ {R' : α → β → Prop} {zs : List β} (h : List.Forall₂ R xs ys)
    (h' : List.Forall₂ R' xs zs) (hR : ∀ x y z, R x y → R' x z → z = y) : zs = ys := by
  induction h generalizing zs with
  | nil => exact List.forall₂_nil_left_iff.1 h'
  | cons hxy _ ih =>
    obtain ⟨z, zs, hxz, hzs, rfl⟩ := List.forall₂_cons_left_iff.1 h'
    rw [hR _ _ _ hxy hxz, ih hzs]

theorem forall₂_imp_of_mem {R' : α → β → Prop} (h : List.Forall₂ R xs ys)
    (hR : ∀ x ∈ xs, ∀ y, R x y → R' x y) : List.Forall₂ R' xs ys := by
  induction h with
  | nil => exact .nil
  | cons hxy _ ih =>
    rw [List.forall_mem_cons] at hR
    exact .cons (hR.1 _ hxy) (ih hR.2)

end Forall₂

/-! ### Results -/

section Results

variable {ε ε' α β : Type}

theorem bind_eq_ok_iff {x : Except ε α} {f : α → Except ε β} {b : β} :
    (x >>= f) = .ok b ↔ ∃ a, x = .ok a ∧ f a = .ok b := by
  cases x <;> simp [bind, Except.bind]

theorem mapError_eq_ok_iff {x : Except ε α} {f : ε → ε'} {a : α} :
    x.mapError f = .ok a ↔ x = .ok a := by
  cases x <;> simp [Except.mapError]

/-- What is computed for the items of a list, one after another. -/
theorem mapM_eq_ok_iff {f : α → Except ε β} {xs : List α} {ys : List β} :
    xs.mapM f = .ok ys ↔ List.Forall₂ (fun x y => f x = .ok y) xs ys := by
  induction xs generalizing ys with
  | nil =>
    rw [List.mapM_nil, List.forall₂_nil_left_iff, eq_comm (a := ys)]
    exact ⟨Except.ok.inj, congrArg Except.ok⟩
  | cons x xs ih =>
    rw [List.mapM_cons, bind_eq_ok_iff, List.forall₂_cons_left_iff]
    constructor
    · rintro ⟨y, hy, h⟩
      obtain ⟨zs, hzs, h⟩ := bind_eq_ok_iff.1 h
      exact ⟨y, zs, hy, ih.1 hzs, (Except.ok.inj h).symm⟩
    · rintro ⟨y, zs, hy, hzs, rfl⟩
      exact ⟨y, hy, bind_eq_ok_iff.2 ⟨zs, ih.2 hzs, rfl⟩⟩

end Results

/-! ### Runs -/

section Runs

variable {ε σ α β : Type} {p q : σ}

/-- Begun with `p`, the computation gives `a` and leaves `q`. -/
def Yields (x : ExceptT ε (StateM σ) α) (p : σ) (a : α) (q : σ) : Prop :=
  x.run.run p = (.ok a, q)

theorem exists_yields_of_run {x : ExceptT ε (StateM σ) α} {a : α}
    (h : (x.run.run p).1 = .ok a) : ∃ q, Yields x p a q :=
  ⟨(x.run.run p).2, Prod.ext h rfl⟩

theorem exists_yields_of_isOk {x : ExceptT ε (StateM σ) α} (h : (x.run.run p).1.isOk = true) :
    ∃ a, Yields x p a (x.run.run p).2 := by
  cases hrun : x.run.run p with
  | mk result q =>
    rw [hrun] at h
    cases result with
    | ok a => exact ⟨a, hrun⟩
    | error i => cases h

theorem exists_yields_of_map {x : ExceptT ε (StateM σ) α} {f : α → β} {b : β}
    (h : (x.run.run p).1.map f = .ok b) : ∃ a q, Yields x p a q ∧ f a = b := by
  cases hrun : x.run.run p with
  | mk result q =>
    rw [hrun] at h
    cases result with
    | ok a => exact ⟨a, q, hrun, Except.ok.inj h⟩
    | error i => cases h

/-- A run has one outcome. -/
theorem Yields.unique {x : ExceptT ε (StateM σ) α} {a b : α} {q' : σ} (h : Yields x p a q)
    (h' : Yields x p b q') : a = b ∧ q = q' := by
  rw [Yields, h, Prod.mk.injEq, Except.ok.injEq] at h'
  exact h'

theorem yields_pure_iff {a b : α} :
    Yields (pure a : ExceptT ε (StateM σ) α) p b q ↔ b = a ∧ q = p := by
  constructor
  · intro h
    cases h
    exact ⟨rfl, rfl⟩
  · rintro ⟨rfl, rfl⟩
    rfl

/-- The second of two steps begins where the first one ends, unless that is interrupted. -/
theorem run_bind (x : ExceptT ε (StateM σ) α) (f : α → ExceptT ε (StateM σ) β) (p : σ) :
    (x >>= f).run.run p = match x.run.run p with
      | (.ok a, o) => (f a).run.run o
      | (.error i, o) => (.error i, o) := by
  rw [ExceptT.run_bind, StateT.run_bind]
  rcases x.run.run p with ⟨i | a, o⟩ <;> rfl

/-- A run of two steps is a run of the first, and from where it ends one of the second. -/
theorem yields_bind_iff {x : ExceptT ε (StateM σ) α} {f : α → ExceptT ε (StateM σ) β} {b : β} :
    Yields (x >>= f) p b q ↔ ∃ a o, Yields x p a o ∧ Yields (f a) o b q := by
  unfold Yields
  rw [run_bind]
  constructor
  · intro h
    cases hx : x.run.run p with
    | mk result o =>
      rw [hx] at h
      cases result with
      | ok a => exact ⟨a, o, rfl, h⟩
      | error i => cases h
  · rintro ⟨a, o, hx, hf⟩
    rw [hx]
    exact hf

/-- A run over a list: what every step keeps holds in the end, and each item has what its step
gives. -/
theorem yields_mapM (Inv : σ → Prop) {R : α → β → Prop} {f : α → ExceptT ε (StateM σ) β} {xs : List α}
    (step : ∀ x ∈ xs, ∀ {p b q}, Inv p → Yields (f x) p b q → Inv q ∧ R x b) {ys : List β}
    (hp : Inv p) (h : Yields (xs.mapM f) p ys q) : Inv q ∧ List.Forall₂ R xs ys := by
  induction xs generalizing p ys with
  | nil =>
    rw [List.mapM_nil, yields_pure_iff] at h
    obtain ⟨rfl, rfl⟩ := h
    exact ⟨hp, .nil⟩
  | cons x xs ih =>
    rw [List.forall_mem_cons] at step
    rw [List.mapM_cons, yields_bind_iff] at h
    obtain ⟨y, o, hx, h⟩ := h
    obtain ⟨zs, o', hxs, h⟩ := yields_bind_iff.1 h
    obtain ⟨rfl, rfl⟩ := yields_pure_iff.1 h
    obtain ⟨ho, hy⟩ := step.1 hp hx
    obtain ⟨hq, hzs⟩ := ih step.2 ho hxs
    exact ⟨hq, .cons hy hzs⟩

/-- Whatever the state, the computation ends with the given result. -/
def Answers (x : ExceptT ε (StateM σ) α) (result : Except ε α) : Prop :=
  ∀ p : σ, (x.run.run p).1 = result

theorem answers_pure (a : α) : Answers (pure a : ExceptT ε (StateM σ) α) (.ok a) := fun _ => rfl

/-- Steps whose results do not depend on the state, one after the other. -/
theorem Answers.bind {x : ExceptT ε (StateM σ) α} {f : α → ExceptT ε (StateM σ) β}
    {result : Except ε α} {next : α → Except ε β} (hx : Answers x result)
    (hf : ∀ a, result = .ok a → Answers (f a) (next a)) : Answers (x >>= f) (result >>= next) := by
  intro p
  have hp := hx p
  rw [run_bind]
  rcases hrun : x.run.run p with ⟨i | a, o⟩ <;> rw [hrun] at hp <;> cases hp
  · rfl
  · exact hf a rfl o

theorem Answers.bind_ok {x : ExceptT ε (StateM σ) α} {f : α → ExceptT ε (StateM σ) β} {a : α}
    {result : Except ε β} (hx : Answers x (.ok a)) (hf : Answers (f a) result) :
    Answers (x >>= f) result := by
  have h : Answers (x >>= f) (.ok a >>= fun _ => result) := hx.bind fun b hb => by
    cases hb
    exact hf
  exact h

end Runs

/-! ### Following re-exports -/

namespace Resolving

variable {α β : Type} {p q : Progress}

theorem yields_report_iff {event : Event} {u : Unit} :
    Yields (report event) p u q ↔ q = { p with log := p.log ++ [event] } :=
  ⟨fun h => by cases h; rfl, fun h => by rw [h]; rfl⟩

theorem yields_context_iff {c : Context} : Yields context p c q ↔ c = p.context ∧ q = p :=
  ⟨fun h => by cases h; exact ⟨rfl, rfl⟩, fun h => by rw [h.1, h.2]; rfl⟩

theorem yields_updateContext_iff {f : Context → Context} {u : Unit} :
    Yields (updateContext f) p u q ↔ q = { p with context := f p.context } :=
  ⟨fun h => by cases h; rfl, fun h => by rw [h]; rfl⟩

/-! ### Computations that leave the context alone -/

/-- The computation ends with the given result, whatever the progress, and but for events it leaves
the progress as it is. -/
def Quiet (x : Resolving α) (result : Except Interruption α) : Prop :=
  ∀ p : Progress, ∃ log, x.run.run p = (result, { p with log })

theorem quiet_pure (a : α) : Quiet (pure a) (.ok a) := fun p => ⟨p.log, rfl⟩

theorem quiet_report (event : Event) : Quiet (report event) (.ok ()) := fun _ => ⟨_, rfl⟩

/-- Steps that leave the context alone, one after the other. -/
theorem Quiet.bind {x : Resolving α} {f : α → Resolving β} {result : Except Interruption α}
    {next : α → Except Interruption β} (hx : Quiet x result)
    (hf : ∀ a, result = .ok a → Quiet (f a) (next a)) : Quiet (x >>= f) (result >>= next) := by
  intro p
  obtain ⟨log, hlog⟩ := hx p
  rw [ExceptT.run_bind, StateT.run_bind, hlog]
  cases result with
  | ok a =>
    obtain ⟨log', hlog'⟩ := hf a rfl { p with log }
    exact ⟨log', hlog'⟩
  | error i => exact ⟨log, rfl⟩

theorem Quiet.answers {x : Resolving α} {result : Except Interruption α} (hx : Quiet x result) :
    Answers x result := by
  intro p
  obtain ⟨log, hlog⟩ := hx p
  rw [hlog]

theorem Quiet.yields {x : Resolving α} {result : Except Interruption α} (hx : Quiet x result)
    {a : α} (h : Yields x p a q) : result = .ok a ∧ q.context = p.context := by
  obtain ⟨log, hlog⟩ := hx p
  rw [Yields, hlog, Prod.mk.injEq] at h
  exact ⟨h.1, by rw [← h.2]⟩

theorem Quiet.exists_yields {x : Resolving α} {a : α} (hx : Quiet x (.ok a)) (p : Progress) :
    ∃ q, Yields x p a q ∧ q.context = p.context := by
  obtain ⟨log, hlog⟩ := hx p
  exact ⟨_, hlog, rfl⟩

/-! ### Computations that only report -/

/-- The computation ends with the given result and reports the same events whatever the progress. It
does not announce that a file is begun. -/
def Tells (x : Resolving α) (result : Except Interruption α) : Prop :=
  ∃ events : List Event, (∀ path, .started path ∉ events) ∧
    ∀ p : Progress, x.run.run p = (result, { p with log := p.log ++ events })

theorem tells_pure (a : α) : Tells (pure a) (.ok a) :=
  ⟨[], nofun, fun p => by rw [List.append_nil]; rfl⟩

theorem tells_report {event : Event} (h : ∀ path, event ≠ .started path) :
    Tells (report event) (.ok ()) :=
  ⟨[event], fun path hmem => h path (List.mem_singleton.1 hmem).symm, fun _ => rfl⟩

/-- Nothing comes after an interruption. -/
theorem tells_throw_bind (i : Interruption) (f : α → Resolving β) :
    Tells (throw i >>= f) (.error i) :=
  ⟨[], nofun, fun p => by rw [List.append_nil]; rfl⟩

/-- Steps that only report, one after the other. -/
theorem Tells.bind {x : Resolving α} {f : α → Resolving β} {result : Except Interruption α}
    {next : α → Except Interruption β} (hx : Tells x result)
    (hf : ∀ a, result = .ok a → Tells (f a) (next a)) : Tells (x >>= f) (result >>= next) := by
  obtain ⟨events, hevents, hrun⟩ := hx
  cases result with
  | ok a =>
    obtain ⟨more, hmore, hrun'⟩ := hf a rfl
    refine ⟨events ++ more, fun path hmem => ?_, fun p => ?_⟩
    · exact (List.mem_append.1 hmem).elim (hevents path) (hmore path)
    · rw [run_bind, hrun]
      simp only [hrun', List.append_assoc]
      rfl
  | error i =>
    refine ⟨events, hevents, fun p => ?_⟩
    rw [run_bind, hrun]
    rfl

theorem Tells.quiet {x : Resolving α} {result : Except Interruption α} (hx : Tells x result) :
    Quiet x result := by
  obtain ⟨events, -, hrun⟩ := hx
  exact fun p => ⟨p.log ++ events, hrun p⟩

/-! ### Computations that are not interrupted -/

/-- Begun with the progress `p`, the computation is not interrupted. -/
def Ends (x : Resolving α) (p : Progress) : Prop :=
  ∃ a q, Yields x p a q

theorem ends_pure (a : α) (p : Progress) : Ends (pure a) p := ⟨a, p, rfl⟩

theorem ends_report (event : Event) (p : Progress) : Ends (report event) p := ⟨(), _, rfl⟩

theorem ends_context (p : Progress) : Ends context p := ⟨p.context, p, rfl⟩

theorem ends_updateContext (f : Context → Context) (p : Progress) : Ends (updateContext f) p :=
  ⟨(), _, rfl⟩

theorem Quiet.ends {x : Resolving α} {a : α} (hx : Quiet x (.ok a)) (p : Progress) : Ends x p := by
  obtain ⟨q, h, -⟩ := hx.exists_yields p
  exact ⟨a, q, h⟩

/-- Where nothing depends on the progress, the result tells whether the computation ends. -/
theorem Quiet.ends_iff {x : Resolving α} {result : Except Interruption α} (hx : Quiet x result) :
    Ends x p ↔ ∃ a, result = .ok a := by
  constructor
  · rintro ⟨a, q, h⟩
    exact ⟨a, (hx.yields h).1⟩
  · rintro ⟨a, rfl⟩
    exact hx.ends p

theorem Ends.bind {x : Resolving α} {f : α → Resolving β} (hx : Ends x p)
    (hf : ∀ a o, Yields x p a o → Ends (f a) o) : Ends (x >>= f) p := by
  obtain ⟨a, o, h⟩ := hx
  obtain ⟨b, q, hb⟩ := hf a o h
  exact ⟨b, q, yields_bind_iff.2 ⟨a, o, h, hb⟩⟩

/-- A run over a list is not interrupted if no step is, from a progress with a property that all
steps keep. -/
theorem ends_mapM_of (Inv : Progress → Prop) {f : α → Resolving β} {xs : List α}
    (hstep : ∀ x ∈ xs, ∀ p, Inv p → Ends (f x) p)
    (hkeep : ∀ x ∈ xs, ∀ {p b q}, Inv p → Yields (f x) p b q → Inv q) (hp : Inv p) :
    Ends (xs.mapM f) p := by
  induction xs generalizing p with
  | nil => exact ends_pure [] p
  | cons x xs ih =>
    rw [List.forall_mem_cons] at hstep hkeep
    rw [List.mapM_cons]
    exact (hstep.1 p hp).bind fun _ o ho =>
      (ih hstep.2 hkeep.2 (hkeep.1 hp ho)).bind fun _ _ _ => ends_pure _ _

theorem ends_mapM {f : α → Resolving β} {xs : List α} (h : ∀ x ∈ xs, ∀ p, Ends (f x) p)
    (p : Progress) : Ends (xs.mapM f) p :=
  ends_mapM_of (fun _ => True) (fun x hx p _ => h x hx p) (fun _ _ _ _ _ _ _ => trivial) trivial

end Resolving

end Reexport
