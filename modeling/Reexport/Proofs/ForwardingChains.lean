import Reexport.Proofs.Inlining
import Mathlib.Data.List.ReduceOption
import Mathlib.Data.List.Forall2

/-!
# Chains of stars

Entries that are passed on by one `export *` after another look, behind the last of them, as if that
one alone had passed them on: it gives them their source, and they are types if they were, or if any
star of the chain passes on types only. What the first star keeps back, `default`, is all that is
ever lost, since a name that has passed a star is a plain one and stays the same.

## What is proved

* `forwardedThrough_eq` — one entry behind one star, where it passes.
* `behind_behind` — two stars count as the second one.
* `forwardList_eq_ok` — a list behind one star; forwarding fails nowhere but on an empty source.
* `forwardAlong_eq_ok` — a chain of stars gives what its last one gives, with the marks of all.
-/

namespace Reexport

/-- An `export *` that passes entries on. -/
structure Hop where
  /-- The source as written. -/
  source : String
  /-- Whether it passes on types only. -/
  isTypeOnly : Bool
  deriving DecidableEq

namespace Entry

variable {e : Entry} {source source' : String} {typeOnly typeOnly' : Bool}

/-! ### One star -/

theorem specifier_of_named (e : Entry) (h : Kind.named = .star) :
    e.exportedName = starSpecifier := by
  cases h

/-- An entry as it stands behind a star that it passes. -/
def behind (e : Entry) (source : String) (typeOnly : Bool) (h : source ≠ "") : Entry :=
  if e.isBareStar then
    { e with source, isTypeOnly := e.isTypeOnly || typeOnly, source_ne_empty := h }
  else {
    specifier := e.exportedName
    source
    kind := .named
    isTypeOnly := e.isTypeOnly || typeOnly
    originLine := e.originLine
    specifier_ne_empty := e.exportedName_ne_empty
    source_ne_empty := h
    specifier_of_star := e.specifier_of_named }

theorem forwardedThrough_eq (e : Entry) (typeOnly : Bool) (h : source ≠ "") :
    e.forwardedThrough source typeOnly h =
      if e.passesStar then some (e.behind source typeOnly h) else none := by
  unfold forwardedThrough passesStar behind
  by_cases hbare : e.isBareStar = true
  · simp [hbare]
  · by_cases hname : e.exportedName = defaultSpecifier <;> simp [hbare, hname]

/-- What an entry and the one behind a star have to do with each other. -/
structure Passed (source : String) (typeOnly : Bool) (e x : Entry) : Prop where
  /-- The source is that of the star. -/
  source_eq : x.source = source
  /-- The name is kept. -/
  exportedName : x.exportedName = e.exportedName
  /-- A type stays one, and a star that passes on types only makes one. -/
  isTypeOnly : x.isTypeOnly = (e.isTypeOnly || typeOnly)
  /-- A bare namespace stays one, and all else is a plain name without an alias. -/
  form : e.isBareStar = true ∧ x.isBareStar = true ∨
    e.isBareStar = false ∧ x.kind = .named ∧ x.asName = none
  /-- The line is kept. -/
  originLine : x.originLine = e.originLine

theorem passed_behind (e : Entry) (typeOnly : Bool) (h : source ≠ "") :
    Passed source typeOnly e (e.behind source typeOnly h) := by
  unfold behind
  by_cases hbare : e.isBareStar = true
  · rw [if_pos hbare]
    exact ⟨rfl, rfl, rfl, .inl ⟨hbare, hbare⟩, rfl⟩
  · rw [if_neg hbare]
    exact ⟨rfl, rfl, rfl, .inr ⟨by simpa using hbare, rfl, rfl⟩, rfl⟩

theorem isBareStar_behind (e : Entry) (typeOnly : Bool) (h : source ≠ "") :
    (e.behind source typeOnly h).isBareStar = e.isBareStar := by
  obtain ⟨he, hx⟩ | ⟨he, hkind, -⟩ := (passed_behind e typeOnly h).form
  · rw [he, hx]
  · rw [he, isBareStar, hkind]
    rfl

/-- What has passed a star passes every other one. -/
theorem passesStar_behind (e : Entry) (typeOnly : Bool) (h : source ≠ "") :
    (e.behind source typeOnly h).passesStar = e.passesStar := by
  rw [passesStar, isBareStar_behind, (passed_behind e typeOnly h).exportedName, passesStar]

/-- **Two stars count as the second one.** -/
theorem behind_behind (e : Entry) (h : source ≠ "") (h' : source' ≠ "") :
    (e.behind source typeOnly h).behind source' typeOnly' h' =
      e.behind source' (typeOnly || typeOnly') h' := by
  have hname := (passed_behind e typeOnly h).exportedName
  rw [behind, isBareStar_behind, behind.eq_def e source']
  by_cases hbare : e.isBareStar = true
  · simp [behind, hbare, Bool.or_assoc]
  · simp only [hbare, Bool.false_eq_true, if_false, hname]
    simp [behind, hbare, Bool.or_assoc]

/-! ### Lists and chains -/

/-- Entries behind a star, those left out that it keeps back. -/
def forwardList (entries : List Entry) (hop : Hop) : Except Fault (List Entry) := do
  let passed ← entries.mapM fun e => e.forward hop.source hop.isTypeOnly
  return passed.reduceOption

/-- Entries behind one star after another. -/
def forwardAlong (entries : List Entry) (hops : List Hop) : Except Fault (List Entry) :=
  hops.foldlM forwardList entries

/-- Behind a star stand, in their order, the entries that pass it. -/
theorem forwardList_eq_ok (entries : List Entry) (hop : Hop) (h : hop.source ≠ "") :
    forwardList entries hop =
    .ok ((entries.filter (·.passesStar)).map (·.behind hop.source hop.isTypeOnly h)) := by
  have hforward : (fun e : Entry => e.forward hop.source hop.isTypeOnly) =
      fun e => pure (e.forwardedThrough hop.source hop.isTypeOnly h) := by
    funext e
    rw [forward, dif_neg h]
    rfl
  have hpassed : entries.filterMap (·.forwardedThrough hop.source hop.isTypeOnly h) =
      (entries.filter (·.passesStar)).map (·.behind hop.source hop.isTypeOnly h) := by
    induction entries with
    | nil => rfl
    | cons e entries ih =>
      rw [List.filterMap_cons, forwardedThrough_eq, ih, List.filter_cons]
      by_cases hpass : e.passesStar = true <;> simp [hpass]
  rw [forwardList, hforward, List.mapM_pure]
  show Except.ok (entries.map _).reduceOption = _
  rw [← hpassed, List.reduceOption, List.filterMap_map]
  rfl

/-- What stands behind a star passes the next one as if there had been the next one only. -/
theorem forwardList_bind_forwardList (entries : List Entry) {hop next : Hop}
    (h : hop.source ≠ "") (h' : next.source ≠ "") :
    (forwardList entries hop >>= fun es => forwardList es next) =
      forwardList entries ⟨next.source, hop.isTypeOnly || next.isTypeOnly⟩ := by
  have hall : ∀ e ∈ (entries.filter (·.passesStar)).map (·.behind hop.source hop.isTypeOnly h),
      e.passesStar = true := by
    intro e he
    obtain ⟨d, hd, rfl⟩ := List.mem_map.1 he
    rw [passesStar_behind]
    exact (List.mem_filter.1 hd).2
  calc forwardList entries hop >>= fun es => forwardList es next
    _ = forwardList ((entries.filter (·.passesStar)).map
          (·.behind hop.source hop.isTypeOnly h)) next := by
      rw [forwardList_eq_ok entries hop h]
      rfl
    _ = .ok ((entries.filter (·.passesStar)).map
          (·.behind next.source (hop.isTypeOnly || next.isTypeOnly) h')) := by
      rw [forwardList_eq_ok _ next h', List.filter_eq_self.2 hall, List.map_map]
      congr 2
      funext e
      exact behind_behind e h h'
    _ = forwardList entries ⟨next.source, hop.isTypeOnly || next.isTypeOnly⟩ :=
      (forwardList_eq_ok entries ⟨next.source, hop.isTypeOnly || next.isTypeOnly⟩ h').symm

/-- The first star of a chain is absorbed by what the chain behind it comes to. -/
theorem forwardAlong_eq_forwardList (entries : List Entry) (hops : List Hop) (last : Hop)
    (h : ∀ hop ∈ hops ++ [last], hop.source ≠ "") : forwardAlong entries (hops ++ [last]) =
      forwardList entries ⟨last.source, (hops ++ [last]).any (·.isTypeOnly)⟩ := by
  have hlast : last.source ≠ "" := h last (by simp)
  induction hops generalizing entries with
  | nil => simp [forwardAlong]
  | cons hop hops ih =>
    have hrest : ∀ hop ∈ hops ++ [last], hop.source ≠ "" := fun _ hm => h _ (.tail _ hm)
    calc forwardAlong entries (hop :: hops ++ [last])
      _ = forwardList entries hop >>= fun es => forwardAlong es (hops ++ [last]) := rfl
      _ = forwardList entries hop >>= fun es =>
            forwardList es ⟨last.source, (hops ++ [last]).any (·.isTypeOnly)⟩ := by
        congr 1
        funext es
        exact ih es hrest
      _ = forwardList entries ⟨last.source, (hop :: hops ++ [last]).any (·.isTypeOnly)⟩ :=
        forwardList_bind_forwardList entries (h hop (.head _)) hlast

/-- **A chain of stars** does to entries what its last star does that passes on types only if any of
the chain does. It fails nowhere. What it keeps back are the entries named `default`, bare namespaces
apart; all others keep their order and their names. -/
theorem forwardAlong_eq_ok (entries : List Entry) (hops : List Hop) (last : Hop)
    (h : ∀ hop ∈ hops ++ [last], hop.source ≠ "") : ∃ found,
      forwardAlong entries (hops ++ [last]) = .ok found ∧
      forwardList entries ⟨last.source, (hops ++ [last]).any (·.isTypeOnly)⟩ = .ok found ∧
      List.Forall₂ (Passed last.source ((hops ++ [last]).any (·.isTypeOnly)))
        (entries.filter fun e => e.isBareStar || e.exportedName ≠ defaultSpecifier) found := by
  have hlast : last.source ≠ "" := h last (by simp)
  have honce := forwardList_eq_ok entries ⟨last.source, (hops ++ [last]).any (·.isTypeOnly)⟩ hlast
  refine ⟨_, (forwardAlong_eq_forwardList entries hops last h).trans honce, honce, ?_⟩
  show List.Forall₂ _ (entries.filter (·.passesStar)) _
  rw [List.forall₂_map_right_iff, List.forall₂_same]
  exact fun e _ => passed_behind e _ hlast

/-- Entries of every form: a bare namespace, one with a name, names with and without an alias, and
two that are named `default`, one of them by its alias. -/
def mixedEntries : List Entry :=
  [⟨"*", "./all", .star, none, false, 1, by decide, by decide, fun _ => rfl⟩,
    ⟨"*", "./space", .star, some "ns", true, 2, by decide, by decide, fun _ => rfl⟩,
    ⟨"default", "./c", .default, some "C", false, 3, by decide, by decide, nofun⟩,
    ⟨"default", "./d", .default, none, false, 4, by decide, by decide, nofun⟩,
    ⟨"x", "./e", .named, some "default", false, 5, by decide, by decide, nofun⟩,
    ⟨"y", "./f", .named, some "z", true, 6, by decide, by decide, nofun⟩]

/-- Stars whose second one passes on types only. -/
theorem forwardAlong_eq_ok_mixed :
    (∀ hop ∈ [⟨"./one", false⟩, ⟨"./two", true⟩] ++ [(⟨"./three", false⟩ : Hop)], hop.source ≠ "") ∧
    ∃ found,
      forwardAlong mixedEntries ([⟨"./one", false⟩, ⟨"./two", true⟩] ++ [⟨"./three", false⟩]) =
        .ok found ∧
      forwardList mixedEntries ⟨"./three", true⟩ = .ok found ∧
      List.Forall₂ (Passed "./three" true)
        (mixedEntries.filter fun e => e.isBareStar || e.exportedName ≠ defaultSpecifier) found :=
  ⟨by decide, forwardAlong_eq_ok mixedEntries [⟨"./one", false⟩, ⟨"./two", true⟩]
    ⟨"./three", false⟩ (by decide)⟩

end Entry

end Reexport
