import Mathlib.Data.Finset.Card
import Reexport.Proofs.Contexts

/-!
# What the traversal takes up

The resolver follows the entries of every module that it takes up, unless the module is still being
resolved when the same module turns up again. So when a run is over, each module that was taken up is
`Done`: the barrels behind its entries were taken up too, and what had to be scanned could be.

A call of bounded depth follows everything because each call inside another takes up a module that
was not taken up before: `unvisited` counts those that are left, and the depth is greater.

## What is proved

* `replaced_of_yields` — a run over the entries of a module follows all of them, and leaves a context
  that `Extends` the one it began with: nothing is forgotten, lists stay as they are, and a module
  that was taken up in between is done.
* `visits_resolveWithin` — so does a call for a module, at every depth that exceeds the number of
  modules left.
* `replaced_of_resolveFile` — so the list found for a module is made from the lists at hand at the end.
* `done_of_resolveSource`, `done_of_resolveFile` — after a run from scratch, every module that was
  taken up is done.
-/

namespace Reexport

open Resolving Context

namespace Resolver

variable {r : Resolver} {directory path : String} {c c' : Context} {e : Entry}

/-- The list that a context has for a module that was taken up. It is empty while the module is being
resolved, and if it cannot be read. -/
def Listed (c : Context) (target : String) (nested : List Entry) : Prop :=
  Path.normalize target ∈ c.visited ∧ (c.recorded? (Path.normalize target)).getD [] = nested

/-- All that the resolver does for an entry is done. -/
def Followed (r : Resolver) (directory : String) (c : Context) (e : Entry) : Prop :=
  ∃ new, Replaced r directory (Listed c) e new

namespace Followed

variable {target content : String}

/-- A barrel behind the entry is taken up. -/
theorem barrel (h : Followed r directory c e) (lead : Leads r.files directory e target content)
    (hbarrel : isBarrel (moduleEntries content) = true) : Path.normalize target ∈ c.visited := by
  obtain ⟨new, hrep⟩ := h
  cases hrep with
  | astray hnone => exact absurd lead (hnone _ _)
  | barrel lead' _ hlist =>
    obtain ⟨rfl, -⟩ := lead.unique lead'
    exact hlist.1
  | leaf lead' hleaf =>
    obtain ⟨-, rfl⟩ := lead.unique lead'
    rw [hbarrel] at hleaf
    cases hleaf

/-- Another module behind the entry can be scanned where that is needed. -/
theorem leaf (h : Followed r directory c e) (lead : Leads r.files directory e target content)
    (hleaf : isBarrel (moduleEntries content) = false) :
    ∃ new, r.leafResult e target content = .ok new := by
  obtain ⟨new, hrep⟩ := h
  cases hrep with
  | astray hnone => exact absurd lead (hnone _ _)
  | barrel lead' hbarrel =>
    obtain ⟨-, rfl⟩ := lead.unique lead'
    rw [hbarrel] at hleaf
    cases hleaf
  | leaf lead' _ hnew =>
    obtain ⟨rfl, rfl⟩ := lead.unique lead'
    exact ⟨new, hnew⟩

end Followed

/-- All entries of a module are followed. -/
def Done (r : Resolver) (c : Context) (path : String) : Prop :=
  ∀ content, r.files.read path = .ok content → ∀ e ∈ moduleEntries content,
    Followed r (Path.directory path) c e

/-- Every module that was taken up is done, but for those that are still being resolved. -/
def Closed (r : Resolver) (unfinished : List String) (c : Context) : Prop :=
  ∀ path ∈ c.visited, path ∈ unfinished ∨ Done r c path

theorem Followed.mono (h : Followed r directory c e) (hsub : ∀ v ∈ c.visited, v ∈ c'.visited) :
    Followed r directory c' e := by
  obtain ⟨new, hrep⟩ := h
  cases hrep with
  | astray hnone => exact ⟨_, .astray hnone⟩
  | barrel lead hbarrel hlist => exact ⟨_, .barrel lead hbarrel ⟨hsub _ hlist.1, rfl⟩⟩
  | leaf lead hleaf hnew => exact ⟨_, .leaf lead hleaf hnew⟩

theorem Done.mono (h : Done r c path) (hsub : ∀ v ∈ c.visited, v ∈ c'.visited) : Done r c' path :=
  fun content hread e he => (h content hread e he).mono hsub

/-- What a run does to the context. -/
structure Extends (r : Resolver) (c c' : Context) : Prop where
  /-- No module is forgotten. -/
  visited : ∀ v ∈ c.visited, v ∈ c'.visited
  /-- The list of a module that was taken up before stays as it is. -/
  kept : ∀ v ∈ c.visited, c'.recorded? v = c.recorded? v
  /-- Only modules that were taken up are recorded. -/
  recorded : (∀ known ∈ c.resolved, known.1 ∈ c.visited) →
    ∀ known ∈ c'.resolved, known.1 ∈ c'.visited
  /-- What was taken up in between is done. -/
  closed (unfinished : List String) : Closed r unfinished c → Closed r unfinished c'

namespace Extends

theorem refl (r : Resolver) (c : Context) : Extends r c c :=
  ⟨fun _ h => h, fun _ _ => rfl, fun h => h, fun _ h => h⟩

theorem trans {c'' : Context} (h : Extends r c c') (h' : Extends r c' c'') : Extends r c c'' :=
  ⟨fun v hv => h'.visited v (h.visited v hv),
    fun v hv => (h'.kept v (h.visited v hv)).trans (h.kept v hv),
    fun hc => h'.recorded (h.recorded hc),
    fun unfinished hc => h'.closed unfinished (h.closed unfinished hc)⟩

theorem replaced {new : List Entry} (h : Extends r c c')
    (hrep : Replaced r directory (Listed c) e new) : Replaced r directory (Listed c') e new := by
  refine hrep.imp fun _ _ hlist => ⟨h.visited _ hlist.1, ?_⟩
  rw [h.kept _ hlist.1]
  exact hlist.2

end Extends

/-! ### Modules that are left -/

/-- How many of the known modules were not taken up. -/
def unvisited (known : List String) (c : Context) : Nat :=
  (known.toFinset.filter (· ∉ c.visited)).card

theorem unvisited_le {known : List String} (h : ∀ v ∈ c.visited, v ∈ c'.visited) :
    unvisited known c' ≤ unvisited known c := by
  refine Finset.card_le_card fun v hv => ?_
  rw [Finset.mem_filter] at hv ⊢
  exact ⟨hv.1, fun hmem => hv.2 (h v hmem)⟩

theorem unvisited_visit_lt {known : List String} (hknown : path ∈ known)
    (hnew : path ∉ c.visited) : unvisited known (c.visit path) < unvisited known c := by
  refine Finset.card_lt_card ((Finset.ssubset_iff_of_subset fun v hv => ?_).2 ⟨path, ?_, ?_⟩)
  · rw [Finset.mem_filter] at hv ⊢
    exact ⟨hv.1, fun hmem => hv.2 (mem_visited_visit.2 (.inl hmem))⟩
  · rw [Finset.mem_filter, List.mem_toFinset]
    exact ⟨hknown, hnew⟩
  · rw [Finset.mem_filter, not_and, not_not]
    exact fun _ => mem_visited_visit.2 (.inr rfl)

/-- Modules among which every call for a path has depth enough: those of the place, and the path,
which need not lead to one. -/
theorem exists_known (r : Resolver) (path : String) : ∃ known, Path.normalize path ∈ known ∧
    (∀ target, r.files.holds target = true → Path.normalize target ∈ known) ∧
    ∀ c, unvisited known c < r.depth := by
  obtain ⟨known, hlength, hknown⟩ := r.files.finite
  refine ⟨Path.normalize path :: known, List.mem_cons_self,
    fun target h => List.mem_cons_of_mem _ (hknown target h), fun c => ?_⟩
  have hcard : unvisited (Path.normalize path :: known) c ≤ known.length + 1 :=
    (Finset.card_filter_le _ _).trans (List.toFinset_card_le _)
  unfold depth
  omega

/-! ### Calls -/

/-- A specification of calls: from a context with few enough modules left, a call for a known module
extends the context and gives the list that the module then has. -/
def Visits (r : Resolver) (known : List String) (bound : Nat)
    (descend : String → Resolving (List Entry)) : Prop :=
  ∀ {target p nested q}, Path.normalize target ∈ known → unvisited known p.context < bound →
    (∀ k ∈ p.context.resolved, k.1 ∈ p.context.visited) → Yields (descend target) p nested q →
    Extends r p.context q.context ∧ Listed q.context target nested

variable {known : List String} {bound : Nat} {descend : String → Resolving (List Entry)}
  {p q : Progress}

/-- One entry. -/
theorem extends_of_resolveEntry
    (hknown : ∀ path, r.files.holds path = true → Path.normalize path ∈ known)
    (hdescend : Visits r known bound descend) (hp : unvisited known p.context < bound)
    (hrec : ∀ k ∈ p.context.resolved, k.1 ∈ p.context.visited) {new : List Entry}
    (h : Yields (r.resolveEntry descend directory e) p new q) :
    Extends r p.context q.context ∧ Replaced r directory (Listed q.context) e new := by
  cases resolveEntry_call h with
  | astray hnone hq =>
    rw [hq]
    exact ⟨.refl r _, .astray hnone⟩
  | barrel lead hbarrel ho hnested =>
    rw [← ho] at hp hrec ⊢
    obtain ⟨hext, hlist⟩ := hdescend (hknown _ lead.holds) hp hrec hnested
    exact ⟨hext, .barrel lead hbarrel hlist⟩
  | leaf lead hleaf hnew hq =>
    rw [hq]
    exact ⟨.refl r _, .leaf lead hleaf hnew⟩

/-- A run over entries follows all of them. -/
theorem replaced_of_yields
    (hknown : ∀ path, r.files.holds path = true → Path.normalize path ∈ known)
    (hdescend : Visits r known bound descend) {entries : List Entry}
    {news : List (List Entry)} (hp : unvisited known p.context < bound)
    (hrec : ∀ k ∈ p.context.resolved, k.1 ∈ p.context.visited)
    (h : Yields (entries.mapM (r.resolveEntry descend directory)) p news q) :
    Extends r p.context q.context ∧
      List.Forall₂ (Replaced r directory (Listed q.context)) entries news := by
  induction entries generalizing p news with
  | nil =>
    rw [List.mapM_nil, yields_pure_iff] at h
    obtain ⟨rfl, rfl⟩ := h
    exact ⟨.refl r _, .nil⟩
  | cons e entries ih =>
    rw [List.mapM_cons, yields_bind_iff] at h
    obtain ⟨new, o, he, h⟩ := h
    obtain ⟨rest, o', hrest, h⟩ := yields_bind_iff.1 h
    obtain ⟨rfl, rfl⟩ := yields_pure_iff.1 h
    obtain ⟨hext, hnew⟩ := extends_of_resolveEntry hknown hdescend hp hrec he
    obtain ⟨hext', hnews⟩ := ih (lt_of_le_of_lt (unvisited_le hext.visited) hp)
      (hext.recorded hrec) hrest
    exact ⟨hext.trans hext', .cons (hext'.replaced hnew) hnews⟩

theorem followed_of_replaced {entries : List Entry} {news : List (List Entry)}
    (h : List.Forall₂ (Replaced r directory (Listed c)) entries news) (he : e ∈ entries) :
    Followed r directory c e := by
  obtain ⟨new, -, hnew⟩ := exists_of_mem_left h he
  exact ⟨new, hnew⟩

/-- Taking up a module leaves it to be done. -/
theorem Closed.visit {unfinished : List String} (h : Closed r unfinished c) (path : String) :
    Closed r (path :: unfinished) (c.visit path) := by
  intro v hv
  rcases mem_visited_visit.1 hv with hv | rfl
  · exact (h v hv).imp (List.mem_cons_of_mem _)
      fun hdone => hdone.mono fun w hw => mem_visited_visit.2 (.inl hw)
  · exact .inl List.mem_cons_self

/-- Taking up a module that is done at once. -/
theorem extends_visit (hgrows : c.Grows (c.visit path)) (hdone : Done r (c.visit path) path) :
    Extends r c (c.visit path) := by
  refine ⟨hgrows.visited, hgrows.kept, hgrows.recorded, fun unfinished hc v hv => ?_⟩
  rcases mem_visited_visit.1 hv with hv | rfl
  · exact (hc v hv).imp_right fun h => h.mono hgrows.visited
  · exact .inr hdone

/-- A module that is taken up, followed and recorded. -/
theorem extends_record {content : String} {news : List (List Entry)} {found : List Entry}
    (hgrows : c.Grows (c'.record path found)) (hread : r.files.read path = .ok content)
    (hext : Extends r (c.visit path) c')
    (hnews : List.Forall₂ (Replaced r (Path.directory path) (Listed c')) (moduleEntries content)
      news) : Extends r c (c'.record path found) := by
  refine ⟨hgrows.visited, hgrows.kept, hgrows.recorded, fun unfinished hc v hv => ?_⟩
  rw [visited_record] at hv
  have hmono : ∀ w ∈ c'.visited, w ∈ (c'.record path found).visited := fun w hw => by
    rwa [visited_record]
  rcases hext.closed _ (hc.visit path) v hv with hopen | hdone
  · rcases List.mem_cons.1 hopen with rfl | hopen
    · refine .inr fun content' hcontent e he => ?_
      obtain rfl := Except.ok.inj (hcontent.symm.trans hread)
      exact (followed_of_replaced hnews he).mono hmono
    · exact .inl hopen
  · exact .inr (hdone.mono hmono)

/-- **Calls take up what they are for**, at every depth that exceeds the number of modules left. -/
theorem visits_resolveWithin
    (hknown : ∀ path, r.files.holds path = true → Path.normalize path ∈ known) (depth : Nat) :
    Visits r known depth (r.resolveWithin depth) := by
  induction depth with
  | zero => exact fun _ hp => absurd hp (Nat.not_lt_zero _)
  | succ depth ih =>
    intro target p nested q htarget hp hrec h
    have hgrows := (growing_resolveWithin r (depth + 1) target).yields h
    cases resolveWithin_call h with
    | recorded hknown =>
      obtain ⟨before, after, heq, -⟩ := List.lookup_eq_some_iff.1 hknown
      refine ⟨.refl r _, hrec (Path.normalize target, nested) (by simp [heq]), ?_⟩
      rw [hknown]
      rfl
    | cycle hnew hvisited hq =>
      rw [hq]
      refine ⟨.refl r _, hvisited, ?_⟩
      rw [hnew]
      rfl
    | unreadable hnew _ hread hq =>
      rw [hq] at hgrows ⊢
      refine ⟨extends_visit hgrows fun content hcontent => ?_, mem_visited_visit.2 (.inr rfl), ?_⟩
      · exact absurd hcontent (read_ne_ok_of_readResult hread content)
      · rw [recorded?_visit, hnew]
        rfl
    | @resolved o o' q content news hnew hvisited hread ho hnews hq =>
      have hleft : unvisited known o.context < depth := by
        rw [ho]
        exact lt_of_lt_of_le (unvisited_visit_lt htarget hvisited) (Nat.lt_succ_iff.1 hp)
      have hrec' : ∀ k ∈ o.context.resolved, k.1 ∈ o.context.visited := by
        rw [ho, resolved_visit]
        exact fun k hk => mem_visited_visit.2 (.inl (hrec k hk))
      obtain ⟨hext, hall⟩ := replaced_of_yields hknown ih hleft hrec' hnews
      rw [ho] at hext
      rw [hq] at hgrows ⊢
      refine ⟨extends_record hgrows hread hext hall, ?_, ?_⟩
      · rw [visited_record]
        exact hext.visited _ (mem_visited_visit.2 (.inr rfl))
      · rw [recorded?_record, if_pos rfl]
        rfl

/-- **Nothing is left out.** When the entries of a module were followed from scratch, the list of
every barrel behind them is at hand, and every other module that was taken up is done. -/
theorem done_of_resolveSource {content : String} {found : List Entry} (hp : p.context = {})
    (h : Yields (r.resolveSource content path) p found q) :
    (∃ news, List.Forall₂ (Replaced r (Path.directory (Path.normalize path)) (Listed q.context))
      (moduleEntries content) news ∧ found = merged news.flatten) ∧
    ∀ v ∈ q.context.visited, v = Path.normalize path ∨ Done r q.context v := by
  obtain ⟨known, -, hknown, hleft⟩ := r.exists_known path
  obtain ⟨_, o, ho, h⟩ := yields_bind_iff.1 h
  rw [yields_updateContext_iff] at ho
  obtain ⟨news, o', hnews, rfl, hq⟩ := resolveContent_yields h
  have hcontext : o.context = Context.visit {} (Path.normalize path) := by rw [ho, hp]
  have hrec : ∀ k ∈ o.context.resolved, k.1 ∈ o.context.visited := by
    rw [hcontext, resolved_visit]
    exact nofun
  obtain ⟨hext, hall⟩ :=
    replaced_of_yields hknown (visits_resolveWithin hknown r.depth) (hleft _) hrec hnews
  have hclosed : Closed r [Path.normalize path] o.context := by
    have hnone : Closed r [] {} := fun v hv => absurd hv List.not_mem_nil
    rw [hcontext]
    exact hnone.visit _
  rw [hq]
  refine ⟨⟨news, hall, rfl⟩, fun v hv => ?_⟩
  exact (hext.closed _ hclosed v hv).imp_left List.mem_singleton.1

/-- The entries of the module at a path are replaced by the lists that are at hand at the end. The
module itself has none by then, and is recorded after all the others. -/
theorem replaced_of_resolveFile {content : String} {found : List Entry} (hp : p.context = {})
    (hread : r.files.read (Path.normalize path) = .ok content)
    (h : Yields (r.resolveFile path) p found q) :
    ∃ c news, List.Forall₂ (Replaced r (Path.directory (Path.normalize path)) (Listed c))
      (moduleEntries content) news ∧ found = merged news.flatten ∧
      c.recorded? (Path.normalize path) = none ∧
      q.context = c.record (Path.normalize path) found := by
  obtain ⟨known, hpath, hknown, hleft⟩ := r.exists_known path
  cases resolveWithin_call h with
  | recorded hrec =>
    rw [hp] at hrec
    cases hrec
  | cycle _ hvisited =>
    rw [hp] at hvisited
    cases hvisited
  | unreadable _ _ hnone => exact absurd hread (read_ne_ok_of_readResult hnone content)
  | @resolved o o' _ text news hnew hvisited htext ho hnews hq =>
    obtain rfl := Except.ok.inj (htext.symm.trans hread)
    have hdepth : unvisited known o.context < r.files.capacity + 1 := by
      have hless := unvisited_visit_lt hpath hvisited
      have hbound := hleft p.context
      rw [← ho] at hless
      unfold depth at hbound
      omega
    have hrec : ∀ k ∈ o.context.resolved, k.1 ∈ o.context.visited := by
      rw [ho, resolved_visit, hp]
      exact nofun
    obtain ⟨hext, hall⟩ := replaced_of_yields hknown (visits_resolveWithin hknown _) hdepth hrec hnews
    refine ⟨o'.context, news, hall, rfl, ?_, hq⟩
    have hself : Path.normalize path ∈ o.context.visited := by
      rw [ho]
      exact mem_visited_visit.2 (.inr rfl)
    rw [hext.kept _ hself, ho, recorded?_visit, hnew]

/-- The same for the module at a path, which is done too. -/
theorem done_of_resolveFile {found : List Entry} (hp : p.context = {})
    (h : Yields (r.resolveFile path) p found q) :
    Path.normalize path ∈ q.context.visited ∧ ∀ v ∈ q.context.visited, Done r q.context v := by
  obtain ⟨known, hpath, hknown, hleft⟩ := r.exists_known path
  have hrec : ∀ k ∈ p.context.resolved, k.1 ∈ p.context.visited := by
    rw [hp]
    exact nofun
  obtain ⟨hext, hlist⟩ := visits_resolveWithin hknown r.depth hpath (hleft _) hrec h
  have hclosed : Closed r [] p.context := by
    intro v hv
    rw [hp] at hv
    cases hv
  refine ⟨hlist.1, fun v hv => ?_⟩
  exact (hext.closed [] hclosed v hv).resolve_left List.not_mem_nil

end Resolver

end Reexport
