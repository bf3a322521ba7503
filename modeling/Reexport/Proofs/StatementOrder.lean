import Reexport.Proofs.Held
import Reexport.Proofs.Lines
import Reexport.Proofs.Memo
import Reexport.Proofs.WellFormed

/-!
# Statements in another order

Two versions of a module that hold the same lines in different orders need not give the same list, for
two reasons. The last of several entries under one key is left, so it matters which statement comes
last. And while the module is being resolved, a barrel on a cycle that does not pass through the
module is recorded with the list it has when the cycle closes, so it matters where the cycle is
entered.

Nothing else matters. `Brings` is what one line brings to the list of its module, whatever stands
before it and after it: it depends on the lists that are recorded for the barrels behind the line, and
the module itself counts as gone. If both versions come to record the same lists, the same keys are
found; and if no two lines bring different entries under one key, so are the same entries, but for
their lines.

## What is proved

* `recorded?_of_acyclicFrom` — where every cycle passes through the module, the lists recorded in the
  meantime are those of plain recursion without the module.
* `exists_gives` — the list found for a module is merged from what its lines give.
* `resolveFile_reordered` — when the order of the lines makes no difference.
* `uncontested_of_given`, `RankedBut.cyclesPass` — tests for its conditions.
* `resolveFile_order_matters` — where the order makes a difference.
-/

namespace Reexport

open Resolving Relation Text

/-! ### Cycles through a module -/

/-- Every cycle of barrels that can be reached from a module passes through the module. -/
def Files.CyclesPass (files : Files) (root : String) : Prop :=
  ∀ v, ReflTransGen files.BarrelEdge root v → ¬TransGen (files.without root).BarrelEdge v v

section Without

variable {files : Files} {root v w : String}

/-- Without a module, no barrel leads where it did not lead before. -/
theorem Files.BarrelEdge.of_without (h : (files.without root).BarrelEdge v w) :
    files.BarrelEdge v w := by
  obtain ⟨content, e, target, nested, hread, he, lead, hbarrel, rfl⟩ := h
  have hne : Path.normalize v ≠ root := fun hv => by
    rw [read_without hv] at hread
    cases hread
  rw [read_without_of_ne hne] at hread
  exact ⟨content, e, target, nested, hread, he, (Resolver.leads_without_iff.1 lead).1, hbarrel, rfl⟩

theorem Files.CyclesPass.acyclicFrom (h : files.CyclesPass root) (hedge : files.BarrelEdge root v) :
    (files.without root).AcyclicFrom v := by
  intro w hw
  exact h w (.head hedge (ReflTransGen.mono (fun _ _ hedge => hedge.of_without) _ _ hw))

/-- Every module but one leads to modules of smaller rank only, or to that one. -/
def MemoryFiles.RankedBut (m : MemoryFiles) (root : String) (rank : String → Nat) : Prop :=
  ∀ f ∈ m.entries, f.1 ≠ root → ∀ e ∈ moduleEntries f.2,
    ∀ target ∈ locate m.files moduleExtensions e.source (Path.directory f.1),
      Path.normalize target ≠ root → rank (Path.normalize target) < rank f.1

instance (m : MemoryFiles) (root : String) (rank : String → Nat) :
    Decidable (m.RankedBut root rank) := by
  unfold MemoryFiles.RankedBut
  infer_instance

theorem MemoryFiles.RankedBut.cyclesPass {m : MemoryFiles} {rank : String → Nat}
    (h : m.RankedBut root rank) : m.files.CyclesPass root := by
  refine fun v _ => Files.acyclic_of_rank rank (fun {path next} hpath hedge => ?_) v
  obtain ⟨content, e, target, nested, hread, he, lead, -, rfl⟩ := hedge
  obtain ⟨lead, htarget⟩ := Resolver.leads_without_iff.1 lead
  have hne : path ≠ root := fun heq => by
    rw [Files.read_without (hpath.trans heq)] at hread
    cases hread
  rw [Files.read_without_of_ne (hpath.symm ▸ hne)] at hread
  have hstored := mem_entries_of_read hread
  rw [hpath] at hstored
  exact h _ hstored hne e he target lead.located htarget

end Without

namespace Resolver

variable {r : Resolver} {root content : String} {found : List Entry} {q : Progress}

/-- The text of a module at a normal path is that under every spelling, so it is a barrel under every
spelling if it is one. -/
theorem barrelAt_of_read {files : Files} (hfiles : files.Canonical) {root content : String}
    (hread : files.read root = .ok content) (hbarrel : isBarrel (moduleEntries content) = true) :
    BarrelAt files root := by
  intro target text htarget htext
  rw [← hfiles, htarget, hread, Except.ok.injEq] at htext
  rwa [← htext]

/-- A barrel behind a module can be read without it, unless it is the module itself. -/
theorem exists_read_without (hfiles : r.files.Canonical) {v : String}
    (hedge : r.files.BarrelEdge root v) (hne : v ≠ root) :
    ∃ nested, (r.without root).files.read v = .ok nested := by
  obtain ⟨_, e, target, nested, -, -, lead, -, rfl⟩ := hedge
  refine ⟨nested, ?_⟩
  rw [← lead.read, ← hfiles target]
  exact Files.read_without_of_ne (by rwa [Path.normalize_normalize])

/-- When a module is taken up first, everything that was taken up is settled without it. -/
theorem sound_visit_without (r : Resolver) (hnormal : Path.normalize root = root) :
    Sound (r.without root) (fun _ => False) (Context.visit {} root) := by
  refine ⟨(records_empty _).visit root, fun v hv => .inl (.inr fun text htext => ?_)⟩
  obtain rfl := (Context.mem_visited_visit.1 hv).resolve_left List.not_mem_nil
  have hgone : (r.without v).files.read v = .error .absent := Files.read_without hnormal
  rw [hgone] at htext
  cases htext

/-- When its entries are resolved, everything that was taken up is settled without it, if what they
lead to lies on no cycle without it. -/
theorem sound_without (hnormal : Path.normalize root = root)
    (hread : r.files.read root = .ok content) (hbarrel : BarrelAt r.files root)
    (hacyclic : ∀ v, r.files.BarrelEdge root v → v ≠ root → (r.files.without root).AcyclicFrom v)
    {o o' : Progress} {news : List (List Entry)} (ho : o.context = Context.visit {} root)
    (h : Yields ((moduleEntries content).mapM
      (r.resolveEntry (r.resolveWithin (r.files.capacity + 1)) (Path.directory root))) o news o') :
    Sound (r.without root) (fun _ => False) o'.context := by
  have hholding : o.context.Holding root := by
    rw [ho]
    exact ⟨Context.mem_visited_visit.2 (.inr rfl), rfl⟩
  -- The run is one without the module, to which plain recursion applies.
  obtain ⟨-, q, hrun, hq⟩ := mimics_resolveEntries hbarrel _ _ _ hholding rfl h
  obtain ⟨known, hpath, hknown, hleft⟩ := (r.without root).exists_known root
  have hdepth : unvisited known o.context < r.files.capacity + 1 := by
    have hless : unvisited known o.context < unvisited known {} := by
      rw [ho]
      exact unvisited_visit_lt (hnormal ▸ hpath) List.not_mem_nil
    have hbound : unvisited known {} < r.files.capacity + 2 := hleft {}
    omega
  have hlead : ∀ e ∈ moduleEntries content, ∀ {target nested},
      Leads (r.without root).files (Path.directory root) e target nested →
        isBarrel (moduleEntries nested) = true →
          (r.without root).files.AcyclicFrom (Path.normalize target) ∧ ∀ v, False →
            TransGen (r.without root).files.BarrelEdge v (Path.normalize target) := by
    intro e he target nested lead hnested
    obtain ⟨lead, htarget⟩ := leads_without_iff.1 lead
    exact ⟨hacyclic _ ⟨_, e, _, _, hread, he, lead, hnested, rfl⟩ htarget, fun _ => False.elim⟩
  have hsound := r.sound_visit_without hnormal
  rw [← ho] at hsound
  obtain ⟨hafter, -⟩ := resolves_mapM hknown (resolves_resolveWithin hknown _) hlead hsound hdepth
    hrun
  rwa [hq] at hafter

/-- **The lists recorded in the meantime** are those of plain recursion without the module, for the
barrels behind its entries, if these lead to no cycle without it. -/
theorem recorded?_of_acyclicFrom (hfiles : r.files.Canonical) (hnormal : Path.normalize root = root)
    (hread : r.files.read root = .ok content)
    (hacyclic : ∀ v, r.files.BarrelEdge root v → v ≠ root → (r.files.without root).AcyclicFrom v)
    (h : Yields (r.resolveFile root) {} found q) {v : String} (hedge : r.files.BarrelEdge root v)
    (hne : v ≠ root) :
    ∃ list, q.context.recorded? v = some list ∧ Resolves (r.without root) v list := by
  have hvisited : v ∈ q.context.visited :=
    ((visited_iff_reachable h).1 v).2 (by rw [hnormal]; exact .single hedge)
  have hbarrel : BarrelAt r.files root := by
    obtain ⟨text, e, _, _, hread', he, lead, -, -⟩ := hedge
    obtain rfl := Except.ok.inj (hread'.symm.trans hread)
    exact barrelAt_of_read hfiles hread (isBarrel_of_leads he lead)
  have hcall := resolveWithin_call h
  rw [hnormal] at hcall
  cases hcall with
  | recorded hrec => cases hrec
  | cycle _ hroot => cases hroot
  | unreadable _ _ hnone => exact absurd hread (read_ne_ok_of_readResult hnone _)
  | resolved _ _ htext ho hnews hq =>
    obtain rfl := Except.ok.inj (htext.symm.trans hread)
    have hafter := sound_without hnormal hread hbarrel hacyclic ho hnews
    rw [hq, Context.visited_record] at hvisited
    rcases (hafter.settled v hvisited).resolve_right id with ⟨list, hlist⟩ | hnone
    · refine ⟨list, ?_, hafter.lists.recorded? hlist⟩
      rw [hq, Context.recorded?_record, if_neg hne, hlist]
    · obtain ⟨nested, hkept⟩ := exists_read_without hfiles hedge hne
      exact absurd hkept (hnone nested)

/-! ### What a line brings -/

/-- The list that is recorded for a barrel; it is empty if none is. -/
def Recorded (c : Context) (target : String) (nested : List Entry) : Prop :=
  (c.recorded? (Path.normalize target)).getD [] = nested

/-- What takes the place of the entries of a line in the module at a normal path. The module itself
counts as gone, and the lines of the entries are left out. -/
def Gives (r : Resolver) (root : String) (c : Context) (row : List Char) (group : List Entry) :
    Prop :=
  ∃ news, List.Forall₂ (Replaced (r.without root) (Path.directory root) (Recorded c))
    (lineEntries row 0) news ∧ group = news.flatten

/-- What a line brings to the list of its module: this, with only the last entry of each key. -/
def Brings (r : Resolver) (root : String) (c : Context) (row : List Char) (x : Entry) : Prop :=
  ∃ group, r.Gives root c row group ∧ x ∈ merged group

/-- No two lines bring different entries under one key. -/
def Uncontested (r : Resolver) (root : String) (c : Context) (rows : List (List Char)) : Prop :=
  ∀ row ∈ rows, ∀ row' ∈ rows, ∀ x y, r.Brings root c row x → r.Brings root c row' y →
    x.mergeKey = y.mergeKey → x = y

variable {c c' : Context} {row : List Char} {group : List Entry}

/-- A line gives one group of entries. -/
theorem Gives.unique (h : r.Gives root c row group) {group' : List Entry}
    (h' : r.Gives root c row group') : group' = group := by
  obtain ⟨news, hnews, rfl⟩ := h
  obtain ⟨news', hnews', rfl⟩ := h'
  rw [eq_of_forall₂ hnews hnews' fun _ _ _ hnew hnew' =>
    hnew.unique hnew' fun _ _ _ hn hn' => hn'.symm.trans hn]

/-- What a line gives depends on the lists of the barrels behind its module only. -/
theorem Gives.of_recorded (hread : r.files.read root = .ok content)
    (hrow : row ∈ lines content.toList)
    (hlists : ∀ v, r.files.BarrelEdge root v → v ≠ root → c'.recorded? v = c.recorded? v)
    (h : r.Gives root c' row group) : r.Gives root c row group := by
  obtain ⟨news, hnews, heq⟩ := h
  refine ⟨news, forall₂_imp_of_mem hnews fun e he new hrep => ?_, heq⟩
  refine hrep.imp fun {target nested _} lead hbarrel hlist => ?_
  obtain ⟨lead, hne⟩ := leads_without_iff.1 lead
  -- The entry stands on another line in the module than here.
  obtain ⟨n, hn⟩ := exists_mem_linesEntries hrow 1
  have he : e.atLine n ∈ moduleEntries content := by
    refine hn _ ?_
    rw [← lineEntries_atLine row 0 n]
    exact List.mem_map_of_mem he
  rw [Recorded, ← hlists _ ⟨content, e.atLine n, target, nested, hread, he,
    ⟨lead.located, lead.read⟩, hbarrel, rfl⟩ hne]
  exact hlist

/-- It takes comparing what the lines give, one by one. -/
theorem uncontested_iff {rows : List (List Char)} {groups : List (List Entry)}
    (h : List.Forall₂ (r.Gives root c) rows groups) :
    r.Uncontested root c rows ↔ Agreeing groups := by
  constructor
  · intro huncontested g hg g' hg' x hx y hy
    obtain ⟨row, hrow, hgives⟩ := exists_of_mem_right h hg
    obtain ⟨row', hrow', hgives'⟩ := exists_of_mem_right h hg'
    exact huncontested row hrow row' hrow' x y ⟨g, hgives, hx⟩ ⟨g', hgives', hy⟩
  · rintro hagree row hrow row' hrow' x y ⟨g, hgives, hx⟩ ⟨g', hgives', hy⟩
    obtain ⟨g₁, hg₁, hgives₁⟩ := exists_of_mem_left h hrow
    obtain ⟨g₂, hg₂, hgives₂⟩ := exists_of_mem_left h hrow'
    obtain rfl := hgives₁.unique hgives
    obtain rfl := hgives₂.unique hgives'
    exact hagree g hg₁ g' hg₂ x hx y hy

/-- What takes the place of the entries of some lines is what each of the lines gives. -/
theorem exists_gives_of_replaced {rows : List (List Char)} {number : Nat}
    {news : List (List Entry)}
    (h : List.Forall₂ (Replaced (r.without root) (Path.directory root) (Recorded c))
      (linesEntries number rows) news) : ∃ groups,
      List.Forall₂ (r.Gives root c) rows groups ∧ news.flatten.map Entry.unplaced = groups.flatten := by
  induction rows generalizing number news with
  | nil =>
    rw [List.forall₂_nil_left_iff.1 h]
    exact ⟨[], .nil, rfl⟩
  | cons row rows ih =>
    obtain ⟨here, later, rfl, hhere, hlater⟩ := exists_append_of_forall₂ h
    obtain ⟨groups, hgroups, heq⟩ := ih hlater
    refine ⟨(here.map (List.map Entry.unplaced)).flatten :: groups, .cons ⟨_, ?_, rfl⟩ hgroups, ?_⟩
    · rw [← lineEntries_atLine row number 0, List.forall₂_map_left_iff, List.forall₂_map_right_iff]
      exact hhere.imp fun _ _ hrep => hrep.atLine 0
    · rw [List.flatten_append, List.map_append, heq, List.map_flatten, List.flatten_cons]

/-- **A list is merged from what the lines bring.** -/
theorem exists_gives (hfiles : r.files.Canonical) (hnormal : Path.normalize root = root)
    (hread : r.files.read root = .ok content) (h : Yields (r.resolveFile root) {} found q) :
    ∃ groups, List.Forall₂ (r.Gives root q.context) (lines content.toList) groups ∧
      found.map Entry.unplaced = merged groups.flatten := by
  obtain ⟨c, news, hnews, rfl, hopen, hq⟩ := replaced_of_resolveFile rfl (hnormal.symm ▸ hread) h
  rw [hnormal] at hnews hopen hq
  have hnews : List.Forall₂ (Replaced (r.without root) (Path.directory root) (Recorded q.context))
      (moduleEntries content) news := by
    refine forall₂_imp_of_mem hnews fun e he new hrep => ?_
    have hgone : Replaced (r.without root) (Path.directory root) _ e new := hrep.without
      (fun lead htarget => barrelAt_of_read hfiles hread (isBarrel_of_leads he lead) _ _ htarget
        lead.read)
      (fun target nested htarget hlist => by rw [← hlist.2, htarget, hopen]; rfl)
    refine hgone.imp fun lead _ hlist => ?_
    rw [Recorded, hq, Context.recorded?_record, if_neg (leads_without_iff.1 lead).2]
    exact hlist.2
  obtain ⟨groups, hgroups, heq⟩ := exists_gives_of_replaced hnews
  exact ⟨groups, hgroups, by rw [map_merged_unplaced, heq]⟩

/-! ### What a line brings, computed -/

/-- What takes the place of an entry, from the lists that are recorded for barrels. -/
def replacement (r : Resolver) (directory : String) (c : Context) (e : Entry) :
    Except Interruption (List Entry) :=
  match locate r.files moduleExtensions e.source directory with
  | none => .ok [e]
  | some target =>
    match r.files.read target with
    | .error _ => .ok [e]
    | .ok content =>
      if isBarrel (moduleEntries content) then
        .ok (e.inlined ((c.recorded? (Path.normalize target)).getD []))
      else r.leafResult e target content

theorem replaced_of_replacement {directory : String} {e : Entry} {new : List Entry}
    (h : r.replacement directory c e = .ok new) : Replaced r directory (Recorded c) e new := by
  unfold replacement at h
  split at h
  · rename_i hloc
    obtain rfl := Except.ok.inj h
    refine .astray fun target content lead => ?_
    simp [lead.located] at hloc
  rename_i target hloc
  split at h
  · rename_i hread
    obtain rfl := Except.ok.inj h
    refine .astray fun target' content lead => ?_
    obtain rfl := Option.some.inj (hloc.symm.trans lead.located)
    simp [lead.read] at hread
  rename_i content hread
  split at h
  · rename_i hbarrel
    obtain rfl := Except.ok.inj h
    exact .barrel ⟨hloc, hread⟩ hbarrel rfl
  · rename_i hleaf
    exact .leaf ⟨hloc, hread⟩ (by simpa using hleaf) h

/-- What the lines of a module give. -/
def given (r : Resolver) (root : String) (c : Context) (rows : List (List Char)) :
    Except Interruption (List (List Entry)) :=
  rows.mapM fun row => do
    let news ← (lineEntries row 0).mapM ((r.without root).replacement (Path.directory root) c)
    return news.flatten

theorem gives_of_given {rows : List (List Char)} {groups : List (List Entry)}
    (h : r.given root c rows = .ok groups) : List.Forall₂ (r.Gives root c) rows groups := by
  refine (mapM_eq_ok_iff.1 h).imp fun row group hgroup => ?_
  obtain ⟨news, hnews, hgroup⟩ := bind_eq_ok_iff.1 hgroup
  exact ⟨news, (mapM_eq_ok_iff.1 hnews).imp fun _ _ => replaced_of_replacement,
    (Except.ok.inj hgroup).symm⟩

/-- A test for lines that bring nothing different under one key. -/
theorem uncontested_of_given {rows : List (List Char)}
    (h : (r.given root c rows).map (fun groups => decide (Agreeing groups)) = .ok true) :
    r.Uncontested root c rows := by
  cases hgiven : r.given root c rows with
  | error i =>
    rw [hgiven] at h
    cases h
  | ok groups =>
    rw [hgiven] at h
    exact (uncontested_iff (gives_of_given hgiven)).2 (of_decide_eq_true (Except.ok.inj h))

end Resolver

/-! ### Two versions of a module -/

/-- Two places differ in the text of one module, which holds the same lines in two orders. -/
structure Files.Reordered (files files' : Files) (root content content' : String) : Prop where
  normal : Path.normalize root = root
  read : files.read root = .ok content
  read' : files'.read root = .ok content'
  lines : (lines content.toList).Perm (lines content'.toList)
  others : files.without root = files'.without root
  canonical : files.Canonical
  canonical' : files'.Canonical

namespace Files.Reordered

variable {files files' : Files} {root content content' v : String}

theorem symm (h : files.Reordered files' root content content') :
    files'.Reordered files root content' content :=
  ⟨h.normal, h.read', h.read, h.lines.symm, h.others.symm, h.canonical', h.canonical⟩

/-- Both versions hold the same entries, on other lines. -/
theorem exists_atLine (h : files.Reordered files' root content content') {e : Entry}
    (he : e ∈ moduleEntries content) : ∃ n, e.atLine n ∈ moduleEntries content' := by
  obtain ⟨row, hrow, k, he⟩ := exists_of_mem_linesEntries he
  obtain ⟨n, hn⟩ := exists_mem_linesEntries (h.lines.subset hrow) 1
  refine ⟨n, hn _ ?_⟩
  rw [← lineEntries_atLine row k n]
  exact List.mem_map_of_mem he

/-- Both lead to the same other barrels. -/
theorem barrelEdge (h : files.Reordered files' root content content')
    (hedge : files.BarrelEdge root v) (hne : v ≠ root) : files'.BarrelEdge root v := by
  obtain ⟨text, e, target, nested, hread, he, lead, hbarrel, rfl⟩ := hedge
  obtain rfl := Except.ok.inj (hread.symm.trans h.read)
  obtain ⟨n, he'⟩ := h.exists_atLine he
  have hlead := Resolver.leads_without_iff.2 ⟨lead, hne⟩
  rw [h.others] at hlead
  obtain ⟨hloc, htext⟩ := (Resolver.leads_without_iff.1 hlead).1
  exact ⟨content', e.atLine n, target, nested, h.read', he', ⟨hloc, htext⟩, hbarrel, rfl⟩

/-- Without the module, both places are one. -/
theorem without_eq (h : files.Reordered files' root content content') (flatten : Bool) :
    Resolver.without ⟨files', flatten⟩ root = Resolver.without ⟨files, flatten⟩ root := by
  rw [Resolver.without, Resolver.without, h.others]

variable {flatten : Bool} {found found' : List Entry} {q q' : Progress}

/-- **Cycles through the module make no difference** to the lists that are recorded. -/
theorem recorded?_eq (h : files.Reordered files' root content content')
    (hpass : files.CyclesPass root)
    (hrun : Yields (Resolver.resolveFile ⟨files, flatten⟩ root) {} found q)
    (hrun' : Yields (Resolver.resolveFile ⟨files', flatten⟩ root) {} found' q')
    (hedge : files.BarrelEdge root v) (hne : v ≠ root) :
    q'.context.recorded? v = q.context.recorded? v := by
  obtain ⟨list, hlist, hresolves⟩ := Resolver.recorded?_of_acyclicFrom h.canonical h.normal h.read
    (fun v hv _ => hpass.acyclicFrom hv) hrun hedge hne
  obtain ⟨list', hlist', hresolves'⟩ := Resolver.recorded?_of_acyclicFrom h.canonical' h.normal
    h.read' (fun v hv hne => h.others ▸ hpass.acyclicFrom (h.symm.barrelEdge hv hne)) hrun'
    (h.barrelEdge hedge hne) hne
  rw [h.without_eq] at hresolves'
  rw [hlist, hlist', hresolves.unique hresolves']

/-- With the same lists recorded, both versions of the module merge the same groups of entries. -/
theorem exists_groups (h : files.Reordered files' root content content')
    (hrun : Yields (Resolver.resolveFile ⟨files, flatten⟩ root) {} found q)
    (hrun' : Yields (Resolver.resolveFile ⟨files', flatten⟩ root) {} found' q')
    (hlists : ∀ v, files.BarrelEdge root v → v ≠ root →
      q'.context.recorded? v = q.context.recorded? v) :
    ∃ groups groups', List.Forall₂ (Resolver.Gives ⟨files, flatten⟩ root q.context)
        (Text.lines content.toList) groups ∧ groups.Perm groups' ∧
      found.map Entry.unplaced = merged groups.flatten ∧
      found'.map Entry.unplaced = merged groups'.flatten := by
  obtain ⟨groups, hgroups, hfound⟩ := Resolver.exists_gives h.canonical h.normal h.read hrun
  obtain ⟨groups', hgroups', hfound'⟩ := Resolver.exists_gives h.canonical' h.normal h.read' hrun'
  have hgives : List.Forall₂ (Resolver.Gives ⟨files, flatten⟩ root q.context)
      (Text.lines content'.toList) groups' := by
    refine forall₂_imp_of_mem hgroups' fun row hrow group hgive => ?_
    rw [Resolver.Gives, h.without_eq] at hgive
    exact Resolver.Gives.of_recorded h.read (h.lines.symm.subset hrow) hlists hgive
  obtain ⟨groups₁, hgroups₁, hperm⟩ := List.perm_comp_forall₂ h.lines hgives
  obtain rfl := eq_of_forall₂ hgroups hgroups₁ fun _ _ _ hg hg' => hg.unique hg'
  exact ⟨_, groups', hgroups, hperm, hfound, hfound'⟩

end Files.Reordered

/-! ### Modules in memory -/

/-- A module in memory with its lines in another order. -/
theorem MemoryFiles.reordered_add (m : MemoryFiles) {root content content' : String}
    (hread : m.files.read (Path.normalize root) = .ok content)
    (hlines : (lines content.toList).Perm (lines content'.toList)) :
    m.files.Reordered (m.add root content').files (Path.normalize root) content content' := by
  have hstored : m.holds root = true := by
    have hholds : m.holds (Path.normalize root) = true := holds_of_read hread
    rwa [holds, Path.normalize_normalize] at hholds
  refine ⟨Path.normalize_normalize root, hread, ?_, hlines, ?_, m.canonical_files,
    (m.add root content').canonical_files⟩
  · show (m.add root content').read (Path.normalize root) = .ok content'
    rw [read_add, if_pos (Path.normalize_normalize root)]
  · have hcapacity : (m.add root content').entries.length = m.entries.length := by
      unfold holds at hstored
      unfold add
      rw [if_pos hstored, List.length_map]
    rw [Files.without, Files.without, Files.mk.injEq]
    refine ⟨funext fun other => ?_, (holds_add_of_holds hstored content').symm, hcapacity.symm⟩
    show (if _ then _ else m.read other) = if _ then _ else (m.add root content').read other
    split
    · rfl
    · rename_i hne
      rw [read_add, if_neg hne]

/-- Two runs record the same list for each barrel, the module itself apart, to which a statement of
the module leads. -/
def Files.SameLists (files : Files) (root : String) (c c' : Context) : Prop :=
  ∀ v, files.BarrelEdge root v → v ≠ root → c'.recorded? v = c.recorded? v

/-- A call for a path is one for its normal spelling. -/
theorem Resolver.resolveFile_normalize (r : Resolver) (path : String) :
    r.resolveFile (Path.normalize path) = r.resolveFile path := by
  show r.resolvePath _ (Path.normalize path) = r.resolvePath _ path
  unfold resolvePath
  rw [Path.normalize_normalize]

/-- **When the order of the statements makes no difference.** Let a module in memory be resolved from
scratch in two versions that hold the same lines in different orders.

1. If every cycle of barrels that can be reached from the module passes through it, both runs record
   the same lists for the barrels behind its statements.
2. If they record the same lists, the same keys are found. If, besides, no two lines bring different
   entries under one key, the same entries are found, but for their lines. -/
theorem resolveFile_reordered (m : MemoryFiles) (flatten : Bool) {root content content' : String}
    (hread : m.files.read (Path.normalize root) = .ok content)
    (hlines : (lines content.toList).Perm (lines content'.toList)) {found found' : List Entry}
    {q q' : Progress} (h : Yields (Resolver.resolveFile ⟨m.files, flatten⟩ root) {} found q)
    (h' : Yields (Resolver.resolveFile ⟨(m.add root content').files, flatten⟩ root) {} found' q') :
    (m.files.CyclesPass (Path.normalize root) →
      m.files.SameLists (Path.normalize root) q.context q'.context) ∧
    (m.files.SameLists (Path.normalize root) q.context q'.context →
      (∀ key, key ∈ found'.map Entry.mergeKey ↔ key ∈ found.map Entry.mergeKey) ∧
      (Resolver.Uncontested ⟨m.files, flatten⟩ (Path.normalize root) q.context
          (lines content.toList) →
        ∀ x, x ∈ found'.map Entry.unplaced ↔ x ∈ found.map Entry.unplaced)) := by
  have hversions := m.reordered_add hread hlines
  rw [← Resolver.resolveFile_normalize] at h h'
  refine ⟨fun hpass v hedge hne => hversions.recorded?_eq hpass h h' hedge hne, fun hlists => ?_⟩
  obtain ⟨groups, groups', hgroups, hperm, hfound, hfound'⟩ := hversions.exists_groups h h' hlists
  refine ⟨fun key => ?_, fun huncontested x => ?_⟩
  · have hkeys (entries : List Entry) :
        entries.map Entry.mergeKey = (entries.map Entry.unplaced).map Entry.mergeKey := by
      rw [List.map_map]
      rfl
    rw [hkeys found, hkeys found', hfound, hfound', List.mem_map, List.mem_map,
      exists_mem_merged_iff, exists_mem_merged_iff]
    simp only [hperm.flatten.mem_iff]
  · have hagree := (Resolver.uncontested_iff hgroups).1 huncontested
    rw [hfound, hfound', mem_merged_flatten_iff hagree,
      mem_merged_flatten_iff (hagree.of_perm hperm)]
    simp only [hperm.mem_iff]

/-- A barrel that passes on two others, both of which lead back to it. -/
def homewardText : String := "export * from \"./b\";\nexport { T } from \"./c\";\n"

/-- The same statements in the other order. -/
def homewardSwapped : String := "export { T } from \"./c\";\nexport * from \"./b\";\n"

/-- The barrel, the two behind it, and a module. -/
def homewardFiles : MemoryFiles := .ofList
  [("/p/index.ts", homewardText),
    ("/p/b.ts", "export { a } from \"./leaf\";\nexport type { B } from \"./index\";\n"),
    ("/p/c.ts", "export * from \"./b\";\nexport * from \"./index\";\n"),
    ("/p/leaf.ts", "export const a = 1;\n")]

theorem resolveFile_reordered_homeward :
    homewardFiles.files.read (Path.normalize "/p/index.ts") = .ok homewardText ∧
    (lines homewardText.toList).Perm (lines homewardSwapped.toList) ∧
    homewardFiles.files.CyclesPass (Path.normalize "/p/index.ts") ∧
    ∃ found q found' q',
      Yields (Resolver.resolveFile ⟨homewardFiles.files, false⟩ "/p/index.ts") {} found q ∧
      Yields (Resolver.resolveFile ⟨(homewardFiles.add "/p/index.ts" homewardSwapped).files, false⟩
        "/p/index.ts") {} found' q' ∧
      Resolver.Uncontested ⟨homewardFiles.files, false⟩ (Path.normalize "/p/index.ts") q.context
        (lines homewardText.toList) ∧
      ∀ x, x ∈ found'.map Entry.unplaced ↔ x ∈ found.map Entry.unplaced := by
  have hread : homewardFiles.files.read (Path.normalize "/p/index.ts") = .ok homewardText := by
    decide +kernel
  have hlines : (lines homewardText.toList).Perm (lines homewardSwapped.toList) := by decide +kernel
  have hranked : homewardFiles.RankedBut (Path.normalize "/p/index.ts") fun path =>
      ["/p/leaf.ts", "/p/b.ts", "/p/c.ts"].idxOf path := by
    decide +kernel
  obtain ⟨found, h⟩ := exists_yields_of_isOk (p := {})
    (x := Resolver.resolveFile ⟨homewardFiles.files, false⟩ "/p/index.ts") (by decide +kernel)
  obtain ⟨found', h'⟩ := exists_yields_of_isOk (p := {})
    (x := Resolver.resolveFile ⟨(homewardFiles.add "/p/index.ts" homewardSwapped).files, false⟩
      "/p/index.ts") (by decide +kernel)
  have huncontested : Resolver.Uncontested ⟨homewardFiles.files, false⟩
      (Path.normalize "/p/index.ts")
      ((Resolver.resolveFile ⟨homewardFiles.files, false⟩ "/p/index.ts").run.run {}).2.context
      (lines homewardText.toList) :=
    Resolver.uncontested_of_given (by decide +kernel)
  obtain ⟨hlists, hsame⟩ := resolveFile_reordered homewardFiles false hread hlines h h'
  exact ⟨hread, hlines, hranked.cyclesPass, found, _, found', _, h, h', huncontested,
    (hsame (hlists hranked.cyclesPass)).2 huncontested⟩

/-- Both orders of the lines of a module give every name once, and yet they give different entries. -/
def OrderMatters (m : MemoryFiles) (root content content' : String) : Prop :=
  m.files.read (Path.normalize root) = .ok content ∧
  (lines content.toList).Perm (lines content'.toList) ∧
  ∃ found q found' q',
    Yields (Resolver.resolveFile ⟨m.files, false⟩ root) {} found q ∧
    Yields (Resolver.resolveFile ⟨(m.add root content').files, false⟩ root) {} found' q' ∧
    (found.map Entry.exportedName).Nodup ∧ (found'.map Entry.exportedName).Nodup ∧
    ¬∀ x, x ∈ found'.map Entry.unplaced ↔ x ∈ found.map Entry.unplaced

/-- A test for this. -/
theorem orderMatters_of_run {m : MemoryFiles} {root content content' : String}
    (found found' : List Entry) (x : Entry)
    (hread : m.files.read (Path.normalize root) = .ok content)
    (hlines : (lines content.toList).Perm (lines content'.toList))
    (h : ((Resolver.resolveFile ⟨m.files, false⟩ root).run.run {}).1 = .ok found)
    (h' : ((Resolver.resolveFile ⟨(m.add root content').files, false⟩ root).run.run {}).1 =
      .ok found')
    (hnames : (found.map Entry.exportedName).Nodup)
    (hnames' : (found'.map Entry.exportedName).Nodup)
    (hx : x ∈ found) (hmiss : x.unplaced ∉ found'.map Entry.unplaced) :
    OrderMatters m root content content' := by
  obtain ⟨q, h⟩ := exists_yields_of_run h
  obtain ⟨q', h'⟩ := exists_yields_of_run h'
  exact ⟨hread, hlines, found, q, found', q', h, h', hnames, hnames', fun hsame =>
    hmiss ((hsame _).2 (List.mem_map_of_mem hx))⟩

/-- A name from either of two modules. -/
def rivalText : String := "export { A } from \"./one\";\nexport { A } from \"./two\";\n"

/-- The barrel of this text, and the two modules. -/
def rivalFiles : MemoryFiles := .ofList
  [("/p/index.ts", rivalText), ("/p/one.ts", "export const A = 1;\n"),
    ("/p/two.ts", "export const A = 2;\n")]

/-- All of one barrel of a cycle, under a name, and a type from the other. -/
def detourText : String := "export * as n from \"./a\";\nexport { T } from \"./b\";\n"

/-- The barrel of this text, and the cycle: one has a type, and the other passes on all of it. -/
def detourFiles : MemoryFiles := .ofList
  [("/p/index.ts", detourText),
    ("/p/a.ts", "export type { T } from \"./x\";\nexport * as m from \"./b\";\n"),
    ("/p/b.ts", "export * from \"./a\";\n"), ("/p/x.ts", "export type T = 1;\n")]

/-- **Where the order makes a difference.** Of two statements that bring different entries under one
key, the last one counts. And where a cycle is entered first from the one barrel and then from the
other, the type behind the second is missed in one order and found in the other. -/
theorem resolveFile_order_matters :
    OrderMatters rivalFiles "/p/index.ts" rivalText
      "export { A } from \"./two\";\nexport { A } from \"./one\";\n" ∧
    OrderMatters detourFiles "/p/index.ts" detourText
      "export { T } from \"./b\";\nexport * as n from \"./a\";\n" := by
  let rival (source : String) (hsource : source ≠ "") : Entry :=
    { specifier := "A", source := source, kind := .named, originLine := 2,
      specifier_ne_empty := by decide, source_ne_empty := hsource,
      specifier_of_star := by decide }
  let spaced (line : Nat) : Entry :=
    { specifier := "*", source := "./a", kind := .star, asName := some "n", originLine := line,
      specifier_ne_empty := by decide, source_ne_empty := by decide,
      specifier_of_star := fun _ => rfl }
  let passed (typeOnly : Bool) (line : Nat) : Entry :=
    { specifier := "T", source := "./b", kind := .named, isTypeOnly := typeOnly,
      originLine := line, specifier_ne_empty := by decide, source_ne_empty := by decide,
      specifier_of_star := by decide }
  constructor
  · exact orderMatters_of_run [rival "./two" (by decide)] [rival "./one" (by decide)]
      (rival "./two" (by decide))
      (by decide +kernel) (by decide +kernel) (by decide +kernel) (by decide +kernel)
      (by decide) (by decide) (by decide) (by decide)
  · exact orderMatters_of_run [spaced 1, passed false 2] [passed true 1, spaced 2]
      (passed false 2)
      (by decide +kernel) (by decide +kernel) (by decide +kernel) (by decide +kernel)
      (by decide) (by decide) (by decide) (by decide)

end Reexport
