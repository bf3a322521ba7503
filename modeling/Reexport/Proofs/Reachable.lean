import Mathlib.Logic.Relation
import Reexport.Proofs.Endings
import Reexport.Proofs.Exports
import Reexport.Proofs.Traversal

/-!
# The modules that are taken up

A call for a module takes up the barrels that can be reached from it, each one under its normal path,
and no other module. `Files.BarrelEdge` is one step: from a module to a barrel to which one of its
entries leads, in whatever form the entry passes the barrel's names on.

That nothing else is taken up is a fact about each call: whatever `Spreads` from a module can be
reached from it. That nothing is missing follows from `Done`, which says of each module taken up that
the barrels behind its entries are taken up too.

## What is proved

* `spreads_resolvePath`, `spreads_resolveWithin` — a call for a module takes up, besides what was
  taken up before, only modules that can be reached from it, and is done with each of them when it
  ends: the module is recorded, or cannot be read.
* `visited_iff_reachable` — after a call from scratch, the modules that were taken up are those that
  can be reached.
* `resolveFile_visits` — in memory, such a call ends exactly if all it has to scan can be scanned, and
  then each of these modules is recorded.
-/

namespace Reexport

open Resolving Relation

/-- An entry of the first module leads to the second, which is a barrel. Both are given by their
normal paths. -/
def Files.BarrelEdge (files : Files) (path next : String) : Prop :=
  ∃ content e target nested, files.read path = .ok content ∧ e ∈ moduleEntries content ∧
    Resolver.Leads files (Path.directory path) e target nested ∧
    isBarrel (moduleEntries nested) = true ∧ next = Path.normalize target

namespace Resolver

variable {r : Resolver} {descend : String → Resolving (List Entry)} {path root v : String}
  {c c' : Context} {p q : Progress}

/-! ### Nothing else is taken up -/

/-- The resolver is done with a module: it is recorded, or cannot be read. -/
def Settled (files : Files) (c : Context) (v : String) : Prop :=
  (∃ found, c.recorded? v = some found) ∨ ∀ content, files.read v ≠ .ok content

theorem Settled.mono {files : Files} (h : Settled files c v) (hgrows : c.Grows c')
    (hv : v ∈ c.visited) : Settled files c' v := by
  rcases h with ⟨found, hfound⟩ | hread
  · left
    exact ⟨found, by rw [hgrows.kept v hv, hfound]⟩
  · right
    exact hread

theorem Settled.record {files : Files} (h : Settled files c v) (path : String)
    (found : List Entry) : Settled files (c.record path found) v := by
  rcases h with ⟨old, hold⟩ | hread
  · left
    rw [Context.recorded?_record]
    split
    · exact ⟨found, rfl⟩
    · exact ⟨old, hold⟩
  · right
    exact hread

/-- What a call for the module at a normal path does to the context. -/
structure Spreads (files : Files) (path : String) (c c' : Context) : Prop where
  /-- The context grows. -/
  grows : c.Grows c'
  /-- What is taken up can be reached from the module, and the call is done with it. -/
  taken : ∀ v ∈ c'.visited, v ∈ c.visited ∨
    ReflTransGen files.BarrelEdge path v ∧ Settled files c' v

namespace Spreads

variable {files : Files}

theorem refl (path : String) (c : Context) : Spreads files path c c :=
  ⟨.refl c, fun _ hv => .inl hv⟩

theorem trans {c'' : Context} (h : Spreads files path c c') (h' : Spreads files path c' c'') :
    Spreads files path c c'' := by
  refine ⟨h.grows.trans h'.grows, fun v hv => ?_⟩
  rcases h'.taken v hv with hv | hnew
  · exact (h.taken v hv).imp_right fun hold => ⟨hold.1, hold.2.mono h'.grows hv⟩
  · exact .inr hnew

/-- What can be reached from a barrel behind an entry can be reached from the module. -/
theorem head {next : String} (hedge : files.BarrelEdge path next) (h : Spreads files next c c') :
    Spreads files path c c' :=
  ⟨h.grows, fun v hv => (h.taken v hv).imp_right fun hnew => ⟨.head hedge hnew.1, hnew.2⟩⟩

end Spreads

/-- One entry of a module. -/
theorem spreads_resolveEntry
    (hdescend : ∀ {target p nested q}, Yields (descend target) p nested q →
      Spreads r.files (Path.normalize target) p.context q.context)
    {content : String} (hread : r.files.read path = .ok content) {e : Entry}
    (he : e ∈ moduleEntries content) {new : List Entry}
    (h : Yields (r.resolveEntry descend (Path.directory path) e) p new q) :
    Spreads r.files path p.context q.context := by
  cases resolveEntry_call h with
  | astray _ hq =>
    rw [hq]
    exact .refl path p.context
  | barrel lead hbarrel ho hnested =>
    have hspreads := hdescend hnested
    rw [ho] at hspreads
    exact hspreads.head ⟨content, e, _, _, hread, he, lead, hbarrel, rfl⟩
  | leaf _ _ _ hq =>
    rw [hq]
    exact .refl path p.context

/-- One call, if the calls below it spread from the modules they are for. -/
theorem spreads_resolvePath (hgrowing : ∀ target, Growing (descend target))
    (hdescend : ∀ {target p nested q}, Yields (descend target) p nested q →
      Spreads r.files (Path.normalize target) p.context q.context)
    {found : List Entry} (h : Yields (r.resolvePath descend path) p found q) :
    Spreads r.files (Path.normalize path) p.context q.context := by
  have hgrows := (growing_resolvePath hgrowing path).yields h
  cases resolvePath_call h with
  | recorded => exact .refl _ p.context
  | cycle _ _ hq =>
    rw [hq]
    exact .refl _ p.context
  | unreadable _ _ hread hq =>
    refine ⟨hgrows, fun v hv => ?_⟩
    rw [hq] at hv
    rcases Context.mem_visited_visit.1 hv with hv | rfl
    · exact .inl hv
    · exact .inr ⟨.refl, .inr (read_ne_ok_of_readResult hread)⟩
  | resolved _ _ hread ho hnews hq =>
    obtain ⟨hspreads, -⟩ := yields_mapM (R := fun _ _ => True)
      (fun o' => Spreads r.files (Path.normalize path) (p.context.visit (Path.normalize path))
        o'.context)
      (fun e he _ _ _ hp h => ⟨hp.trans (spreads_resolveEntry hdescend hread he h), trivial⟩)
      (by rw [ho]; exact .refl _ _) hnews
    refine ⟨hgrows, fun v hv => ?_⟩
    rw [hq, Context.visited_record] at hv
    rw [hq]
    rcases hspreads.taken v hv with hv | ⟨hreach, hsettled⟩
    · rcases Context.mem_visited_visit.1 hv with hv | rfl
      · exact .inl hv
      · exact .inr ⟨.refl, .inl ⟨_, by rw [Context.recorded?_record, if_pos rfl]⟩⟩
    · exact .inr ⟨hreach, hsettled.record _ _⟩

/-- **A call spreads from the module it is for**, at every depth. -/
theorem spreads_resolveWithin (depth : Nat) {found : List Entry}
    (h : Yields (r.resolveWithin depth path) p found q) :
    Spreads r.files (Path.normalize path) p.context q.context := by
  induction depth generalizing path found p q with
  | zero =>
    obtain ⟨-, rfl⟩ := yields_pure_iff.1 h
    exact .refl _ _
  | succ depth ih => exact spreads_resolvePath (growing_resolveWithin r depth) ih h

/-! ### Nothing is missing -/

/-- The barrels that can be reached from a module that is done are taken up. -/
theorem mem_visited_of_reachable (hdone : ∀ v ∈ c.visited, Done r c v) (hroot : root ∈ c.visited)
    (h : ReflTransGen r.files.BarrelEdge root v) : v ∈ c.visited := by
  induction h with
  | refl => exact hroot
  | tail _ hedge ih =>
    obtain ⟨content, e, target, nested, hread, he, lead, hbarrel, rfl⟩ := hedge
    exact (hdone _ ih content hread e he).barrel lead hbarrel

/-- **The modules that are taken up are those that can be reached**, and the call is done with each
of them. -/
theorem visited_iff_reachable {found : List Entry} (h : Yields (r.resolveFile root) {} found q) :
    (∀ v, v ∈ q.context.visited ↔ ReflTransGen r.files.BarrelEdge (Path.normalize root) v) ∧
    ∀ v ∈ q.context.visited, Settled r.files q.context v ∧ Done r q.context v := by
  obtain ⟨hroot, hdone⟩ := done_of_resolveFile rfl h
  have hspreads := spreads_resolveWithin _ h
  have htaken (v : String) (hv : v ∈ q.context.visited) :=
    (hspreads.taken v hv).resolve_left List.not_mem_nil
  refine ⟨fun v => ⟨fun hv => (htaken v hv).1, ?_⟩, fun v hv => ⟨(htaken v hv).2, hdone v hv⟩⟩
  exact mem_visited_of_reachable hdone hroot

/-! ### Calls that end -/

/-- Whatever is to be scanned for a module can be. -/
def Scannable (r : Resolver) (root : String) : Prop :=
  ∀ path content e target nested, ReflTransGen r.files.BarrelEdge (Path.normalize root) path →
    r.files.read path = .ok content → e ∈ moduleEntries content →
    Leads r.files (Path.directory path) e target nested →
    isBarrel (moduleEntries nested) = false → r.Scans e target nested →
    ∃ s, scan target nested = .ok s

/-- In memory, nothing else stops a call. -/
theorem unhindered_of_scannable (m : MemoryFiles) {flatten : Bool}
    (h : Scannable ⟨m.files, flatten⟩ root) : Unhindered ⟨m.files, flatten⟩ fun path =>
      ReflTransGen m.files.BarrelEdge (Path.normalize root) (Path.normalize path) where
  read := exists_readResult m
  entry hpath _ hread he :=
    ⟨fun lead hbarrel => hpath.tail ⟨_, _, _, _, hread, he, lead, hbarrel, rfl⟩,
      fun lead hleaf => exists_leafResult_iff.2 (h _ _ _ _ _ hpath hread he lead hleaf)⟩

theorem ends_resolveFile (m : MemoryFiles) {flatten : Bool}
    (h : Scannable ⟨m.files, flatten⟩ root) (p : Progress) :
    Ends (resolveFile ⟨m.files, flatten⟩ root) p :=
  ends_resolveWithin (unhindered_of_scannable m h) _ .refl p

/-- In memory, a call from scratch ends exactly if all that it has to scan can be scanned. -/
theorem ends_resolveFile_iff (m : MemoryFiles) (flatten : Bool) (root : String) :
    Ends (resolveFile ⟨m.files, flatten⟩ root) {} ↔ Scannable ⟨m.files, flatten⟩ root := by
  constructor
  · rintro ⟨found, q, h⟩ path content e target nested hreach hread he lead hleaf
    obtain ⟨hvisited, hdone⟩ := visited_iff_reachable h
    have hfollowed := (hdone path ((hvisited path).2 hreach)).2 content hread e he
    exact exists_leafResult_iff.1 (hfollowed.leaf lead hleaf)
  · intro h
    exact ends_resolveFile m h {}

end Resolver

/-- A barrel that can be read has a normal path that can. -/
theorem exists_read_of_reachable {files : Files} (hfiles : files.Canonical) {root path content : String}
    (hroot : files.read root = .ok content)
    (h : ReflTransGen files.BarrelEdge (Path.normalize root) path) :
    ∃ content, files.read path = .ok content := by
  cases h with
  | refl => exact ⟨content, by rw [hfiles, hroot]⟩
  | tail _ hedge =>
    obtain ⟨_, _, target, nested, _, _, lead, _, rfl⟩ := hedge
    exact ⟨nested, by rw [hfiles, lead.read]⟩

/-- **The traversal takes up exactly the barrels that can be reached.** In memory, a call from scratch
for a module that can be read ends exactly if all that it has to scan can be scanned. When it has
ended, the modules taken up are the module itself and the barrels that can be reached from it, on
whatever cycles they lie, each under its normal path, and all of them are recorded. -/
theorem resolveFile_visits (m : MemoryFiles) (flatten : Bool) {root content : String}
    (hroot : m.files.read root = .ok content) :
    ((∃ found q, Yields (Resolver.resolveFile ⟨m.files, flatten⟩ root) {} found q) ↔
      Resolver.Scannable ⟨m.files, flatten⟩ root) ∧
    ∀ found q, Yields (Resolver.resolveFile ⟨m.files, flatten⟩ root) {} found q →
      (∀ v, v ∈ q.context.visited ↔
        ReflTransGen m.files.BarrelEdge (Path.normalize root) v) ∧
      ∀ v, v ∈ q.context.resolved.map Prod.fst ↔ v ∈ q.context.visited := by
  refine ⟨Resolver.ends_resolveFile_iff m flatten root, fun found q h => ?_⟩
  obtain ⟨hvisited, hdone⟩ := Resolver.visited_iff_reachable h
  refine ⟨hvisited, fun v => ⟨fun hv => ?_, fun hv => ?_⟩⟩
  · have hgrows := (Resolver.growing_resolveFile _ root).yields h
    obtain ⟨known, hknown, rfl⟩ := List.mem_map.1 hv
    exact hgrows.recorded nofun known hknown
  · rcases (hdone v hv).1 with hrecorded | hread
    · exact Context.mem_keys_iff.2 hrecorded
    · obtain ⟨content, hcontent⟩ :=
        exists_read_of_reachable m.canonical_files hroot ((hvisited v).1 hv)
      exact absurd hcontent (hread content)

/-- A ring of three barrels, linked by names, a namespace and types, with a module behind it that is
no barrel, and a barrel that leads to the ring. -/
def meshFiles : MemoryFiles :=
  .ofList [("/p/a.ts", "export { x } from \"./b\";\nexport * as n from \"./c\";"),
    ("/p/b.ts", "export * from \"./leaf\";\nexport * from \"pkg\";"),
    ("/p/c.ts", "export type { y } from \"./a\";"), ("/p/leaf.ts", "export const x = 1;"),
    ("/p/d.ts", "export * from \"./a\";")]

theorem resolveFile_visits_mesh :
    (∃ content, meshFiles.files.read "/p/./a.ts" = .ok content) ∧
    Resolver.Scannable ⟨meshFiles.files, true⟩ "/p/./a.ts" ∧
    ∃ found q, Yields (Resolver.resolveFile ⟨meshFiles.files, true⟩ "/p/./a.ts") {} found q ∧
      q.context.visited = ["/p/a.ts", "/p/b.ts", "/p/c.ts"] ∧
      (∀ v, v ∈ q.context.visited ↔
        ReflTransGen meshFiles.files.BarrelEdge (Path.normalize "/p/./a.ts") v) ∧
      ∀ v, v ∈ q.context.resolved.map Prod.fst ↔ v ∈ q.context.visited := by
  have hroot : meshFiles.files.read "/p/./a.ts" =
      .ok "export { x } from \"./b\";\nexport * as n from \"./c\";" := by decide +kernel
  have hrun : ((Resolver.resolveFile ⟨meshFiles.files, true⟩ "/p/./a.ts").run.run {}).1.isOk = true ∧
      ((Resolver.resolveFile ⟨meshFiles.files, true⟩ "/p/./a.ts").run.run {}).2.context.visited =
        ["/p/a.ts", "/p/b.ts", "/p/c.ts"] := by decide +kernel
  obtain ⟨found, hfound⟩ := exists_yields_of_isOk hrun.1
  obtain ⟨hends, hvisits⟩ := resolveFile_visits meshFiles true hroot
  obtain ⟨hreach, hkeys⟩ := hvisits found _ hfound
  exact ⟨⟨_, hroot⟩, hends.1 ⟨found, _, hfound⟩, found, _, hfound, hrun.2, hreach, hkeys⟩

end Reexport
