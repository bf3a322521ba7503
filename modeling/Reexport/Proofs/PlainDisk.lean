import Reexport.Proofs.Discovery

/-!
# A disk without links

On a disk of files and directories alone, the absolute path of a place leads there if it leads
anywhere, has no link to be followed, and goes on with the names below the place.

## What is proved

* `Disk.locate_pathOf` — the path of a place leads to the place.
* `Disk.resolve_pathOf` — it is the path of what it leads to.
* `Disk.join_pathOf` — names that are joined to it lead below it.
* `Disk.Reaches.mem_discoverAt`, `Disk.Reaches.found` — the barrels of a directory are found below its
  path, at their places, if the directories on the way are listed.
* `Disk.Reaches.listed_of_locate` — they are, if the path of the barrel leads to it.
-/

namespace Reexport.Disk

variable {d : Disk} {place : List String}

/-! ### Paths and names -/

theorem mem_join_of_mem {between : List Char} {pieces : List (List Char)} {piece : List Char}
    {c : Char} (hpiece : piece ∈ pieces) (hc : c ∈ piece) : c ∈ Text.join between pieces := by
  induction pieces with
  | nil => cases hpiece
  | cons first rest ih =>
    cases rest with
    | nil =>
      obtain rfl := List.mem_singleton.1 hpiece
      exact hc
    | cons next rest =>
      rw [Text.join]
      rcases List.mem_cons.1 hpiece with rfl | hpiece
      · exact List.mem_append_left _ (List.mem_append_left _ hc)
      · exact List.mem_append_right _ (ih hpiece)

/-- The names in a path that can be one of something can be names of something. -/
theorem isNamable_of_mem (h : Path.isNamable (pathOf place) = true) :
    ∀ name ∈ place, Path.isNamable name = true := by
  intro name hname
  unfold Path.isNamable at h ⊢
  simp only [Bool.not_eq_true', List.contains_eq_mem, decide_eq_false_iff_not] at h ⊢
  intro hnull
  refine h ?_
  rw [pathOf, String.toList_append, ← join_eq_intercalate]
  exact List.mem_append_right _ (mem_join_of_mem (List.mem_map_of_mem hname) hnull)

/-- Names below a place are joined to its path. -/
theorem join_pathOf {below : List String} (hne : below ≠ [])
    (hnames : ∀ name ∈ place ++ below, Path.IsName name.toList) :
    Path.join (pathOf place) (String.intercalate "/" below) = pathOf (place ++ below) := by
  rw [List.forall_mem_append] at hnames
  obtain ⟨a, ha, haslashes, hanames⟩ := exists_absolute_pathOf hnames.1
  obtain ⟨b, hb, hbslashes, hbnames⟩ := exists_absolute_join a hne hnames.2
  obtain ⟨c, hc, hcslashes, hcnames⟩ := exists_absolute_pathOf (List.forall_mem_append.2 hnames)
  rw [ha, hb, hc, Path.Absolute.text, Path.Absolute.text, hbslashes, haslashes, hcslashes, hbnames,
    hanames, hcnames, List.map_append]

theorem byteLength_append (s t : String) : byteLength (s ++ t) = byteLength s + byteLength t := by
  simp [byteLength, Text.encode]

theorem exists_join_append (between : List Char) (pieces more : List (List Char)) :
    ∃ rest, Text.join between (pieces ++ more) = Text.join between pieces ++ rest := by
  induction pieces with
  | nil => exact ⟨_, rfl⟩
  | cons piece pieces ih =>
    cases pieces with
    | nil =>
      cases more with
      | nil => exact ⟨[], (List.append_nil _).symm⟩
      | cons next more => exact ⟨_, List.append_assoc _ _ _⟩
    | cons next pieces =>
      obtain ⟨rest, hrest⟩ := ih
      refine ⟨rest, ?_⟩
      simp only [List.cons_append, Text.join] at hrest ⊢
      rw [hrest, ← List.append_assoc]

/-- The path of a place is no longer than those below it. -/
theorem byteLength_pathOf_le (place below : List String) :
    byteLength (pathOf place) ≤ byteLength (pathOf (place ++ below)) := by
  obtain ⟨rest, hrest⟩ :=
    exists_join_append ['/'] (place.map String.toList) (below.map String.toList)
  have hpath : pathOf (place ++ below) = pathOf place ++ String.ofList rest := by
    rw [← String.toList_inj]
    simp only [pathOf, String.toList_append, String.toList_ofList, ← join_eq_intercalate,
      List.map_append, hrest, List.append_assoc]
  rw [hpath, byteLength_append]
  exact Nat.le_add_right _ _

/-! ### Where paths lead -/

/-- **The path of a place leads to the place.** -/
theorem locate_pathOf (hplain : d.root.Plain) (hnames : ∀ name ∈ place, Path.IsName name.toList)
    {found : List String} (h : d.locate false (pathOf place) = .ok found) : found = place := by
  obtain ⟨a, ha, hslashes, hanames⟩ := exists_absolute_pathOf hnames
  rw [ha] at h
  have hwalk := walk_names h
  have hsame : (place.map String.toList).map String.ofList = place := by simp
  rw [hslashes, hanames, hsame] at hwalk
  by_cases hdirectory : d.root.isDirectoryAt [] = true
  · have hrest : walkFrom d.root false (walk d.root false 39) [] place = .ok found := by
      simpa [maxLinks, walk, walkFrom, hdirectory] using hwalk
    exact walkFrom_plain rfl hplain hnames hrest
  · simp [maxLinks, walk, walkFrom, hdirectory] at hwalk

/-- Without links, names are followed one after another. -/
theorem traceFrom_plain {root : Node} (hlinks : ∀ place target, root.at? place ≠ some (.link target))
    {entered : List Spot} {follow : Spot → String → Except DiskFault Trace} {names : List String}
    (hnames : ∀ name ∈ names, Path.IsName name.toList ∧ Path.isNamable name = true) (spot : Spot) :
    traceFrom root entered follow spot names =
      .ok (.ended { spot with place := spot.place ++ names }) := by
  induction names generalizing spot with
  | nil => rw [traceFrom, List.append_nil]
  | cons name names ih =>
    rw [List.forall_mem_cons] at hnames
    obtain ⟨⟨hname, hnamable⟩, hrest⟩ := hnames
    obtain ⟨hblank, hup, -⟩ := Path.isName_toList_iff.1 hname
    rw [traceFrom, if_neg hblank, if_neg hup, if_neg (by simp [hnamable])]
    have hnext : traceFrom root entered follow (spot.enter name) names =
        .ok (.ended { spot with place := spot.place ++ name :: names }) := by
      rw [ih hrest, Spot.enter, List.append_assoc]
      rfl
    cases hnode : root.at? (spot.enter name).place with
    | none => simpa only [hnode] using hnext
    | some node =>
      cases node with
      | link target => exact absurd hnode (hlinks _ target)
      | file _ | directory _ => simpa only [hnode] using hnext

/-- **The path of a place** is the path of what it leads to. -/
theorem resolve_pathOf (hplain : d.root.Plain) (hnames : ∀ name ∈ place, Path.IsName name.toList)
    (hnamable : Path.isNamable (pathOf place) = true) :
    d.resolve (pathOf place) = .ok (pathOf place) := by
  obtain ⟨a, ha, hslashes, hanames⟩ := exists_absolute_pathOf hnames
  have hsame : (place.map String.toList).map String.ofList = place := by simp
  have htrace : trace d.root (2 * d.root.countLinks + 1) [] ⟨false, d.here⟩
      (Path.plain (pathOf place)) = .ok (.ended ⟨true, place⟩) := by
    rw [ha, a.plain_text, trace, Spot.start, if_pos a.isAbsolute_text, segments_text, hslashes,
      hanames, hsame]
    by_cases hempty : place = []
    · rw [hempty]
      rfl
    · rw [if_neg (by simpa using hempty)]
      exact traceFrom_plain hplain.noLink
        (fun name hname => ⟨hnames name hname, isNamable_of_mem hnamable name hname⟩) ⟨true, []⟩
  rw [resolve, htrace]
  rfl

/-! ### Directories -/

/-- On a disk without links, the path of a place leads to a directory, with what is in it. -/
structure Reaches (d : Disk) (place : List String) (tree : Node) : Prop where
  plain : d.root.Plain
  stands : d.root.at? place = some tree
  leads : d.isDirectory (pathOf place) = true

namespace Reaches

variable {tree : Node} (h : d.Reaches place tree)

include h

theorem isName : ∀ name ∈ place, Path.IsName name.toList :=
  h.plain.tidy.isName_of_at? h.stands

theorem locate : d.locate false (pathOf place) = .ok place := by
  have hleads := h.leads
  unfold isDirectory at hleads
  cases hnode : d.node (pathOf place) with
  | error fault =>
    rw [hnode] at hleads
    cases hleads
  | ok node =>
    obtain ⟨found, hlocate, -⟩ := node_eq_ok_iff.1 hnode
    obtain rfl := locate_pathOf h.plain h.isName hlocate
    exact hlocate

theorem node : d.node (pathOf place) = .ok tree :=
  node_eq_ok_iff.2 ⟨place, h.locate, h.stands⟩

theorem directoryPath : directoryPath d (pathOf place) = .ok (pathOf place) := by
  have hresolve := resolve_pathOf h.plain h.isName (locate_eq_ok_iff.1 h.locate).1
  have hleads := h.leads
  rw [isDirectory, h.node] at hleads
  rw [Reexport.directoryPath, hresolve]
  cases tree with
  | directory entries => simp only [Except.mapError, bind, Except.bind, h.node]
  | file _ | link _ => cases hleads

section Barrel

variable {names below : List String}
  (hbarrel : tree.IsBarrel names (d.isDirectoryBelow (pathOf place)) below)

include hbarrel

/-- The path of a barrel is that of its place. -/
theorem absolutePath_below :
    (DiscoveredFile.below (pathOf place) below).absolutePath = pathOf (place ++ below) := by
  refine join_pathOf hbarrel.ne_nil fun name hname => ?_
  rcases List.mem_append.1 hname with hname | hname
  · exact h.isName name hname
  · exact hbarrel.isName (h.plain.at? h.stands).tidy name hname

theorem placeBelow_below :
    (DiscoveredFile.below (pathOf place) below).placeBelow place = place ++ below := by
  rw [DiscoveredFile.placeBelow, hbarrel.segments_relativePath (h.plain.at? h.stands).tidy]

/-- Its path leads to its place, if anywhere. -/
theorem found_below : d.Found (DiscoveredFile.below (pathOf place) below) (place ++ below) := by
  obtain ⟨a, ha, -⟩ := exists_absolute_pathOf h.isName
  rw [ha]
  exact Disk.found_below (ha ▸ h.locate) h.stands (h.plain.at? h.stands) hbarrel

/-- **A barrel of a directory** is found below it, if the directories on the way are listed. -/
theorem mem_discoverAt (hlisted : Node.Listed (Rights.all.listsBelow (pathOf place)) below) :
    DiscoveredFile.below (pathOf place) below ∈ discoverAt d (pathOf place) names :=
  (mem_discoverAt_iff h.node (h.plain.at? h.stands).tidy).2 ⟨below, hbarrel, hlisted, rfl⟩

/-- **If the path of a barrel leads to it**, then the directories on the way are listed: their paths are
no longer than its own. -/
theorem listed_of_locate
    (hlocate : d.locate false (DiscoveredFile.below (pathOf place) below).absolutePath =
      .ok (place ++ below)) : Node.Listed (Rights.all.listsBelow (pathOf place)) below := by
  intro directory hprefix
  by_cases hne : directory = []
  · rw [hne]
    exact Rights.lists_all_iff.2 (locate_eq_ok_iff.1 h.locate).2.1
  · obtain ⟨rest, hrest⟩ := hprefix.trans (List.dropLast_prefix below)
    have hnames : ∀ name ∈ place ++ directory, Path.IsName name.toList := by
      have hall := hbarrel.isName (h.plain.at? h.stands).tidy
      rw [← hrest, List.forall_mem_append] at hall
      exact List.forall_mem_append.2 ⟨h.isName, hall.1⟩
    have hshort := (locate_eq_ok_iff.1 hlocate).2.1
    rw [h.absolutePath_below hbarrel, ← hrest, ← List.append_assoc] at hshort
    rw [Rights.listsBelow_of_ne_nil hne, Rights.lists_all_iff, DiscoveredFile.below,
      join_pathOf hne hnames]
    exact Nat.le_trans (byteLength_pathOf_le (place ++ directory) rest) hshort

end Barrel

/-- Where a file is found, the directories on the way are listed. -/
theorem listed_of_mem_discoverAt {names below : List String} {file : DiscoveredFile}
    (hfile : file ∈ discoverAt d (pathOf place) names)
    (hplace : file.placeBelow place = place ++ below) :
    Node.Listed (Rights.all.listsBelow (pathOf place)) below := by
  obtain ⟨other, hother, hlisted, rfl⟩ :=
    (mem_discoverAt_iff h.node (h.plain.at? h.stands).tidy).1 hfile
  rw [h.placeBelow_below hother] at hplace
  rwa [← List.append_cancel_left hplace]

/-- Every file that is found below the directory stands at a place of its own. -/
theorem found (names : List String) :
    ((discoverAt d (pathOf place) names).map (DiscoveredFile.placeBelow place)).Nodup ∧
      ∀ file ∈ discoverAt d (pathOf place) names, d.Found file (file.placeBelow place) := by
  obtain ⟨a, ha, -⟩ := exists_absolute_pathOf h.isName
  rw [ha]
  exact found_discoverAt (ha ▸ h.locate) h.stands (h.plain.at? h.stands) names

end Reaches

end Reexport.Disk
