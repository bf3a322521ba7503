import Reexport.Proofs.BarrelPlaces

/-!
# Barrels found below a directory

The path of a directory with its links followed is an absolute path of names. The files found below it
are the barrels of its tree. If that is a plain tree, then the path of each of them leads to the place
of its names, and no two of them have one place.

## What is proved

* `exists_absolute_of_directoryPath` — the path of the directory is absolute and normal.
* `Disk.traceFrom_cons_cases` — what following a path does at its next segment.
* `Disk.locate_enter` — the path of a barrel leads to its place.
* `mem_discoverAt_iff` — which files are found below a directory, whatever may be listed.
* `found_discoverAt`, `exists_places` — in a plain tree, every barrel that is found stands at a place
  of its own.
-/

namespace Reexport

open Text

/-! ### The path of the directory -/

namespace Disk

/-- The names from the root to a spot are names. -/
def Spot.Named (s : Spot) : Prop :=
  ∀ name ∈ s.place, Path.IsName name.toList

/-- What a path can lead to: a spot with names, or another absolute path. -/
def Trace.Sound : Trace → Prop
  | ended spot => spot.Named
  | circling path => Path.isAbsolute path = true

theorem slash_not_mem_of_mem_segments {path name : String} (h : name ∈ segments path) :
    '/' ∉ name.toList := by
  obtain ⟨s, hs, rfl⟩ := List.mem_map.1 h
  rw [String.toList_ofList]
  exact not_mem_of_mem_split hs

theorem join_eq_intercalate (names : List String) :
    Text.join ['/'] (names.map String.toList) = (String.intercalate "/" names).toList := by
  rw [String.toList_intercalate]
  induction names with
  | nil => rfl
  | cons name names ih =>
    cases names with
    | nil => simp [Text.join]
    | cons next names =>
      rw [List.map_cons, List.map_cons, Text.join, ← List.map_cons, ih, List.map_cons,
        List.intercalate_cons_cons]
      rfl

/-- The absolute path of names. -/
theorem exists_absolute_pathOf {place : List String} (h : ∀ name ∈ place, Path.IsName name.toList) :
    ∃ a : Path.Absolute, pathOf place = a.text ∧ a.slashes = 1 ∧
      a.names = place.map String.toList := by
  refine ⟨⟨false, place.map String.toList, ?_⟩, ?_, rfl, rfl⟩
  · intro s hs
    obtain ⟨name, hname, rfl⟩ := List.mem_map.1 hs
    exact h name hname
  · rw [← String.toList_inj, Path.Absolute.toList_text]
    show _ = _ ++ Text.join ['/'] (place.map String.toList)
    rw [join_eq_intercalate]
    simp [pathOf, Path.Absolute.slashes]

theorem isAbsolute_join {path : String} (h : Path.isAbsolute path = true) (rest : String) :
    Path.isAbsolute (Path.join path rest) = true := by
  have happend (tail : String) : Path.isAbsolute (path ++ tail) = true := by
    unfold Path.isAbsolute at h ⊢
    rw [String.toList_append]
    cases hpath : path.toList with
    | nil => simp [hpath] at h
    | cons c cs => simpa [hpath] using h
  unfold Path.join
  split
  · assumption
  · split
    · exact happend rest
    · rw [String.append_assoc]
      exact happend _

theorem Spot.Named.isAbsolute_path {s : Spot} (h : s.Named) : Path.isAbsolute s.path = true := by
  obtain ⟨a, ha, -⟩ := exists_absolute_pathOf h
  rw [path, ha]
  exact a.isAbsolute_text

theorem Spot.Named.leave {s : Spot} (h : s.Named) : s.leave.Named :=
  fun name hname => h name (List.dropLast_subset _ hname)

theorem Spot.Named.enter {s : Spot} (h : s.Named) {name : String} (hname : Path.IsName name.toList) :
    (s.enter name).Named := by
  intro n hn
  rcases List.mem_append.1 hn with hn | hn
  · exact h n hn
  · rw [List.mem_singleton.1 hn]
    exact hname

/-- **One name** leads on from a spot with names, or back to a link on an absolute path, if following
a link does. -/
theorem traceFrom_cons_cases {root : Node} {entered : List Spot}
    {follow : Spot → String → Except DiskFault Trace}
    (hfollow : ∀ {spot path t}, spot.Named → follow spot path = .ok t → t.Sound)
    {name : String} (hname : '/' ∉ name.toList) {rest : List String} {spot : Spot} {t : Trace}
    (hspot : spot.Named) (h : traceFrom root entered follow spot (name :: rest) = .ok t) :
    (∃ next : Spot, next.Named ∧ traceFrom root entered follow next rest = .ok t) ∨
      ∃ path, Path.isAbsolute path = true ∧
        t = .circling (Path.join path (String.intercalate "/" rest)) := by
  rw [traceFrom] at h
  by_cases hblank : name = "" ∨ name = "."
  · rw [if_pos hblank] at h
    exact .inl ⟨spot, hspot, h⟩
  rw [if_neg hblank] at h
  by_cases hup : name = ".."
  · rw [if_pos hup] at h
    exact .inl ⟨_, hspot.leave, h⟩
  rw [if_neg hup] at h
  by_cases hnull : (!Path.isNamable name) = true
  · rw [if_pos hnull] at h
    cases h
  rw [if_neg hnull] at h
  have hnext : (spot.enter name).Named :=
    hspot.enter (Path.isName_toList_iff.2 ⟨hblank, hup, hname⟩)
  dsimp only at h
  split at h
  · split at h
    · exact .inr ⟨_, hnext.isAbsolute_path, (Except.ok.inj h).symm⟩
    · split at h
      · rename_i hlink
        exact .inl ⟨_, hfollow hnext hlink, h⟩
      · rename_i hlink
        exact .inr ⟨_, hfollow hnext hlink, (Except.ok.inj h).symm⟩
      · cases h
  · exact .inl ⟨_, hnext, h⟩

/-- Following names from a spot keeps names, if following a link does. -/
theorem sound_traceFrom {root : Node} {entered : List Spot}
    {follow : Spot → String → Except DiskFault Trace}
    (hfollow : ∀ {spot path t}, spot.Named → follow spot path = .ok t → t.Sound)
    {names : List String} (hnames : ∀ name ∈ names, '/' ∉ name.toList) {spot : Spot} {t : Trace}
    (hspot : spot.Named) (h : traceFrom root entered follow spot names = .ok t) : t.Sound := by
  induction names generalizing spot with
  | nil =>
    obtain rfl := Except.ok.inj h
    exact hspot
  | cons name names ih =>
    rw [List.forall_mem_cons] at hnames
    rcases traceFrom_cons_cases hfollow hnames.1 hspot h with
      ⟨next, hnext, h⟩ | ⟨path, habsolute, rfl⟩
    · exact ih hnames.2 hnext h
    · exact isAbsolute_join habsolute _

theorem sound_trace {root : Node} {depth : Nat} {entered : List Spot} {spot : Spot} {path : String}
    {t : Trace} (hspot : spot.Named) (h : trace root depth entered spot path = .ok t) : t.Sound := by
  induction depth generalizing entered spot path t with
  | zero => cases h
  | succ depth ih =>
    refine sound_traceFrom (fun hlink hfollow => ih hlink.leave hfollow)
      (fun name hname => slash_not_mem_of_mem_segments hname) ?_ h
    unfold Spot.start
    split
    · exact nofun
    · exact hspot

/-- What a path leads to has an absolute path of names. -/
theorem exists_absolute_of_resolve {d : Disk} (hhere : ∀ name ∈ d.here, Path.IsName name.toList)
    {path root : String} (h : d.resolve path = .ok root) : ∃ a : Path.Absolute, root = a.text := by
  have hspot : Spot.Named ⟨false, d.here⟩ := hhere
  unfold resolve at h
  split at h
  · rename_i spot htrace
    obtain rfl := Except.ok.inj h
    obtain ⟨a, ha, -⟩ := exists_absolute_pathOf (sound_trace hspot htrace)
    exact ⟨a, ha⟩
  · rename_i other htrace
    obtain rfl := Except.ok.inj h
    exact Path.exists_absolute (sound_trace hspot htrace)
  · cases h

end Disk

/-- **The path of a directory** with its links followed is an absolute path of names, and leads to a
directory. -/
theorem exists_absolute_of_directoryPath {d : Disk}
    (hhere : ∀ name ∈ d.here, Path.IsName name.toList) {path root : String}
    (h : directoryPath d path = .ok root) :
    ∃ a : Path.Absolute, root = a.text ∧ ∃ entries, d.node a.text = .ok (.directory entries) := by
  unfold directoryPath at h
  cases hresolve : d.resolve path with
  | error fault =>
    rw [hresolve] at h
    cases h
  | ok resolved =>
    rw [hresolve] at h
    obtain ⟨a, rfl⟩ := Disk.exists_absolute_of_resolve hhere hresolve
    refine ⟨a, ?_⟩
    cases hnode : d.node a.text with
    | error fault => cases fault <;> simp [hnode, bind, Except.bind, Except.mapError] at h
    | ok node =>
      cases node with
      | file _ => simp [hnode, bind, Except.bind, Except.mapError] at h
      | link _ => simp [hnode, bind, Except.bind, Except.mapError] at h
      | directory entries =>
        simp only [hnode, bind, Except.bind, Except.mapError, Except.ok.injEq] at h
        exact ⟨h.symm, entries, rfl⟩

/-! ### The paths of barrels -/

namespace Disk

variable {d : Disk}

theorem locate_eq_ok_iff {create : Bool} {path : String} {place : List String} :
    d.locate create path = .ok place ↔
      Path.isNamable path = true ∧ byteLength path ≤ maxPath ∧ path ≠ "" ∧
        walk d.root create maxLinks (if Path.isAbsolute path then [] else d.here) (segments path) =
          .ok place := by
  unfold locate
  by_cases hnamable : Path.isNamable path = true
  · rw [if_neg (by simp [hnamable])]
    by_cases hlong : maxPath < byteLength path
    · rw [if_pos hlong]
      exact iff_of_false nofun fun h => Nat.not_le_of_lt hlong h.2.1
    rw [if_neg hlong]
    by_cases hempty : path = ""
    · rw [if_pos hempty]
      exact iff_of_false nofun fun h => h.2.2.1 hempty
    · rw [if_neg hempty]
      simp [hnamable, Nat.le_of_not_lt hlong, hempty]
  · rw [if_pos (by simpa using hnamable)]
    exact iff_of_false nofun fun h => hnamable h.1

theorem walk_of_locate {create : Bool} {path : String} {place : List String}
    (h : d.locate create path = .ok place) : walk d.root create maxLinks
      (if Path.isAbsolute path then [] else d.here) (segments path) = .ok place :=
  (locate_eq_ok_iff.1 h).2.2.2

/-- A path that leads to what is there leads there as well if its last name may be new. -/
theorem locate_true_of_false {path : String} {place : List String}
    (h : d.locate false path = .ok place) : d.locate true path = .ok place := by
  obtain ⟨hnamable, hlength, hne, hwalk⟩ := locate_eq_ok_iff.1 h
  obtain ⟨follow, hfollow⟩ := walk_append hwalk true []
  rw [List.append_nil] at hfollow
  exact locate_eq_ok_iff.2 ⟨hnamable, hlength, hne, hfollow⟩

theorem segments_text (a : Path.Absolute) : segments a.text =
    List.replicate a.slashes "" ++ (if a.names = [] then [""] else a.names.map String.ofList) := by
  rw [segments, a.split_text, List.map_append, List.map_replicate]
  by_cases hne : a.names = []
  · rw [if_pos hne, if_pos hne]
    rfl
  · rw [if_neg hne, if_neg hne]

/-- Where the path of a directory leads, its segments lead, but for the empty one that stands for the
names of the root itself. -/
theorem walk_names {a : Path.Absolute} {place : List String}
    (h : d.locate false a.text = .ok place) : walk d.root false maxLinks []
      (List.replicate a.slashes "" ++ a.names.map String.ofList) = .ok place := by
  have hwalk := walk_of_locate h
  rw [a.isAbsolute_text, if_pos rfl, segments_text] at hwalk
  by_cases hne : a.names = []
  · rw [if_pos hne] at hwalk
    have hskip (n : Nat) : walkFrom d.root false (walk d.root false 39) []
        (List.replicate n "" ++ [""]) = .ok place →
          walkFrom d.root false (walk d.root false 39) [] (List.replicate n "") = .ok place := by
      intro hall
      induction n with
      | zero =>
        by_cases hdirectory : d.root.isDirectoryAt [] = true
        · simpa [walkFrom, hdirectory] using hall
        · simp [walkFrom, hdirectory] at hall
      | succ n ih =>
        by_cases hdirectory : d.root.isDirectoryAt [] = true
        · simp only [List.replicate_succ, List.cons_append, walkFrom, hdirectory] at hall ⊢
          simpa using ih (by simpa using hall)
        · simp [List.replicate_succ, walkFrom, hdirectory] at hall
    rw [hne, List.map_nil, List.append_nil]
    exact hskip _ hwalk
  · rwa [if_neg hne] at hwalk

/-- Below an absolute path, names lead to an absolute path. -/
theorem exists_absolute_join (a : Path.Absolute) {below : List String} (hne : below ≠ [])
    (hnames : ∀ name ∈ below, Path.IsName name.toList) : ∃ b : Path.Absolute,
      Path.join a.text (String.intercalate "/" below) = b.text ∧ b.slashes = a.slashes ∧
        b.names = a.names ++ below.map String.toList := by
  have hnamed : ∀ s ∈ below.map String.toList, Path.IsName s := by
    intro s hs
    obtain ⟨name, hname, rfl⟩ := List.mem_map.1 hs
    exact hnames name hname
  refine ⟨a.enter _ hnamed, ?_, rfl, rfl⟩
  rw [← a.join_text (by simpa using hne) hnamed, join_eq_intercalate, String.ofList_toList]

/-- **Below a directory of files and directories alone**, the path of names leads to their place. -/
theorem locate_enter {a : Path.Absolute} {place : List String} {node : Node}
    (hroot : d.locate false a.text = .ok place) (hnode : d.root.at? place = some node)
    (hplain : node.Plain) {below : List String} (hne : below ≠ [])
    (hnames : ∀ name ∈ below, Path.IsName name.toList) {create : Bool} {found : List String}
    (h : d.locate create (Path.join a.text (String.intercalate "/" below)) = .ok found) :
    found = place ++ below := by
  obtain ⟨b, hjoin, hslashes, hbnames⟩ := exists_absolute_join a hne hnames
  have hbelow : (below.map String.toList).map String.ofList = below := by
    simp
  have hsegments : segments b.text =
      (List.replicate a.slashes "" ++ a.names.map String.ofList) ++ below := by
    rw [segments_text, hslashes, hbnames, if_neg (by simp [hne]), List.map_append, hbelow,
      List.append_assoc]
  rw [hjoin] at h
  have hwalk := walk_of_locate h
  rw [b.isAbsolute_text, if_pos rfl, hsegments] at hwalk
  obtain ⟨follow, hfollow⟩ := walk_append (walk_names hroot) create below
  rw [hfollow] at hwalk
  exact walkFrom_plain hnode hplain hnames hwalk

end Disk

/-! ### The barrels of a directory -/

/-- The names of a barrel are the segments of its relative path. -/
theorem Node.IsBarrel.segments_relativePath {names below : List String}
    {isDirectory : List String → Bool} {tree : Node}
    (h : tree.IsBarrel names isDirectory below) (htidy : tree.Tidy) (root : String) :
    Disk.segments (DiscoveredFile.below root below).relativePath = below := by
  rw [DiscoveredFile.below, Disk.segments, ← Disk.join_eq_intercalate,
    split_join (by simpa using h.ne_nil)]
  · simp
  · intro s hs
    obtain ⟨name, hname, rfl⟩ := List.mem_map.1 hs
    exact (h.isName htidy name hname).2.2.2

section Discovered

variable {d : Disk} {root : String} {tree : Node} {names : List String} {rights : Rights}

/-- What stands at a row of names below a directory leads to a directory. -/
def Disk.isDirectoryBelow (d : Disk) (root : String) (below : List String) : Bool :=
  d.isDirectory (DiscoveredFile.below root below).absolutePath

theorem Rights.lists_all_iff {path : String} :
    Rights.all.lists path = true ↔ Disk.byteLength path ≤ Disk.maxPath := by
  simp [lists, all]

theorem Rights.listsBelow_of_ne_nil {below : List String} (hne : below ≠ []) :
    rights.listsBelow root below = rights.lists (DiscoveredFile.below root below).absolutePath := by
  rw [listsBelow, if_neg hne, DiscoveredFile.below]

theorem perm_discoverAt (htree : d.node root = .ok tree) (names : List String) (rights : Rights) :
    (discoverAt d root names rights).Perm
      ((tree.barrelsBelow names (rights.listsBelow root) (rights.isDirectoryBelow d root) []).map
        (DiscoveredFile.below root)) := by
  unfold discoverAt
  rw [htree]
  exact List.mergeSort_perm _ _

/-- The files that are found are the barrels in the directories that are listed. -/
theorem mem_discoverAt_iff (htree : d.node root = .ok tree) (htidy : tree.Tidy)
    {file : DiscoveredFile} : file ∈ discoverAt d root names rights ↔
      ∃ below, tree.IsBarrel names (rights.isDirectoryBelow d root) below ∧
        Node.Listed (rights.listsBelow root) below ∧ file = DiscoveredFile.below root below := by
  simp only [(perm_discoverAt htree names rights).mem_iff, List.mem_map,
    Node.mem_barrelsBelow_iff htidy, eq_comm, and_assoc]

end Discovered

namespace Disk

theorem node_eq_ok_iff {d : Disk} {path : String} {node : Node} :
    d.node path = .ok node ↔
      ∃ place, d.locate false path = .ok place ∧ d.root.at? place = some node := by
  unfold Disk.node
  cases d.locate false path with
  | error fault => simp [bind, Except.bind]
  | ok place =>
    cases hat : d.root.at? place <;> simp [bind, Except.bind, hat]

/-- A file that was found, with the place to which its path leads if it leads anywhere. -/
structure Found (d : Disk) (file : DiscoveredFile) (place : List String) : Prop where
  plain : Path.plain file.absolutePath = file.absolutePath
  leads : ∀ {create found}, d.locate create file.absolutePath = .ok found → found = place
  isFile : ∃ bytes, d.root.at? place = some (.file bytes)

theorem Found.not_isDirectory {d : Disk} {file : DiscoveredFile} {place : List String}
    (h : d.Found file place) : ¬d.isDirectory file.absolutePath = true := by
  unfold isDirectory
  cases hnode : d.node file.absolutePath with
  | error fault => simp
  | ok node =>
    obtain ⟨found, hlocate, hat⟩ := node_eq_ok_iff.1 hnode
    obtain rfl := h.leads hlocate
    obtain ⟨bytes, hbytes⟩ := h.isFile
    obtain rfl : node = .file bytes := Option.some.inj (hat.symm.trans hbytes)
    simp

end Disk

/-- The place of a file that was found below a directory at a place. -/
def DiscoveredFile.placeBelow (place : List String) (file : DiscoveredFile) : List String :=
  place ++ Disk.segments file.relativePath

/-- A barrel of a directory that is a plain tree has a path that leads to its place, if anywhere. -/
theorem Disk.found_below {d : Disk} {a : Path.Absolute} {place : List String} {tree : Node}
    (hplace : d.locate false a.text = .ok place) (hat : d.root.at? place = some tree)
    (hplain : tree.Plain) {names below : List String} {isDirectory : List String → Bool}
    (hbelow : tree.IsBarrel names isDirectory below) :
    d.Found (DiscoveredFile.below a.text below) (place ++ below) := by
  have hnamed := hbelow.isName hplain.tidy
  obtain ⟨bytes, hbytes⟩ := hbelow.exists_file hplain
  refine ⟨?_, fun h => locate_enter hplace hat hplain hbelow.ne_nil hnamed h, bytes, ?_⟩
  · obtain ⟨b, hb, -⟩ := exists_absolute_join a hbelow.ne_nil hnamed
    show Path.plain (Path.join a.text (String.intercalate "/" below)) = Path.join a.text _
    rw [hb, b.plain_text]
  · rw [Node.at?_append, hat]
    exact hbytes

/-- Below a directory that is a plain tree, the files found stand at places of their own. -/
theorem found_discoverAt {d : Disk} {a : Path.Absolute} {place : List String} {tree : Node}
    (hplace : d.locate false a.text = .ok place) (hat : d.root.at? place = some tree)
    (hplain : tree.Plain) (names : List String) :
    ((discoverAt d a.text names).map (DiscoveredFile.placeBelow place)).Nodup ∧
      ∀ file ∈ discoverAt d a.text names, d.Found file (file.placeBelow place) := by
  have htree : d.node a.text = .ok tree := Disk.node_eq_ok_iff.2 ⟨place, hplace, hat⟩
  constructor
  · rw [((perm_discoverAt htree names .all).map _).nodup_iff, List.map_map]
    refine (Node.nodup_barrelsBelow hplain.tidy []).map_on fun below hbelow other hother heq => ?_
    rw [Node.mem_barrelsBelow_iff hplain.tidy] at hbelow hother
    have heq := List.append_cancel_left heq
    rwa [hbelow.1.segments_relativePath hplain.tidy,
      hother.1.segments_relativePath hplain.tidy] at heq
  · intro file hfile
    obtain ⟨below, hbelow, -, rfl⟩ := (mem_discoverAt_iff htree hplain.tidy).1 hfile
    rw [DiscoveredFile.placeBelow, hbelow.segments_relativePath hplain.tidy]
    exact Disk.found_below hplace hat hplain hbelow

/-- **Every barrel that is found stands at a place of its own**, if the directory is a plain tree. -/
theorem exists_places {d : Disk} (hhere : ∀ name ∈ d.here, Path.IsName name.toList)
    {path root : String} (hroot : directoryPath d path = .ok root) {tree : Node}
    (htree : d.node root = .ok tree) (hplain : tree.Plain) (names : List String) :
    ∃ placeOf : DiscoveredFile → List String,
      ((discoverAt d root names).map placeOf).Nodup ∧
        ∀ file ∈ discoverAt d root names, d.Found file (placeOf file) := by
  obtain ⟨a, rfl, -⟩ := exists_absolute_of_directoryPath hhere hroot
  obtain ⟨place, hplace, hat⟩ := Disk.node_eq_ok_iff.1 htree
  exact ⟨_, found_discoverAt hplace hat hplain names⟩

end Reexport
