import Reexport.Proofs.Discovery
import Reexport.Proofs.SortedEntries

/-!
# Exactly the barrels are found

The search below a directory goes through the tree, and what it finds is put in the order of the
relative paths. That order compares whole paths, code point by code point, and is not the order of
the search: all of `a-b` stands before all of `a`, as a hyphen comes before a slash. Since a relative
path tells the names that it is made of, no two files found have one, and the order is strict.

## What is proved

* `pairwise_discoverAt` — the files found stand in the strict order of their relative paths.
* `discover_exact` — the search ends with them, and they are the barrels below the directory, but for
  those in directories that are not listed.
* `discover_misses_deep` — a barrel that is missed.
-/

namespace Reexport

section

variable {d : Disk} {root : String} {tree : Node}

/-- **The files found** stand in the strict order of their relative paths. -/
theorem pairwise_discoverAt (htree : d.node root = .ok tree) (htidy : tree.Tidy)
    (names : List String) (rights : Rights) : (discoverAt d root names rights).Pairwise fun a b =>
      Text.codes a.relativePath < Text.codes b.relativePath := by
  have hle : (discoverAt d root names rights).Pairwise fun a b =>
      a.relativePath ≤ b.relativePath := by
    unfold discoverAt
    exact pairwise_mergeSort_byKey DiscoveredFile.relativePath _
  have hne : (discoverAt d root names rights).Pairwise fun a b =>
      a.relativePath ≠ b.relativePath := by
    rw [← List.pairwise_map, ← List.nodup_iff_pairwise_ne,
      ((perm_discoverAt htree names rights).map _).nodup_iff, List.map_map]
    refine (Node.nodup_barrelsBelow htidy []).map_on fun below hbelow other hother heq => ?_
    rw [Node.mem_barrelsBelow_iff htidy] at hbelow hother
    -- The names are read off the relative path.
    rw [← hbelow.1.segments_relativePath htidy root, ← hother.1.segments_relativePath htidy root]
    exact congrArg Disk.segments heq
  refine hle.imp₂ (fun a b hle hne => ?_) hne
  exact Text.lt_iff_codes_lt.1 (lt_of_le_of_ne hle hne)

end

/-- **Exactly the barrels are found**, in the directories that are listed. Let a path, with its links
followed, be that of a directory whose tree has names, no two of them alike in one directory; there may
be links in it.

The search ends, and it finds the files, and the links that are not seen to lead to a directory, that
have one of the names of barrels and stand in no directory that is passed over by its name, each with
its absolute path below the directory. Directories that are not listed are passed over as well, with all
that is below them: those that may not be, and those with a path that is longer than the system takes.
The files stand in the strict order of their relative paths by code points, so none is found twice. -/
theorem discover_exact {d : Disk} {path root : String} (hroot : d.resolve path = .ok root)
    {entries : List (String × Node)} (htree : d.node root = .ok (.directory entries))
    (htidy : (Node.directory entries).Tidy) (names : List String) (rights : Rights) :
    ∃ files, discover d path names rights = .ok (files, .discovered root files.length) ∧
      (files.Pairwise fun a b => Text.codes a.relativePath < Text.codes b.relativePath) ∧
      ∀ file, file ∈ files ↔ ∃ below,
        (Node.directory entries).IsBarrel names (rights.isDirectoryBelow d root) below ∧
          Node.Listed (rights.listsBelow root) below ∧ file = DiscoveredFile.below root below := by
  have hpath : directoryPath d path = .ok root := by
    rw [directoryPath, hroot]
    simp only [Except.mapError, bind, Except.bind, htree]
  refine ⟨discoverAt d root names rights, ?_, pairwise_discoverAt htree htidy names rights,
    fun file => mem_discoverAt_iff htree htidy⟩
  rw [discover, hpath]
  rfl

/-- What is in a directory: barrels, among them one behind a link and a link that leads nowhere; a link
to a directory, directories that are passed over, and one that will not be listed. -/
def linkedEntries : List (String × Node) :=
  [("a", .directory [("index.ts", .file []), ("dist", .directory [("index.ts", .file [])])]),
    ("a-b", .directory [("index.ts", .file [])]), ("b", .directory [("index.ts", .link "../a")]),
    ("c", .directory [("index.ts", .link "../a/index.ts")]),
    ("d", .directory [("index.ts", .link "gone")]),
    ("e", .directory [("index.ts", .file []), ("a", .directory [("index.ts", .file [])])]),
    ("node_modules", .directory [("index.ts", .file [])]), ("main.ts", .file [])]

/-- A disk with the directory, under a name that is passed over below it, and a link to it. -/
def linkedDisk : Disk where
  root := .directory [("dist", .directory linkedEntries), ("here", .link "dist")]
  here := []

/-- One of the directories may not be listed. -/
def linkedRights : Rights where
  mayList path := path ≠ "/dist/e"
  mayFollow _ := true

/-- The barrels of the directory. -/
def linkedFiles : List DiscoveredFile :=
  [⟨"a-b/index.ts", "/dist/a-b/index.ts"⟩, ⟨"a/index.ts", "/dist/a/index.ts"⟩,
    ⟨"c/index.ts", "/dist/c/index.ts"⟩, ⟨"d/index.ts", "/dist/d/index.ts"⟩]

theorem discover_exact_linked : linkedDisk.resolve "here" = .ok "/dist" ∧
    linkedDisk.node "/dist" = .ok (.directory linkedEntries) ∧
    (Node.directory linkedEntries).Tidy ∧
    discover linkedDisk "here" ["index.ts"] linkedRights =
      .ok (linkedFiles, .discovered "/dist" 4) ∧
    (linkedFiles.Pairwise fun a b => Text.codes a.relativePath < Text.codes b.relativePath) ∧
    ∀ file, file ∈ linkedFiles ↔ ∃ below, (Node.directory linkedEntries).IsBarrel ["index.ts"]
      (linkedRights.isDirectoryBelow linkedDisk "/dist") below ∧
        Node.Listed (linkedRights.listsBelow "/dist") below ∧
          file = DiscoveredFile.below "/dist" below := by
  have hroot : linkedDisk.resolve "here" = .ok "/dist" := rfl
  have htree : linkedDisk.node "/dist" = .ok (.directory linkedEntries) := rfl
  have htidy : (Node.directory linkedEntries).Tidy := by
    simp only [linkedEntries, Node.tidy_directory_iff, Node.tidy_file, Node.tidy_link,
      List.forall_mem_cons, List.map_cons, List.map_nil, List.not_mem_nil, false_implies,
      implies_true, and_true]
    decide +kernel
  obtain ⟨files, hfound, horder, hmem⟩ := discover_exact hroot htree htidy ["index.ts"] linkedRights
  -- The search meets `a` before `a-b`.
  have hperm : (discoverAt linkedDisk "/dist" ["index.ts"] linkedRights).Perm linkedFiles := by
    refine (perm_discoverAt htree ["index.ts"] linkedRights).trans ?_
    simp only [linkedEntries, Node.barrelsBelow, Node.barrelsAmong]
    decide +kernel
  have hlinked : linkedFiles.Pairwise fun a b =>
      Text.codes a.relativePath < Text.codes b.relativePath := by decide +kernel
  have hfiles : discoverAt linkedDisk "/dist" ["index.ts"] linkedRights = linkedFiles :=
    hperm.eq_of_pairwise (fun _ _ _ _ hab hba => absurd hab (lt_asymm hba))
      (pairwise_discoverAt htree htidy _ _) hlinked
  have hdiscover : discover linkedDisk "here" ["index.ts"] linkedRights =
      .ok (linkedFiles, .discovered "/dist" 4) := by
    rw [discover, show directoryPath linkedDisk "here" = .ok "/dist" from rfl]
    simp only [bind, Except.bind, hfiles]
    rfl
  obtain rfl : files = linkedFiles := by
    rw [hdiscover] at hfound
    exact (congrArg Prod.fst (Except.ok.inj hfound)).symm
  exact ⟨hroot, htree, htidy, hdiscover, horder, hmem⟩

/-! ### A barrel too far down -/

/-- A long name, though no longer than the system takes. -/
def longName : String :=
  String.ofList (List.replicate 250 'a')

theorem toList_longName : longName.toList = List.replicate 250 'a' :=
  String.toList_ofList

theorem length_longName : longName.toList.length = 250 := by
  rw [toList_longName, List.length_replicate]

theorem isName_longName : Path.IsName longName.toList := by
  have hlength := length_longName
  refine ⟨fun h => ?_, fun h => ?_, fun h => ?_, fun h => ?_⟩
  · simp [h] at hlength
  · simp [h] at hlength
  · simp [h, Path.up] at hlength
  · rw [toList_longName] at h
    exact absurd (List.eq_of_mem_replicate h) (by decide)

/-- Directories of long names within each other, with a barrel in the innermost. -/
def deepTree : Nat → Node
  | 0 => .directory [("index.ts", .file [])]
  | depth + 1 => .directory [(longName, deepTree depth)]

/-- A disk on which the path of the innermost directory is longer than the system takes. -/
def deepDisk : Disk where
  root := .directory [("r", deepTree 17)]
  here := []

theorem tidy_deepTree (depth : Nat) : (deepTree depth).Tidy := by
  induction depth with
  | zero =>
    simp only [deepTree, Node.tidy_directory_iff, Node.tidy_file, List.forall_mem_cons, List.map_cons,
      List.map_nil, List.not_mem_nil, false_implies, implies_true, and_true]
    decide +kernel
  | succ depth ih => simpa [deepTree, Node.tidy_directory_iff] using ⟨isName_longName, ih⟩

theorem at?_deepTree (depth : Nat) (below : List String) :
    (deepTree depth).at? (List.replicate depth longName ++ below) = (deepTree 0).at? below := by
  induction depth with
  | zero => rfl
  | succ depth ih => simpa [deepTree, Node.at?, Node.entry?, List.replicate_succ] using ih

/-- A barrel stands in the innermost directory. -/
theorem isBarrel_deepTree (depth : Nat) (isDirectory : List String → Bool) :
    (deepTree depth).IsBarrel ["index.ts"] isDirectory
      (List.replicate depth longName ++ ["index.ts"]) := by
  have hshort : ∀ name ∈ skippedDirectories, name.toList.length < 250 := by decide +kernel
  have hname : longName ∉ skippedDirectories := fun hmem =>
    absurd (hshort _ hmem) (by rw [length_longName]; decide)
  refine ⟨⟨"index.ts", by decide, by simp⟩, fun directory hmem => ?_, .inl ⟨[], ?_⟩⟩
  · rw [List.dropLast_concat] at hmem
    rwa [List.eq_of_mem_replicate hmem]
  · rw [at?_deepTree]
    rfl

theorem length_intercalate_replicate (count : Nat) (name : String) : count * name.toList.length ≤
    (String.intercalate "/" (List.replicate count name)).toList.length := by
  rw [← Disk.join_eq_intercalate, List.map_replicate]
  induction count with
  | zero => simp
  | succ count ih =>
    cases count with
    | zero => simp [Text.join]
    | succ count =>
      simp only [List.replicate_succ, Text.join, List.length_append, Nat.succ_mul] at ih ⊢
      omega

theorem length_le_join (directory path : String) :
    path.toList.length ≤ (Path.join directory path).toList.length := by
  unfold Path.join
  split_ifs
  · exact le_rfl
  all_goals
    rw [String.toList_append, List.length_append]
    exact Nat.le_add_left _ _

/-- The path of directories within each other is as long as their names at least. -/
theorem mul_length_le_byteLength (root : String) (count : Nat) (name : String) :
    count * name.toList.length ≤
      Disk.byteLength (DiscoveredFile.below root (List.replicate count name)).absolutePath :=
  calc count * name.toList.length
    _ ≤ (String.intercalate "/" (List.replicate count name)).toList.length :=
      length_intercalate_replicate count name
    _ ≤ (DiscoveredFile.below root (List.replicate count name)).absolutePath.toList.length :=
      length_le_join root _
    _ ≤ Disk.byteLength (DiscoveredFile.below root (List.replicate count name)).absolutePath :=
      Disk.length_toList_le_byteLength _

/-- **A barrel can be missed**, though it stands in no directory that is passed over by its name: the
directory in which it stands has a path that is too long. -/
theorem discover_misses_deep : ∃ files event below,
    deepDisk.resolve "/r" = .ok "/r" ∧ deepDisk.node "/r" = .ok (deepTree 17) ∧
    discover deepDisk "/r" ["index.ts"] = .ok (files, event) ∧
    (deepTree 17).IsBarrel ["index.ts"] (deepDisk.isDirectoryBelow "/r") below ∧
    DiscoveredFile.below "/r" below ∉ files := by
  have hroot : deepDisk.resolve "/r" = .ok "/r" := rfl
  have htree : deepDisk.node "/r" = .ok (deepTree 17) := rfl
  have htidy := tidy_deepTree 17
  have hbarrel := isBarrel_deepTree 17 (deepDisk.isDirectoryBelow "/r")
  obtain ⟨files, hfound, -, hmem⟩ := discover_exact hroot htree htidy ["index.ts"] .all
  refine ⟨files, _, _, hroot, htree, hfound, hbarrel, fun hin => ?_⟩
  obtain ⟨below, hbelow, hlisted, heq⟩ := (hmem _).1 hin
  -- The names are read off the relative path.
  have hsame := congrArg (fun file => Disk.segments file.relativePath) heq
  rw [hbarrel.segments_relativePath htidy, hbelow.segments_relativePath htidy] at hsame
  obtain rfl := hsame
  have hne : List.replicate 17 longName ≠ [] := List.cons_ne_nil _ _
  have hlists := hlisted (List.replicate 17 longName) (by
    simp only [List.dropLast_concat, List.prefix_rfl])
  rw [Rights.listsBelow_of_ne_nil hne, Rights.lists_all_iff] at hlists
  have hlong := (mul_length_le_byteLength "/r" 17 longName).trans hlists
  rw [length_longName, Disk.maxPath] at hlong
  omega

end Reexport
