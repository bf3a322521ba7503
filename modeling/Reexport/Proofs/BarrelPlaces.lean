import Reexport.Batch
import Reexport.Proofs.Places

/-!
# Barrels in a tree

A barrel stands below a tree where a file with the name of a barrel stands, or a link of such a name
that leads to no directory, outside the directories that are passed over by name. It is found if every
directory on the way to it is listed as well. The search through a tree passes over a directory where
it meets it, at every depth; what it finds at an entry of a directory goes on with the name of the
entry, so as names are distinct, nothing is found twice.

## What is proved

* `Node.mem_barrelsAmong_iff`, `Node.mem_barrelsBelow_iff` — barrels are found where they stand in
  directories that are listed, and nothing else is.
* `Node.nodup_barrelsAmong`, `Node.nodup_barrelsBelow` — each of them is found once.
-/

namespace Reexport

namespace Node

variable {names : List String} {lists isDirectory : List String → Bool}

/-- A barrel stands below a tree at a row of names: a file, or a link that leads to no directory, with
one of the names of barrels, and in no directory that is passed over. -/
structure IsBarrel (names : List String) (isDirectory : List String → Bool) (tree : Node)
    (below : List String) : Prop where
  named : ∃ name ∈ names, below.getLast? = some name
  unskipped : ∀ directory ∈ below.dropLast, directory ∉ skippedDirectories
  stands : (∃ bytes, tree.at? below = some (file bytes)) ∨
    ∃ target, tree.at? below = some (link target) ∧ isDirectory below = false

theorem IsBarrel.ne_nil {tree : Node} {below : List String}
    (h : IsBarrel names isDirectory tree below) : below ≠ [] := by
  rintro rfl
  obtain ⟨name, -, hlast⟩ := h.named
  cases hlast

theorem IsBarrel.exists_at? {tree : Node} {below : List String}
    (h : IsBarrel names isDirectory tree below) : ∃ node, tree.at? below = some node := by
  rcases h.stands with ⟨bytes, hat⟩ | ⟨target, hat, -⟩
  · exact ⟨_, hat⟩
  · exact ⟨_, hat⟩

theorem IsBarrel.isName {tree : Node} {below : List String}
    (h : IsBarrel names isDirectory tree below) (htidy : tree.Tidy) :
    ∀ name ∈ below, Path.IsName name.toList := by
  obtain ⟨node, hat⟩ := h.exists_at?
  exact htidy.isName_of_at? hat

/-- Only below a directory there are barrels, and below one of its entries. -/
theorem IsBarrel.exists_entry {tree : Node} {below : List String}
    (h : IsBarrel names isDirectory tree below) : ∃ entries first more,
      tree = directory entries ∧ below = first :: more ∧ first ∈ entries.map (·.1) := by
  obtain ⟨node, hat⟩ := h.exists_at?
  obtain ⟨first, more, rfl⟩ := List.exists_cons_of_ne_nil h.ne_nil
  cases tree with
  | file _ | link _ => cases hat
  | directory entries =>
    obtain ⟨child, hchild, -⟩ := exists_mem_of_at?_cons hat
    exact ⟨entries, first, more, rfl, rfl, List.mem_map_of_mem (f := (·.1)) hchild⟩

/-- Where no links are, a barrel is a file. -/
theorem IsBarrel.exists_file {tree : Node} {below : List String}
    (h : IsBarrel names isDirectory tree below) (hplain : tree.Plain) :
    ∃ bytes, tree.at? below = some (file bytes) := by
  rcases h.stands with hfile | ⟨target, hat, -⟩
  · exact hfile
  · exact absurd hat (hplain.noLink below target)

/-- Only what stands at the place counts. -/
theorem IsBarrel.congr {tree tree' : Node} {below : List String}
    (h : IsBarrel names isDirectory tree below) (hat : tree'.at? below = tree.at? below) :
    IsBarrel names isDirectory tree' below :=
  ⟨h.named, h.unskipped, by rw [hat]; exact h.stands⟩

/-- A barrel at the top. -/
theorem isBarrel_singleton_iff {tree child : Node} {name : String}
    (hchild : tree.at? [name] = some child) : IsBarrel names isDirectory tree [name] ↔
      name ∈ names ∧ ((∃ bytes, child = file bytes) ∨
        ∃ target, child = link target ∧ isDirectory [name] = false) := by
  constructor
  · rintro ⟨⟨last, hlast, heq⟩, -, hstands⟩
    obtain rfl : name = last := Option.some.inj heq
    exact ⟨hlast, by simpa [hchild] using hstands⟩
  · rintro ⟨hname, hstands⟩
    exact ⟨⟨name, hname, rfl⟩, nofun, by simpa [hchild] using hstands⟩

/-- A barrel further down. -/
theorem isBarrel_cons_iff {tree child : Node} {name : String} {more : List String}
    (hchild : tree.at? [name] = some child) (hne : more ≠ []) :
    IsBarrel names isDirectory tree (name :: more) ↔
      name ∉ skippedDirectories ∧
        IsBarrel names (fun below => isDirectory (name :: below)) child more := by
  have hat : tree.at? (name :: more) = child.at? more := by
    rw [← List.singleton_append, at?_append, hchild]
    rfl
  have hlast : (name :: more).getLast? = more.getLast? := List.getLast?_cons_of_ne_nil hne
  constructor
  · rintro ⟨hnamed, hskipped, hstands⟩
    rw [List.dropLast_cons_of_ne_nil hne, List.forall_mem_cons] at hskipped
    exact ⟨hskipped.1, hlast ▸ hnamed, hskipped.2, hat ▸ hstands⟩
  · rintro ⟨hskipped, hnamed, hrest, hstands⟩
    refine ⟨hlast ▸ hnamed, ?_, hat ▸ hstands⟩
    rw [List.dropLast_cons_of_ne_nil hne, List.forall_mem_cons]
    exact ⟨hskipped, hrest⟩

/-- An entry of another name hides nothing. -/
theorem at?_directory_cons {name first : String} (hne : first ≠ name) (node : Node)
    (rest : List (String × Node)) (more : List String) :
    (directory ((name, node) :: rest)).at? (first :: more) =
      (directory rest).at? (first :: more) := by
  rw [at?, entry?, List.lookup_cons, beq_eq_false_iff_ne.2 hne]
  rfl

/-- The entry of a name hides those behind it. -/
theorem at?_directory_cons_self (name : String) (node : Node) (rest : List (String × Node)) :
    (directory ((name, node) :: rest)).at? [name] = some node := by
  simp [at?, entry?]

/-- Every directory on the way to a row of names is listed, from the one at the top on. -/
def Listed (lists : List String → Bool) (below : List String) : Prop :=
  ∀ directory, directory <+: below.dropLast → lists directory = true

theorem listed_singleton_iff {name : String} : Listed lists [name] ↔ lists [] = true := by
  simp [Listed]

theorem listed_cons_iff {name : String} {more : List String} (hne : more ≠ []) :
    Listed lists (name :: more) ↔
      lists [] = true ∧ Listed (fun below => lists (name :: below)) more := by
  simp only [Listed, List.dropLast_cons_of_ne_nil hne]
  constructor
  · exact fun h => ⟨h [] List.nil_prefix, fun directory hprefix =>
      h _ ((List.prefix_cons_inj name).2 hprefix)⟩
  · rintro ⟨htop, hmore⟩ directory hprefix
    rcases List.prefix_cons_iff.1 hprefix with rfl | ⟨rest, rfl, hrest⟩
    · exact htop
    · exact hmore rest hrest

/-- The directory at the top is on the way to everything. -/
theorem Listed.top {below : List String} (h : Listed lists below) : lists [] = true :=
  h [] List.nil_prefix

/-! ### The search -/

/-- The places that are found at one entry of a directory. -/
def barrelsAt (names : List String) (lists isDirectory : List String → Bool) (here : List String)
    (name : String) : Node → List (List String)
  | file _ => if name ∈ names then [here] else []
  | link _ => if name ∈ names && !isDirectory here then [here] else []
  | directory entries =>
    if name ∉ skippedDirectories && lists here then
      barrelsAmong names lists isDirectory here entries
    else []

theorem barrelsAmong_cons (place : List String) (name : String) (node : Node)
    (rest : List (String × Node)) :
    barrelsAmong names lists isDirectory place ((name, node) :: rest) =
      barrelsAt names lists isDirectory (place ++ [name]) name node ++
        barrelsAmong names lists isDirectory place rest := by
  cases node <;> rw [barrelsAmong, barrelsAt]

/-- At an entry that is no directory, there is at most the place of the entry to be found. -/
theorem mem_barrelsAt_iff_of_leaf {node : Node} (hleaf : ∀ entries, node ≠ directory entries)
    {here found : List String} {name : String} :
    found ∈ barrelsAt names lists isDirectory here name node ↔ found = here ∧ name ∈ names ∧
      ((∃ bytes, node = file bytes) ∨
        ∃ target, node = link target ∧ isDirectory here = false) := by
  cases node with
  | file bytes => simp [barrelsAt, and_comm]
  | link target => simp [barrelsAt, and_comm]
  | directory entries => exact absurd rfl (hleaf entries)

theorem mem_barrelsAt_directory_iff {here found : List String} {name : String}
    {entries : List (String × Node)} :
    found ∈ barrelsAt names lists isDirectory here name (directory entries) ↔
      name ∉ skippedDirectories ∧ lists here = true ∧
        found ∈ barrelsAmong names lists isDirectory here entries := by
  by_cases hname : name ∈ skippedDirectories <;> by_cases hlists : lists here = true <;>
    simp [barrelsAt, hname, hlists]

/-- What is found at an entry of a directory that is listed goes on with the name of the entry, if what
is found inside of the entry does so. -/
theorem mem_barrelsAt_iff {tree node : Node} {place found : List String} {name : String}
    (hplace : lists place = true) (hhere : tree.at? [name] = some node)
    (hinner : ∀ entries, node = directory entries → lists (place ++ [name]) = true →
      (found ∈ barrelsAmong names lists isDirectory (place ++ [name]) entries ↔
        ∃ below, found = place ++ [name] ++ below ∧
          IsBarrel names (fun below => isDirectory (place ++ [name] ++ below)) node below ∧
          Listed (fun below => lists (place ++ [name] ++ below)) below)) :
    found ∈ barrelsAt names lists isDirectory (place ++ [name]) name node ↔
      ∃ more, found = place ++ name :: more ∧
        IsBarrel names (fun below => isDirectory (place ++ below)) tree (name :: more) ∧
        Listed (fun below => lists (place ++ below)) (name :: more) := by
  have htop : lists (place ++ []) = true := by rwa [List.append_nil]
  by_cases hleaf : ∀ entries, node ≠ directory entries
  · have hself : IsBarrel names (fun below => isDirectory (place ++ below)) tree [name] ↔
        name ∈ names ∧ ((∃ bytes, node = file bytes) ∨
          ∃ target, node = link target ∧ isDirectory (place ++ [name]) = false) :=
      isBarrel_singleton_iff hhere
    rw [mem_barrelsAt_iff_of_leaf hleaf, ← hself]
    constructor
    · rintro ⟨rfl, hbarrel⟩
      exact ⟨[], rfl, hbarrel, listed_singleton_iff.2 htop⟩
    · rintro ⟨more, rfl, hbarrel, -⟩
      by_cases hne : more = []
      · subst hne
        exact ⟨rfl, hbarrel⟩
      · obtain ⟨entries, -, -, heq, -⟩ := ((isBarrel_cons_iff hhere hne).1 hbarrel).2.exists_entry
        exact absurd heq (hleaf entries)
  · rw [not_forall_not] at hleaf
    obtain ⟨entries, rfl⟩ := hleaf
    have hinner := hinner entries rfl
    simp only [List.append_assoc, List.singleton_append] at hinner
    rw [mem_barrelsAt_directory_iff]
    constructor
    · rintro ⟨hname, hlists, hfound⟩
      obtain ⟨more, rfl, hbarrel, hmore⟩ := (hinner hlists).1 hfound
      exact ⟨more, rfl, (isBarrel_cons_iff hhere hbarrel.ne_nil).2 ⟨hname, hbarrel⟩,
        (listed_cons_iff hbarrel.ne_nil).2 ⟨htop, hmore⟩⟩
    · rintro ⟨more, rfl, hbarrel, hlisted⟩
      have hne : more ≠ [] := by
        rintro rfl
        obtain ⟨-, ⟨_, hfile⟩ | ⟨_, hlink, -⟩⟩ := (isBarrel_singleton_iff hhere).1 hbarrel
        · cases hfile
        · cases hlink
      obtain ⟨hname, hbarrel⟩ := (isBarrel_cons_iff hhere hne).1 hbarrel
      obtain ⟨-, hmore⟩ := (listed_cons_iff hne).1 hlisted
      exact ⟨hname, hmore.top, (hinner hmore.top).2 ⟨more, rfl, hbarrel, hmore⟩⟩

/-- **Barrels are found where they stand**, if the directories on the way are listed, and nothing else
is. -/
theorem mem_barrelsAmong_iff {place : List String} {entries : List (String × Node)}
    (htidy : (directory entries).Tidy) (hplace : lists place = true) {found : List String} :
    found ∈ barrelsAmong names lists isDirectory place entries ↔ ∃ below, found = place ++ below ∧
      IsBarrel names (fun below => isDirectory (place ++ below)) (directory entries) below ∧
      Listed (fun below => lists (place ++ below)) below := by
  match entries, htidy with
  | [], _ =>
    rw [barrelsAmong]
    refine iff_of_false List.not_mem_nil ?_
    rintro ⟨below, -, hbarrel, -⟩
    obtain ⟨_, _, _, heq, -, hentry⟩ := hbarrel.exists_entry
    cases heq
    cases hentry
  | (name, node) :: rest, htidy =>
    obtain ⟨-, hnew, hnode, hrest⟩ := tidy_directory_cons_iff.1 htidy
    rw [barrelsAmong_cons, List.mem_append, mem_barrelsAmong_iff hrest hplace,
      mem_barrelsAt_iff hplace (at?_directory_cons_self name node rest)
        (by
          rintro entries rfl hhere
          exact mem_barrelsAmong_iff hnode hhere)]
    constructor
    · rintro (⟨more, rfl, hbarrel⟩ | ⟨below, rfl, hbarrel, hlisted⟩)
      · exact ⟨name :: more, rfl, hbarrel⟩
      · obtain ⟨_, first, more, heq, rfl, hentry⟩ := hbarrel.exists_entry
        cases heq
        have hne : first ≠ name := fun heq => hnew (heq ▸ hentry)
        exact ⟨first :: more, rfl, hbarrel.congr (at?_directory_cons hne node rest more), hlisted⟩
    · rintro ⟨below, rfl, hbarrel, hlisted⟩
      obtain ⟨first, more, rfl⟩ := List.exists_cons_of_ne_nil hbarrel.ne_nil
      by_cases hne : first = name
      · subst hne
        exact .inl ⟨more, rfl, hbarrel, hlisted⟩
      · exact .inr ⟨first :: more, rfl,
          hbarrel.congr (at?_directory_cons hne node rest more).symm, hlisted⟩
termination_by sizeOf entries

/-- **No two barrels have one place.** -/
theorem nodup_barrelsAmong {place : List String} {entries : List (String × Node)}
    (htidy : (directory entries).Tidy) (hplace : lists place = true) :
    (barrelsAmong names lists isDirectory place entries).Nodup := by
  match entries, htidy with
  | [], _ =>
    rw [barrelsAmong]
    exact List.nodup_nil
  | (name, node) :: rest, htidy =>
    obtain ⟨-, hnew, hnode, hrest⟩ := tidy_directory_cons_iff.1 htidy
    rw [barrelsAmong_cons]
    refine List.nodup_append'.2 ⟨?_, nodup_barrelsAmong hrest hplace, fun found hfirst hother => ?_⟩
    · cases node with
      | file _ | link _ =>
        rw [barrelsAt]
        split
        · exact List.nodup_singleton _
        · exact List.nodup_nil
      | directory entries =>
        rw [barrelsAt]
        split
        · rename_i hhere
          exact nodup_barrelsAmong hnode (by simp_all)
        · exact List.nodup_nil
    · -- The places of the first entry go on with its name, those of the others with another one.
      obtain ⟨more, rfl, -⟩ := (mem_barrelsAt_iff hplace (at?_directory_cons_self name node rest) (by
        rintro entries rfl hhere
        exact mem_barrelsAmong_iff hnode hhere)).1 hfirst
      obtain ⟨below, heq, hbarrel, -⟩ := (mem_barrelsAmong_iff hrest hplace).1 hother
      obtain rfl := List.append_cancel_left heq
      obtain ⟨_, _, _, hentries, hfirst, hentry⟩ := hbarrel.exists_entry
      cases hentries
      cases hfirst
      exact hnew hentry
termination_by sizeOf entries

theorem mem_barrelsBelow_iff {tree : Node} (htidy : tree.Tidy) {below : List String} :
    below ∈ barrelsBelow names lists isDirectory [] tree ↔
      IsBarrel names isDirectory tree below ∧ Listed lists below := by
  cases tree with
  | file _ | link _ =>
    refine iff_of_false List.not_mem_nil fun h => ?_
    obtain ⟨_, _, _, heq, -⟩ := h.1.exists_entry
    cases heq
  | directory entries =>
    by_cases htop : lists [] = true
    · rw [barrelsBelow, if_pos htop, mem_barrelsAmong_iff htidy htop]
      simp only [List.nil_append, exists_eq_left']
    · rw [barrelsBelow, if_neg htop]
      exact iff_of_false List.not_mem_nil fun h => htop h.2.top

theorem nodup_barrelsBelow {tree : Node} (htidy : tree.Tidy) (place : List String) :
    (barrelsBelow names lists isDirectory place tree).Nodup := by
  cases tree with
  | file _ | link _ => exact List.nodup_nil
  | directory entries =>
    rw [barrelsBelow]
    split
    · rename_i hplace
      exact nodup_barrelsAmong htidy hplace
    · exact List.nodup_nil

end Node

end Reexport
