import Reexport.Files.Disk
import Reexport.Proofs.AbsolutePath
import Reexport.Proofs.Tables

/-!
# Places on a disk

A place is a row of names from the root of a tree on. What stands at a place by itself is its `face`:
a file with its bytes, a link with its path, or a directory, whatever is in it. Putting a file where
there is one changes the face of that place and of no other.

Where a path leads depends only on which places are those of directories and links, so two trees that
are `Alike` but for the bytes of their files are walked through in the same way. A tree is `Tidy` if
its entries have names of their own, and `Plain` if besides there are no links in it. Below a place
without links, names lead to where they say.

## What is proved

* `Node.faceAt_put` — a file put where there is one changes nothing else.
* `Disk.locate_alike` — the bytes of files do not change where a path leads.
* `Disk.walk_append` — a path that goes on goes on from where its first part leads.
* `Disk.walkFrom_cons_of_isName` — what a walk does at a name.
* `Disk.walkFrom_plain` — in a tree of files and directories, names lead to their own place.
-/

namespace Reexport

namespace Node

/-! ### What stands at a place -/

/-- What stands at a place by itself. -/
def face : Node → Node
  | directory _ => directory []
  | node => node

/-- What stands at a place of a tree by itself. -/
def faceAt (root : Node) (place : List String) : Option Node :=
  (root.at? place).map face

/-- A file is what it is by itself. -/
theorem faceAt_eq_file_iff {root : Node} {place : List String} {bytes : List UInt8} :
    root.faceAt place = some (file bytes) ↔ root.at? place = some (file bytes) := by
  unfold faceAt
  cases root.at? place with
  | none => simp
  | some node => cases node <;> simp [face]

theorem at?_append (root : Node) (place rest : List String) :
    root.at? (place ++ rest) = (root.at? place).bind (·.at? rest) := by
  induction place generalizing root with
  | nil => rfl
  | cons name place ih =>
    rw [List.cons_append, at?, at?]
    cases root.entry? name with
    | none => rfl
    | some node => exact ih node

/-- **A file put where there is one** stands there, and nothing else is changed. -/
theorem faceAt_put {root : Node} {place : List String} {bytes : List UInt8}
    (h : root.at? place = some (file bytes)) (new : List UInt8) (other : List String) :
    (put (file new) place root).faceAt other =
      if other = place then some (file new) else root.faceAt other := by
  induction place generalizing root other with
  | nil =>
    obtain rfl : root = file bytes := Option.some.inj h
    cases other with
    | nil => rfl
    | cons name rest => rfl
  | cons name place ih =>
    cases root with
    | file _ => cases h
    | link _ => cases h
    | directory entries =>
      rw [at?, entry?] at h
      obtain ⟨child, hchild, hrest⟩ := Option.bind_eq_some_iff.1 h
      rw [put, hchild, Option.getD_some]
      cases other with
      | nil => rfl
      | cons first rest =>
        have hlookup : (setEntry entries name (put (file new) place child)).lookup first =
            if first = name then some (put (file new) place child) else entries.lookup first :=
          lookup_put entries name (put (file new) place child) first
        unfold faceAt
        rw [at?, entry?, at?, entry?, hlookup]
        by_cases hfirst : first = name
        · have hput := ih hrest rest
          rw [hfirst, if_pos rfl, hchild, Option.bind_some, Option.bind_some]
          simpa [faceAt] using hput
        · simp [hfirst]

/-! ### Trees that differ in the bytes of files alone -/

/-- What stands somewhere, without what is in it and without the bytes of a file. -/
def outline : Node → Node
  | file _ => file []
  | directory _ => directory []
  | link target => link target

/-- Whether the same kinds of things stand at the places of two trees. -/
def Alike (left right : Node) : Prop :=
  ∀ place, (left.at? place).map outline = (right.at? place).map outline

theorem outline_face (node : Node) : node.face.outline = node.outline := by
  cases node <;> rfl

theorem Alike.refl (root : Node) : Alike root root := fun _ => rfl

theorem Alike.trans {left middle right : Node} (h : Alike left middle) (h' : Alike middle right) :
    Alike left right := fun place => (h place).trans (h' place)

theorem map_outline_at? (root : Node) (place : List String) :
    (root.at? place).map outline = (root.faceAt place).map outline := by
  rw [faceAt, Option.map_map]
  exact congrArg (Option.map · _) (funext fun node => (outline_face node).symm)

/-- Another file makes no tree unlike. -/
theorem alike_put {root : Node} {place : List String} {bytes : List UInt8}
    (h : root.at? place = some (file bytes)) (new : List UInt8) :
    Alike root (put (file new) place root) := by
  intro other
  rw [map_outline_at? (put _ _ _), faceAt_put h]
  by_cases hother : other = place
  · rw [if_pos hother, hother, h]
    rfl
  · rw [if_neg hother, ← map_outline_at?]

theorem Alike.isDirectoryAt {left right : Node} (h : Alike left right) (place : List String) :
    left.isDirectoryAt place = right.isDirectoryAt place := by
  have hplace := h place
  unfold Node.isDirectoryAt
  cases hleft : left.at? place with
  | none =>
    cases hright : right.at? place with
    | none => rfl
    | some node => simp [hleft, hright] at hplace
  | some node =>
    cases hright : right.at? place with
    | none => simp [hleft, hright] at hplace
    | some node' =>
      rw [hleft, hright] at hplace
      cases node <;> cases node' <;> simp_all [outline]

theorem Alike.at?_link {left right : Node} (h : Alike left right) {place : List String}
    {target : String} (hlink : left.at? place = some (link target)) :
    right.at? place = some (link target) := by
  have hplace := h place
  rw [hlink] at hplace
  cases hright : right.at? place with
  | none => simp [hright] at hplace
  | some node =>
    rw [hright] at hplace
    cases node <;> simp_all [outline]

theorem Alike.at?_file {left right : Node} (h : Alike left right) {place : List String}
    {bytes : List UInt8} (hfile : left.at? place = some (file bytes)) :
    ∃ bytes', right.at? place = some (file bytes') := by
  have hplace := h place
  rw [hfile] at hplace
  cases hright : right.at? place with
  | none => simp [hright] at hplace
  | some node =>
    rw [hright] at hplace
    cases node <;> simp_all [outline]

theorem Alike.symm {left right : Node} (h : Alike left right) : Alike right left :=
  fun place => (h place).symm

theorem Alike.at?_none {left right : Node} (h : Alike left right) {place : List String} :
    left.at? place = none ↔ right.at? place = none := by
  rw [← Option.map_eq_none_iff (f := outline), h place, Option.map_eq_none_iff]

/-! ### Trees whose entries have names -/

/-- What stands below a directory stands below one of its entries. -/
theorem exists_mem_of_at?_cons {entries : List (String × Node)} {name : String} {rest : List String}
    {node : Node} (h : (directory entries).at? (name :: rest) = some node) :
    ∃ child, (name, child) ∈ entries ∧ child.at? rest = some node := by
  obtain ⟨child, hchild, hrest⟩ := Option.bind_eq_some_iff.1 h
  obtain ⟨left, right, hsplit, -⟩ := List.lookup_eq_some_iff.1 hchild
  exact ⟨child, by simp [hsplit], hrest⟩

/-- Only the node itself stands in what is no directory. -/
theorem at?_of_not_directory {node : Node} (h : ∀ entries, node ≠ directory entries)
    {place : List String} {found : Node} (hat : node.at? place = some found) :
    place = [] ∧ found = node := by
  cases place with
  | nil => exact ⟨rfl, (Option.some.inj hat).symm⟩
  | cons name rest =>
    cases node with
    | file _ | link _ => cases hat
    | directory entries => exact absurd rfl (h entries)

/-- A tree in which every entry has a name of its own. -/
structure Tidy (node : Node) : Prop where
  named : ∀ place entries, node.at? place = some (directory entries) →
    ∀ e ∈ entries, Path.IsName e.1.toList
  distinct : ∀ place entries, node.at? place = some (directory entries) →
    (entries.map (·.1)).Nodup

/-- What stands in a tidy tree is tidy. -/
theorem Tidy.at? {node inner : Node} (h : node.Tidy) {place : List String}
    (hinner : node.at? place = some inner) : inner.Tidy where
  named rest entries hdir := h.named (place ++ rest) entries (by rw [at?_append, hinner]; exact hdir)
  distinct rest entries hdir :=
    h.distinct (place ++ rest) entries (by rw [at?_append, hinner]; exact hdir)

theorem tidy_of_not_directory {node : Node} (h : ∀ entries, node ≠ directory entries) :
    node.Tidy where
  named _ entries hat := absurd (at?_of_not_directory h hat).2.symm (h entries)
  distinct _ entries hat := absurd (at?_of_not_directory h hat).2.symm (h entries)

theorem tidy_file (bytes : List UInt8) : (file bytes).Tidy :=
  tidy_of_not_directory nofun

theorem tidy_link (target : String) : (link target).Tidy :=
  tidy_of_not_directory nofun

/-- A directory is tidy if it is one of tidy trees under names of their own. -/
theorem tidy_directory_iff {entries : List (String × Node)} :
    (directory entries).Tidy ↔ (∀ e ∈ entries, Path.IsName e.1.toList) ∧
      (entries.map (·.1)).Nodup ∧ ∀ e ∈ entries, e.2.Tidy := by
  constructor
  · intro h
    have hdistinct := h.distinct [] entries rfl
    refine ⟨h.named [] entries rfl, hdistinct, fun e he => ?_⟩
    have hat : (directory entries).at? [e.1] = some e.2 := by
      rw [at?, entry?, lookup_of_mem hdistinct he]
      rfl
    exact h.at? hat
  · rintro ⟨hnamed, hdistinct, htidy⟩
    constructor
    · rintro (_ | ⟨name, rest⟩) inner h
      · obtain rfl : entries = inner := by simpa [Node.at?] using h
        exact hnamed
      · obtain ⟨child, hchild, h⟩ := exists_mem_of_at?_cons h
        exact (htidy _ hchild).named _ _ h
    · rintro (_ | ⟨name, rest⟩) inner h
      · obtain rfl : entries = inner := by simpa [Node.at?] using h
        exact hdistinct
      · obtain ⟨child, hchild, h⟩ := exists_mem_of_at?_cons h
        exact (htidy _ hchild).distinct _ _ h

theorem tidy_directory_cons_iff {name : String} {node : Node} {rest : List (String × Node)} :
    (directory ((name, node) :: rest)).Tidy ↔
      Path.IsName name.toList ∧ name ∉ rest.map (·.1) ∧ node.Tidy ∧ (directory rest).Tidy := by
  rw [tidy_directory_iff, tidy_directory_iff, List.forall_mem_cons, List.forall_mem_cons,
    List.map_cons, List.nodup_cons]
  constructor
  · rintro ⟨⟨hname, hnamed⟩, ⟨hnew, hdistinct⟩, hnode, hrest⟩
    exact ⟨hname, hnew, hnode, hnamed, hdistinct, hrest⟩
  · rintro ⟨hname, hnew, hnode, hnamed, hdistinct, hrest⟩
    exact ⟨⟨hname, hnamed⟩, ⟨hnew, hdistinct⟩, hnode, hrest⟩

/-- A row of names that leads somewhere in a tidy tree consists of names. -/
theorem Tidy.isName_of_at? {node found : Node} (h : node.Tidy) {place : List String}
    (hat : node.at? place = some found) : ∀ name ∈ place, Path.IsName name.toList := by
  induction place generalizing node with
  | nil => exact nofun
  | cons name rest ih =>
    cases node with
    | file _ | link _ => cases hat
    | directory entries =>
      obtain ⟨child, hchild, hrest⟩ := exists_mem_of_at?_cons hat
      obtain ⟨hnamed, -, htidy⟩ := tidy_directory_iff.1 h
      exact List.forall_mem_cons.2 ⟨hnamed _ hchild, ih (htidy _ hchild) hrest⟩

/-! ### Trees of files and directories -/

/-- A tree of files and directories, in which every entry has a name of its own. -/
structure Plain (node : Node) : Prop where
  noLink : ∀ place target, node.at? place ≠ some (link target)
  named : ∀ place entries, node.at? place = some (directory entries) →
    ∀ e ∈ entries, Path.IsName e.1.toList
  distinct : ∀ place entries, node.at? place = some (directory entries) →
    (entries.map (·.1)).Nodup

theorem Plain.tidy {node : Node} (h : node.Plain) : node.Tidy :=
  ⟨h.named, h.distinct⟩

theorem Tidy.plain {node : Node} (h : node.Tidy)
    (hlinks : ∀ place target, node.at? place ≠ some (link target)) : node.Plain :=
  ⟨hlinks, h.named, h.distinct⟩

/-- What stands in a plain tree is plain. -/
theorem Plain.at? {node inner : Node} (h : node.Plain) {place : List String}
    (hinner : node.at? place = some inner) : inner.Plain :=
  (h.tidy.at? hinner).plain fun rest target hlink =>
    h.noLink (place ++ rest) target (by rw [at?_append, hinner]; exact hlink)

theorem plain_file (bytes : List UInt8) : (file bytes).Plain := by
  refine (tidy_file bytes).plain fun place target hlink => ?_
  have hnot : ∀ entries, file bytes ≠ directory entries := nofun
  cases (at?_of_not_directory hnot hlink).2

/-- A directory is plain if it is one of plain trees under names of their own. -/
theorem plain_directory_iff {entries : List (String × Node)} :
    (directory entries).Plain ↔ (∀ e ∈ entries, Path.IsName e.1.toList) ∧
      (entries.map (·.1)).Nodup ∧ ∀ e ∈ entries, e.2.Plain := by
  constructor
  · intro h
    obtain ⟨hnamed, hdistinct, htidy⟩ := tidy_directory_iff.1 h.tidy
    refine ⟨hnamed, hdistinct, fun e he => ?_⟩
    have hat : (directory entries).at? [e.1] = some e.2 := by
      rw [at?, entry?, lookup_of_mem hdistinct he]
      rfl
    exact h.at? hat
  · rintro ⟨hnamed, hdistinct, hplain⟩
    refine (tidy_directory_iff.2 ⟨hnamed, hdistinct, fun e he => (hplain e he).tidy⟩).plain ?_
    rintro (_ | ⟨name, rest⟩) target h
    · cases h
    · obtain ⟨child, hchild, h⟩ := exists_mem_of_at?_cons h
      exact (hplain _ hchild).noLink _ _ h

end Node

namespace Disk

open Node

/-! ### Where a path leads -/

/-- Only the places of directories and links count. -/
theorem walkFrom_alike {left right : Node} (h : Alike left right) (create : Bool)
    (follow : List String → List String → Except DiskFault (List String)) (place rest : List String) :
    walkFrom left create follow place rest = walkFrom right create follow place rest := by
  induction rest generalizing place with
  | nil => rfl
  | cons name rest ih =>
    rw [walkFrom, walkFrom, h.isDirectoryAt]
    simp only [ih]
    cases hleft : left.at? (place ++ [name]) with
    | none => rw [h.at?_none.1 hleft]
    | some node =>
      cases hright : right.at? (place ++ [name]) with
      | none => rw [h.at?_none.2 hright] at hleft; cases hleft
      | some node' =>
        cases node with
        | link target =>
          rw [h.at?_link hleft] at hright
          cases hright
          rfl
        | file bytes =>
          cases node' with
          | link target => rw [h.symm.at?_link hright] at hleft; cases hleft
          | file _ => rfl
          | directory _ => rfl
        | directory entries =>
          cases node' with
          | link target => rw [h.symm.at?_link hright] at hleft; cases hleft
          | file _ => rfl
          | directory _ => rfl

theorem walk_alike {left right : Node} (h : Alike left right) (create : Bool) (links : Nat) :
    walk left create links = walk right create links := by
  induction links with
  | zero =>
    funext place rest
    exact walkFrom_alike h create _ place rest
  | succ links ih =>
    funext place rest
    rw [walk, walk, ih]
    exact walkFrom_alike h create _ place rest

/-- **The bytes of files do not change where a path leads.** -/
theorem locate_alike {d d' : Disk} (h : Alike d.root d'.root) (hhere : d'.here = d.here)
    (create : Bool) (path : String) : d'.locate create path = d.locate create path := by
  unfold locate
  rw [walk_alike h, hhere]

/-- A walk that goes on goes on from where its first part leads, with what links are left to follow.
The first part leads to what is there, so that a name of no entry may only be met at the end. -/
theorem walkFrom_append {root : Node} {create : Bool}
    {follow follow' : List String → List String → Except DiskFault (List String)}
    (hfollow : ∀ {place segments end'}, follow place segments = .ok end' → ∀ rest, ∃ follow'',
      follow' place (segments ++ rest) = walkFrom root create follow'' end' rest)
    {place names end' : List String} (h : walkFrom root false follow place names = .ok end')
    (rest : List String) : ∃ follow'',
      walkFrom root create follow' place (names ++ rest) =
        walkFrom root create follow'' end' rest := by
  induction names generalizing place with
  | nil =>
    obtain rfl : place = end' := Except.ok.inj h
    exact ⟨follow', rfl⟩
  | cons name names ih =>
    rw [walkFrom] at h
    rw [List.cons_append, walkFrom]
    by_cases hdirectory : (!root.isDirectoryAt place) = true
    · rw [if_pos hdirectory] at h
      cases h
    rw [if_neg hdirectory] at h ⊢
    by_cases hblank : name = "" ∨ name = "."
    · rw [if_pos hblank] at h ⊢
      exact ih h
    rw [if_neg hblank] at h ⊢
    by_cases hup : name = ".."
    · rw [if_pos hup] at h ⊢
      exact ih h
    rw [if_neg hup] at h ⊢
    by_cases hlong : maxName < byteLength name
    · rw [if_pos hlong] at h
      cases h
    rw [if_neg hlong] at h ⊢
    cases hnode : root.at? (place ++ [name]) with
    | none =>
      rw [hnode] at h
      cases h
    | some node =>
      rw [hnode] at h
      cases node with
      | link target =>
        obtain ⟨follow'', hrest⟩ := hfollow h rest
        exact ⟨follow'', by rw [← hrest, List.append_assoc]⟩
      | file bytes => exact ih h
      | directory entries => exact ih h

theorem walk_append {root : Node} {links : Nat} {place names end' : List String}
    (h : walk root false links place names = .ok end') (create : Bool) (rest : List String) :
    ∃ follow,
      walk root create links place (names ++ rest) = walkFrom root create follow end' rest := by
  induction links generalizing place names end' rest with
  | zero =>
    refine walkFrom_append (fun hnone => ?_) h rest
    cases hnone
  | succ links ih =>
    refine walkFrom_append (fun hfollow => ?_) h rest
    exact ih hfollow

/-- **One name** leads on from its own place, unless a link stands there; the last one may be that of
nothing. -/
theorem walkFrom_cons_of_isName {root : Node} {create : Bool}
    {follow : List String → List String → Except DiskFault (List String)}
    {place rest end' : List String} {name : String} (hname : Path.IsName name.toList)
    (h : walkFrom root create follow place (name :: rest) = .ok end') :
    (∃ target, root.at? (place ++ [name]) = some (.link target)) ∨
    (∃ child, root.at? (place ++ [name]) = some child ∧
      walkFrom root create follow (place ++ [name]) rest = .ok end') ∨
    rest = [] ∧ end' = place ++ [name] := by
  obtain ⟨hblank, hup, -⟩ := Path.isName_toList_iff.1 hname
  rw [walkFrom] at h
  by_cases hdirectory : (!root.isDirectoryAt place) = true
  · rw [if_pos hdirectory] at h
    cases h
  rw [if_neg hdirectory, if_neg hblank, if_neg hup] at h
  by_cases hlong : maxName < byteLength name
  · rw [if_pos hlong] at h
    cases h
  rw [if_neg hlong] at h
  split at h
  · rename_i target hlink
    exact .inl ⟨target, hlink⟩
  · rename_i child _ hchild
    exact .inr (.inl ⟨child, hchild, h⟩)
  · split at h
    · rename_i hlast
      rw [Bool.and_eq_true, List.isEmpty_iff] at hlast
      exact .inr (.inr ⟨hlast.2, (Except.ok.inj h).symm⟩)
    · cases h

/-- **Below a plain tree** names lead to their own place, whether they are those of something or not. -/
theorem walkFrom_plain {root node : Node} {create : Bool}
    {follow : List String → List String → Except DiskFault (List String)}
    {place names end' : List String} (hnode : root.at? place = some node) (hplain : node.Plain)
    (hnames : ∀ name ∈ names, Path.IsName name.toList)
    (h : walkFrom root create follow place names = .ok end') : end' = place ++ names := by
  induction names generalizing place node with
  | nil => simpa using (Except.ok.inj h).symm
  | cons name names ih =>
    rw [List.forall_mem_cons] at hnames
    have hat : root.at? (place ++ [name]) = node.at? [name] := by
      rw [at?_append, hnode]
      rfl
    rcases walkFrom_cons_of_isName hnames.1 h with
      ⟨target, hlink⟩ | ⟨child, hchild, hrest⟩ | ⟨rfl, rfl⟩
    · exact absurd (hat ▸ hlink) (hplain.noLink [name] target)
    · have hreached : node.at? [name] = some child := hat ▸ hchild
      simpa using ih hchild (hplain.at? hreached) hnames.2 hrest
    · rfl

end Disk

end Reexport
