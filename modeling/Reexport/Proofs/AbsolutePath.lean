import Reexport.Proofs.NormalPath
import Mathlib.Data.List.Basic

/-!
# Absolute paths

An absolute path in its normal spelling is one slash or two and a row of names (`Absolute`). The
normal spelling of every absolute path is of this form, and so is what an absolute path and a row of
names are joined to. Reading the text of such a path gives its names back.

## What is proved

* `exists_absolute` — the normal spelling of an absolute path is that of an `Absolute`.
* `Absolute.split_text` — its text read as segments.
* `Absolute.normalize_text`, `Absolute.plain_text` — its text is normal and plain.
* `normalize_join_names` — the normal spelling of what is joined to slashes and names.
* `Absolute.join_text` — names are joined to an absolute path one after another.
* `Absolute.pathOf_inj`, `Absolute.directory_pathOf` — names below it, read off their path.
-/

namespace Reexport.Path

open Text

/-- Whether a segment is a name, which leads neither here nor up. -/
def IsName (s : List Char) : Prop :=
  s ≠ [] ∧ s ≠ ['.'] ∧ s ≠ up ∧ '/' ∉ s

instance (s : List Char) : Decidable (IsName s) :=
  inferInstanceAs (Decidable (_ ∧ _))

/-- A segment without slashes is a name unless it is one of the marks. -/
theorem isName_toList_iff {name : String} : IsName name.toList ↔
    ¬(name = "" ∨ name = ".") ∧ name ≠ ".." ∧ '/' ∉ name.toList := by
  simp only [IsName, not_or, and_assoc, ne_eq, ← String.toList_inj, up]
  rfl

/-- Names alone are a stack. -/
theorem stacked_of_named {rooted : Bool} {stack : List (List Char)} (h : ∀ s ∈ stack, IsName s) :
    Stacked rooted stack := by
  induction stack with
  | nil => exact .nil
  | cons s stack ih =>
    obtain ⟨⟨hne, hdot, hup, hslash⟩, hrest⟩ := List.forall_mem_cons.1 h
    exact .name hne hdot hup hslash (ih hrest)

/-- A stack without `..` consists of names. -/
theorem Stacked.named {rooted : Bool} {stack : List (List Char)} (h : Stacked rooted stack)
    (hups : Path.up ∉ stack) : ∀ s ∈ stack, IsName s := by
  induction h with
  | nil => exact nofun
  | up => exact absurd List.mem_cons_self hups
  | name hne hdot hup hslash _ ih =>
    rw [List.mem_cons, not_or] at hups
    exact List.forall_mem_cons.2 ⟨⟨hne, hdot, hup, hslash⟩, ih hups.2⟩

/-- The stack of an absolute path consists of names. -/
theorem stacked_true_iff {stack : List (List Char)} : Stacked true stack ↔ ∀ s ∈ stack, IsName s := by
  refine ⟨fun h => h.named fun hup => ?_, stacked_of_named⟩
  induction h with
  | nil => exact absurd hup List.not_mem_nil
  | up hroot => cases hroot
  | name _ _ hne _ _ ih => exact ih ((List.mem_cons.1 hup).resolve_left (Ne.symm hne))

/-- An absolute path in its normal spelling. -/
structure Absolute where
  /-- Whether its root is marked by two slashes. -/
  double : Bool := false
  /-- Its names from the root on. -/
  names : List (List Char)
  named : ∀ s ∈ names, IsName s

namespace Absolute

variable (a : Absolute)

/-- The slashes that mark the root. -/
def slashes : Nat :=
  if a.double then 2 else 1

/-- The path as it is written. -/
def text : String :=
  String.ofList (List.replicate a.slashes '/' ++ Text.join ['/'] a.names)

/-- The path of what further names lead to. -/
def enter (names : List (List Char)) (h : ∀ s ∈ names, IsName s) : Absolute where
  double := a.double
  names := a.names ++ names
  named := fun s hs => (List.mem_append.1 hs).elim (a.named s) (h s)

theorem slashes_eq : a.slashes = 1 ∨ a.slashes = 2 := by
  unfold slashes
  cases a.double with
  | false => exact .inl rfl
  | true => exact .inr rfl

theorem slashes_ne_zero : a.slashes ≠ 0 := by
  rcases a.slashes_eq with h | h <;> simp [h]

theorem slashes_le : a.slashes ≤ 2 := by
  rcases a.slashes_eq with h | h <;> simp [h]

theorem stacked : Stacked (decide (a.slashes ≠ 0)) a.names.reverse := by
  exact stacked_of_named fun s hs => a.named s (List.mem_reverse.1 hs)

@[simp] theorem toList_text :
    a.text.toList = List.replicate a.slashes '/' ++ Text.join ['/'] a.names :=
  String.toList_ofList

theorem write_eq : Parts.write ⟨a.slashes, a.names⟩ = a.text.toList := by
  rw [toList_text]
  obtain ⟨n, hn⟩ := Nat.exists_eq_succ_of_ne_zero a.slashes_ne_zero
  rw [Parts.write, hn, List.replicate_succ]
  rfl

theorem isAbsolute_text : isAbsolute a.text = true := by
  obtain ⟨n, hn⟩ := Nat.exists_eq_succ_of_ne_zero a.slashes_ne_zero
  simp [isAbsolute, hn, List.replicate_succ]

/-- Before the names stand empty segments, one for each slash; without names, there is one more. -/
theorem split_text : Text.split '/' a.text.toList =
    List.replicate a.slashes [] ++ (if a.names = [] then [[]] else a.names) := by
  rw [toList_text, split_replicate]
  by_cases hne : a.names = []
  · rw [if_pos hne, hne]
    rfl
  · rw [if_neg hne, split_join hne fun s hs => (a.named s hs).2.2.2]

theorem rootSlashes_text : rootSlashes a.text.toList = a.slashes := by
  rw [toList_text]
  by_cases hne : a.names = []
  · rw [hne]
    rcases a.slashes_eq with h | h <;> rw [h] <;> rfl
  · obtain ⟨c, cs, hjoin, hc⟩ := join_eq_cons hne fun s hs => ⟨(a.named s hs).1, (a.named s hs).2.2.2⟩
    rw [hjoin]
    exact rootSlashes_replicate a.slashes_le hc cs

/-- An absolute path of names is normal. -/
@[simp] theorem normalize_text : normalize a.text = a.text := by
  have h := normal_read_write a.slashes_le a.stacked
  rw [List.reverse_reverse, write_eq] at h
  rw [normalize, h, write_eq, String.ofList_toList]

/-- An absolute path of names is plain. -/
@[simp] theorem plain_text : plain a.text = a.text := by
  have hkept : (Text.split '/' a.text.toList).filter (fun s => s ≠ [] && s ≠ ['.']) = a.names := by
    have hnames : a.names.filter (fun s => s ≠ [] && s ≠ ['.']) = a.names := by
      rw [List.filter_eq_self]
      intro s hs
      simp [(a.named s hs).1, (a.named s hs).2.1]
    rw [split_text, List.filter_append]
    by_cases hne : a.names = []
    · simp [hne]
    · rw [if_neg hne, hnames]
      simp
  unfold plain
  rw [Parts.read, rootSlashes_text]
  show String.ofList (Parts.write ⟨a.slashes, (Text.split '/' a.text.toList).filter _⟩) = a.text
  rw [hkept, write_eq, String.ofList_toList]

end Absolute

/-- **The normal spelling of an absolute path.** -/
theorem exists_absolute {path : String} (h : isAbsolute path = true) :
    ∃ a : Absolute, normalize path = a.text := by
  obtain ⟨cs, hcs⟩ : ∃ cs, path.toList = '/' :: cs := by
    cases hpath : path.toList with
    | nil => simp [isAbsolute, hpath] at h
    | cons c cs =>
      obtain rfl : c = '/' := by simpa [isAbsolute, hpath] using h
      exact ⟨cs, rfl⟩
  have hslashes : rootSlashes path.toList = 1 ∨ rootSlashes path.toList = 2 := by
    rw [hcs]
    unfold rootSlashes
    split <;> simp_all
  have hroot : decide (rootSlashes path.toList ≠ 0) = true := by
    rcases hslashes with h | h <;> rw [h] <;> rfl
  have hstack : Stacked true ((Text.split '/' path.toList).foldl (addSegment true) []) :=
    stacked_foldl (fun _ hs => not_mem_of_mem_split hs) .nil
  let a : Absolute := {
    double := rootSlashes path.toList = 2
    names := ((Text.split '/' path.toList).foldl (addSegment true) []).reverse
    named := fun s hs => stacked_true_iff.1 hstack s (List.mem_reverse.1 hs) }
  have hsame : rootSlashes path.toList = a.slashes := by
    rcases hslashes with h | h <;> simp [a, Absolute.slashes, h]
  refine ⟨a, ?_⟩
  rw [← String.ofList_toList (s := a.text), ← a.write_eq, ← hsame, normalize, Parts.read,
    Parts.normal]
  simp only [hroot]
  rfl

/-! ### Joining -/

theorem join_append {left right : List (List Char)} (hleft : left ≠ []) (hright : right ≠ []) :
    Text.join ['/'] (left ++ right) = Text.join ['/'] left ++ '/' :: Text.join ['/'] right := by
  induction left with
  | nil => exact absurd rfl hleft
  | cons s left ih =>
    cases left with
    | nil =>
      obtain ⟨t, rest, rfl⟩ := List.exists_cons_of_ne_nil hright
      simp [Text.join]
    | cons t left =>
      have h := ih (by simp)
      rw [List.cons_append] at h
      rw [List.cons_append, List.cons_append, Text.join, h]
      simp [Text.join]

/-- Pieces without separators come back from what they are joined to, whatever follows. -/
theorem split_join_append {pieces : List (List Char)} (hne : pieces ≠ [])
    (h : ∀ s ∈ pieces, '/' ∉ s) (rest : List Char) :
    Text.split '/' (Text.join ['/'] pieces ++ '/' :: rest) = pieces ++ Text.split '/' rest := by
  induction pieces with
  | nil => exact absurd rfl hne
  | cons s pieces ih =>
    rw [List.forall_mem_cons] at h
    cases pieces with
    | nil => exact split_append_cons h.1 rest
    | cons t pieces =>
      rw [Text.join, List.append_assoc, List.append_assoc, List.singleton_append,
        split_append_cons h.1, ih (by simp) h.2]
      rfl

/-- The last character of joined names is that of the last name. -/
theorem join_eq_concat {names : List (List Char)} (hne : names ≠ []) (h : ∀ s ∈ names, IsName s) :
    ∃ cs c, Text.join ['/'] names = cs ++ [c] ∧ c ≠ '/' := by
  induction names with
  | nil => exact absurd rfl hne
  | cons s names ih =>
    rw [List.forall_mem_cons] at h
    cases names with
    | nil =>
      obtain ⟨cs, c, hs⟩ := (List.eq_nil_or_concat s).resolve_left h.1.1
      have hmem : c ∈ s := by simp [hs]
      exact ⟨cs, c, by simpa [Text.join] using hs, fun hc => h.1.2.2.2 (hc ▸ hmem)⟩
    | cons t names =>
      obtain ⟨cs, c, hjoin, hc⟩ := ih (by simp) h.2
      exact ⟨s ++ ['/'] ++ cs, c, by rw [Text.join, hjoin]; simp, hc⟩

section Joining

variable {n : Nat} {names : List (List Char)} {path : String} {c : Char} {cs : List Char}

/-- What is joined to slashes and names, and does not begin with a slash, stands after the names. -/
theorem toList_join_names (h : ∀ s ∈ names, IsName s) (hpath : path.toList = c :: cs) (hc : c ≠ '/') :
    (join (String.ofList (List.replicate n '/' ++ Text.join ['/'] names)) path).toList =
      List.replicate n '/' ++
        (if names = [] then path.toList else Text.join ['/'] names ++ '/' :: path.toList) := by
  have hrelative : isAbsolute path = false := by simpa [isAbsolute, hpath] using hc
  rw [join, hrelative, if_neg (by simp), String.toList_ofList]
  by_cases hnone : names = []
  · have hends : List.replicate n '/' = [] ∨ (List.replicate n '/').getLast? = some '/' := by
      cases n with
      | zero => exact .inl rfl
      | succ n => exact .inr (by simp [List.replicate_succ'])
    rw [hnone, Text.join, List.append_nil, if_pos hends]
    simp
  · obtain ⟨ds, d, hlast, hd⟩ := join_eq_concat hnone h
    have hends : ¬(List.replicate n '/' ++ Text.join ['/'] names = [] ∨
        (List.replicate n '/' ++ Text.join ['/'] names).getLast? = some '/') := by
      rw [hlast, ← List.append_assoc]
      simpa using hd
    rw [if_neg hends, if_neg hnone]
    simp

/-- Its root is that of the slashes. -/
theorem rootSlashes_join_names (hn : n ≤ 2) (h : ∀ s ∈ names, IsName s)
    (hpath : path.toList = c :: cs) (hc : c ≠ '/') :
    rootSlashes (join (String.ofList (List.replicate n '/' ++ Text.join ['/'] names)) path).toList =
      n := by
  rw [toList_join_names h hpath hc]
  by_cases hnone : names = []
  · rw [if_pos hnone, hpath]
    exact rootSlashes_replicate hn hc cs
  · obtain ⟨d, ds, hjoin, hd⟩ := join_eq_cons hnone fun s hs => ⟨(h s hs).1, (h s hs).2.2.2⟩
    rw [if_neg hnone, hjoin]
    exact rootSlashes_replicate hn hd _

/-- Its segments come after the names. -/
theorem split_join_names (h : ∀ s ∈ names, IsName s) (hpath : path.toList = c :: cs) (hc : c ≠ '/') :
    Text.split '/'
        (join (String.ofList (List.replicate n '/' ++ Text.join ['/'] names)) path).toList =
      List.replicate n [] ++ (names ++ Text.split '/' path.toList) := by
  rw [toList_join_names h hpath hc, split_replicate]
  by_cases hnone : names = []
  · rw [if_pos hnone, hnone, List.nil_append]
  · rw [if_neg hnone, split_join_append hnone fun s hs => (h s hs).2.2.2]

/-- **The normal spelling** of what is joined to slashes and names: its segments are added to the
names. -/
theorem normalize_join_names (hn : n ≤ 2) (h : ∀ s ∈ names, IsName s)
    (hpath : path.toList = c :: cs) (hc : c ≠ '/') :
    normalize (join (String.ofList (List.replicate n '/' ++ Text.join ['/'] names)) path) =
      String.ofList (Parts.write ⟨n,
        ((Text.split '/' path.toList).foldl (addSegment (n ≠ 0)) names.reverse).reverse⟩) := by
  have hstacked : Stacked (n ≠ 0) names.reverse :=
    stacked_of_named fun s hs => h s (List.mem_reverse.1 hs)
  have hnames := hstacked.foldl_reverse
  rw [List.reverse_reverse] at hnames
  rw [normalize, Parts.read, rootSlashes_join_names hn h hpath hc, split_join_names h hpath hc,
    Parts.normal, foldl_addSegment_replicate, List.foldl_append, hnames]

end Joining

/-! ### What is joined to a directory -/

theorem split_append_slash (cs rest : List Char) :
    Text.split '/' (cs ++ '/' :: rest) = Text.split '/' cs ++ Text.split '/' rest := by
  have h := split_join_append (split_ne_nil '/' cs) (fun _ hs => not_mem_of_mem_split hs) rest
  rwa [join_split] at h

section Directory

variable {directory path : String} {c : Char} {cs : List Char}

/-- What does not begin with a slash is read after the directory. -/
theorem foldl_split_join (rooted : Bool) (hpath : path.toList = c :: cs) (hc : c ≠ '/') :
    (Text.split '/' (join directory path).toList).foldl (addSegment rooted) [] =
      (Text.split '/' path.toList).foldl (addSegment rooted)
        ((Text.split '/' directory.toList).foldl (addSegment rooted) []) := by
  have hrelative : isAbsolute path = false := by simpa [isAbsolute, hpath] using hc
  rw [join, hrelative, if_neg (by simp)]
  split
  · rename_i hends
    rw [String.toList_append]
    rcases hends with hnil | hlast
    · rw [hnil, List.nil_append]
      rfl
    · obtain ⟨ds, hds⟩ := List.getLast?_eq_some_iff.1 hlast
      rw [hds, List.append_assoc, List.singleton_append, split_append_slash, split_append_slash,
        List.foldl_append, List.foldl_append]
      rfl
  · rw [String.toList_append, String.toList_append, List.append_assoc]
    show (Text.split '/' (directory.toList ++ '/' :: path.toList)).foldl _ _ = _
    rw [split_append_slash, List.foldl_append]

/-- Its root is that of the directory. -/
theorem rootSlashes_join (hpath : path.toList = c :: cs) (hc : c ≠ '/') :
    rootSlashes (join directory path).toList = rootSlashes directory.toList := by
  have hrelative : isAbsolute path = false := by simpa [isAbsolute, hpath] using hc
  rw [join, hrelative, if_neg (by simp)]
  split
  · rw [String.toList_append]
    exact rootSlashes_append (.inl (by simpa [hpath] using hc))
  · rename_i hends
    rw [not_or] at hends
    obtain ⟨ds, d, hds⟩ := (List.eq_nil_or_concat directory.toList).resolve_left hends.1
    have hd : d ≠ '/' := by simpa [hds] using hends.2
    rw [String.toList_append, String.toList_append, List.append_assoc]
    exact rootSlashes_append (.inr ⟨d, by simp [hds], hd⟩)

/-- What is read of a path depends on what is read of the directory. -/
theorem normal_read_join (hpath : path.toList = c :: cs) (hc : c ≠ '/') :
    (Parts.read (join directory path).toList).normal =
      let read := (Parts.read directory.toList).normal
      ⟨read.slashes, ((Text.split '/' path.toList).foldl (addSegment (read.slashes ≠ 0))
        read.segments.reverse).reverse⟩ := by
  simp only [Parts.read, Parts.normal, rootSlashes_join hpath hc, foldl_split_join _ hpath hc,
    List.reverse_reverse]
  rfl

/-- **Only the normal spelling of a directory counts** for the normal spelling of what is joined to
it. -/
theorem normalize_join_of_normalize_eq {directory' : String}
    (h : normalize directory = normalize directory') (hpath : path.toList = c :: cs) (hc : c ≠ '/') :
    normalize (join directory path) = normalize (join directory' path) := by
  have hread : (Parts.read directory.toList).normal = (Parts.read directory'.toList).normal := by
    rw [← normal_read_normalize, h, normal_read_normalize]
  rw [normalize, normalize, normal_read_join hpath hc, normal_read_join hpath hc, hread]

end Directory

namespace Absolute

variable (a : Absolute)

/-- Names that are joined to an absolute path are entered one after another. -/
theorem join_text {names : List (List Char)} (hne : names ≠ []) (h : ∀ s ∈ names, IsName s) :
    join a.text (String.ofList (Text.join ['/'] names)) = (a.enter names h).text := by
  obtain ⟨c, cs, hjoin, hc⟩ := join_eq_cons hne fun s hs => ⟨(h s hs).1, (h s hs).2.2.2⟩
  have hslashes : (a.enter names h).slashes = a.slashes := rfl
  rw [← String.toList_inj, text, toList_join_names a.named (by rw [String.toList_ofList, hjoin]) hc,
    toList_text, hslashes, String.toList_ofList]
  by_cases hroot : a.names = []
  · simp [enter, hroot]
  · simp [enter, hroot, join_append hroot hne]

/-- **The normal spelling** of what is joined to an absolute path. -/
theorem normalize_join {path : String} {c : Char} {cs : List Char} (hpath : path.toList = c :: cs)
    (hc : c ≠ '/') : normalize (join a.text path) = String.ofList (Parts.write ⟨a.slashes,
      ((Text.split '/' path.toList).foldl (addSegment true) a.names.reverse).reverse⟩) := by
  rw [text, normalize_join_names a.slashes_le a.named hpath hc, decide_eq_true a.slashes_ne_zero]

/-! ### What stands below an absolute path -/

/-- The path of names below an absolute path. -/
def pathOf (names : List (List Char)) : String :=
  String.ofList (List.replicate a.slashes '/' ++ Text.join ['/'] (a.names ++ names))

variable {a} {names : List (List Char)}

theorem text_enter (h : ∀ s ∈ names, IsName s) : (a.enter names h).text = a.pathOf names := rfl

/-- What is below a path of names is below the directory. -/
theorem pathOf_enter (h : ∀ s ∈ names, IsName s) (others : List (List Char)) :
    (a.enter names h).pathOf others = a.pathOf (names ++ others) := by
  unfold pathOf
  rw [← List.append_assoc]
  rfl

/-- A path that is no root is that of a name in another one. -/
theorem exists_enter (h : a.names ≠ []) : ∃ parent : Absolute, ∃ last,
    ∃ hlast : ∀ s ∈ [last], IsName s, a = parent.enter [last] hlast := by
  obtain ⟨init, last, hnames⟩ := (List.eq_nil_or_concat a.names).resolve_left h
  rw [List.concat_eq_append] at hnames
  refine ⟨⟨a.double, init, fun s hs => a.named s (by simp [hnames, hs])⟩, last,
    fun s hs => a.named s (by simp_all), ?_⟩
  cases a
  cases hnames
  rfl

theorem pathOf_nil : a.pathOf [] = a.text := by
  rw [pathOf, List.append_nil, text]

/-- Names are read off their path. -/
theorem pathOf_inj {others : List (List Char)} (hne : names ≠ []) (h : ∀ s ∈ names, IsName s)
    (hne' : others ≠ []) (h' : ∀ s ∈ others, IsName s) :
    a.pathOf names = a.pathOf others ↔ names = others := by
  constructor
  · intro heq
    have hsplit := (a.enter names h).split_text
    rw [text_enter, heq, ← text_enter h', split_text, if_neg (by simp [enter, hne']),
      if_neg (by simp [enter, hne])] at hsplit
    exact (List.append_cancel_left (List.append_cancel_left hsplit)).symm
  · rintro rfl
    rfl

/-- What stands before the last slash of a path of names. -/
def front (a : Absolute) (names : List (List Char)) : List Char :=
  if a.names ++ names = [] then List.replicate (a.slashes - 1) '/'
  else (a.pathOf names).toList

/-- A path of names reads as the names that are entered last, after a slash. -/
theorem toList_pathOf_append (a : Absolute) (names : List (List Char)) {others : List (List Char)}
    (hne : others ≠ []) : (a.pathOf (names ++ others)).toList =
      a.front names ++ '/' :: Text.join ['/'] others := by
  obtain ⟨n, hn⟩ := Nat.exists_eq_succ_of_ne_zero a.slashes_ne_zero
  rw [pathOf, String.toList_ofList, ← List.append_assoc, front]
  by_cases hroot : a.names ++ names = []
  · rw [if_pos hroot, hroot, hn, List.replicate_succ']
    simp
  · rw [if_neg hroot, join_append hroot hne, pathOf, String.toList_ofList, List.append_assoc]

/-- A path of names ends in its last name. -/
theorem toList_pathOf_concat (a : Absolute) (names : List (List Char)) (last : List Char) :
    (a.pathOf (names ++ [last])).toList = a.front names ++ '/' :: last :=
  a.toList_pathOf_append names (List.cons_ne_nil last [])

/-- A path of names, read backwards, has its last name before the last slash. -/
theorem reverse_pathOf_concat (a : Absolute) (names : List (List Char)) {last : List Char}
    (hlast : '/' ∉ last) :
    (a.pathOf (names ++ [last])).toList.reverse.takeWhile (· ≠ '/') = last.reverse ∧
      (a.pathOf (names ++ [last])).toList.reverse.dropWhile (· ≠ '/') =
        '/' :: (a.front names).reverse := by
  have hkept : ∀ c ∈ last.reverse, decide (c ≠ '/') = true := by
    intro c hc
    rw [decide_eq_true_iff]
    rintro rfl
    exact hlast (List.mem_reverse.1 hc)
  have hreverse : (a.pathOf (names ++ [last])).toList.reverse =
      last.reverse ++ '/' :: (a.front names).reverse := by
    rw [toList_pathOf_concat]
    simp
  rw [hreverse, List.takeWhile_append_of_pos hkept, List.dropWhile_append_of_pos hkept]
  simp

/-- What stands after the last slash of a path of names is the last name. -/
theorem baseName_pathOf (a : Absolute) (names : List (List Char)) {last : List Char}
    (hlast : '/' ∉ last) : baseName (a.pathOf (names ++ [last])) = String.ofList last := by
  rw [baseName, (a.reverse_pathOf_concat names hlast).1, List.reverse_reverse]

/-- The directory of a path of names is that of the names before the last one. -/
theorem directory_pathOf (h : ∀ s ∈ names, IsName s) {last : List Char} (hlast : '/' ∉ last) :
    directory (a.pathOf (names ++ [last])) = a.pathOf names := by
  rw [directory, (a.reverse_pathOf_concat names hlast).2]
  by_cases hroot : a.names ++ names = []
  · obtain ⟨n, hn⟩ := Nat.exists_eq_succ_of_ne_zero a.slashes_ne_zero
    have hall : ('/' :: (a.front names).reverse) = List.replicate a.slashes '/' := by
      rw [front, if_pos hroot, hn, List.reverse_replicate, ← List.replicate_succ]
      rfl
    rw [hall, List.dropWhile_replicate, if_pos (by simp), List.reverse_replicate, pathOf, hroot]
    simp [Text.join]
  · have hnames : ∀ s ∈ a.names ++ names, IsName s := fun s hs =>
      (List.mem_append.1 hs).elim (a.named s) (h s)
    obtain ⟨cs, c, hjoin, hc⟩ := join_eq_concat hroot hnames
    have hfront : a.front names = (List.replicate a.slashes '/' ++ cs) ++ [c] := by
      rw [front, if_neg hroot, pathOf, String.toList_ofList, hjoin, List.append_assoc]
    have htrimmed : ('/' :: (a.front names).reverse).dropWhile (· = '/') =
        c :: (List.replicate a.slashes '/' ++ cs).reverse := by
      rw [hfront]
      simp [hc]
    rw [htrimmed]
    show String.ofList (c :: (List.replicate a.slashes '/' ++ cs).reverse).reverse = a.pathOf names
    rw [List.reverse_cons, List.reverse_reverse, ← hfront, front, if_neg hroot, String.ofList_toList]

/-- A root is the path after whose last slash nothing stands. -/
theorem baseName_text_eq_empty : baseName a.text = "" ↔ a.names = [] := by
  constructor
  · intro h
    by_contra hroot
    obtain ⟨parent, last, hlast, rfl⟩ := a.exists_enter hroot
    have hname := hlast last List.mem_cons_self
    have hbase := parent.baseName_pathOf [] hname.2.2.2
    rw [List.nil_append, ← text_enter hlast, h] at hbase
    exact hname.1 (by simpa using congrArg String.toList hbase.symm)
  · intro h
    rw [text, h]
    rcases a.slashes_eq with h | h <;> rw [h] <;> rfl

end Absolute

end Reexport.Path
