import Reexport.Proofs.AbsolutePath

/-!
# Below a directory

What stands below a directory is named by what its path says from the directory on (`below`), and
may be moved below another directory (`moved`). A specifier in a module below a directory leads to
some path as seen from there (`seenFrom`); it leads out of the directory if that path begins by
stepping up (`LeadsOut`), which no later part of it undoes.

## What is proved

* `Absolute.isBelow_text_iff` — what is below an absolute path: the paths of names below it.
* `Absolute.moved_pathOf` — where it is moved.
* `exists_base` — the path that a specifier means is made of the names that it leads to as seen from
  the directory, unless it leads out, so it is the same below every directory.
-/

namespace Reexport.Path

open Text

/-- What a path says from a directory on. -/
def below (directory path : String) : String :=
  String.ofList ((path.toList.drop directory.length).dropWhile (· = '/'))

/-- Whether a path is the normal path of something below a directory. -/
def IsBelow (directory path : String) : Prop :=
  normalize path = path ∧ below directory path ≠ "" ∧ join directory (below directory path) = path

instance (directory path : String) : Decidable (IsBelow directory path) :=
  inferInstanceAs (Decidable (_ ∧ _))

/-- The path below the new directory of what is at a path below the old one. -/
def moved (old new path : String) : String :=
  join new (below old path)

/-- The path that a specifier means in the module at a path, as seen from a directory. -/
def seenFrom (directory path specifier : String) : String :=
  normalize (join (below directory (Path.directory path)) specifier)

/-- Whether a path, as seen from a directory, leads out of it. -/
def LeadsOut (path : String) : Prop :=
  up ∈ Text.split '/' path.toList

instance (path : String) : Decidable (LeadsOut path) :=
  inferInstanceAs (Decidable (_ ∈ _))

/-- What a path says from a directory on does not begin with a slash. -/
theorem exists_toList_below {directory path : String} (h : below directory path ≠ "") :
    ∃ c cs, (below directory path).toList = c :: cs ∧ c ≠ '/' := by
  have hhead := List.head?_dropWhile_not (· = '/') (path.toList.drop directory.length)
  unfold below at h ⊢
  rw [String.toList_ofList]
  cases hcs : (path.toList.drop directory.length).dropWhile (· = '/') with
  | nil => simp [hcs] at h
  | cons c cs =>
    rw [hcs] at hhead
    exact ⟨c, cs, rfl, by simpa using hhead⟩

/-! ### Names below a directory -/

namespace Absolute

variable {a : Absolute} {names : List (List Char)}

/-- A path of names begins with the directory and goes on with the names, after a slash if there is
none before them. -/
theorem exists_toList_pathOf (a : Absolute) (names : List (List Char)) : ∃ n,
    (a.pathOf names).toList =
      a.text.toList ++ (List.replicate n '/' ++ Text.join ['/'] names) := by
  by_cases hne : names = []
  · exact ⟨0, by simp [hne, pathOf_nil, Text.join]⟩
  · rw [pathOf, String.toList_ofList, toList_text]
    by_cases hroot : a.names = []
    · exact ⟨0, by simp [hroot, Text.join]⟩
    · exact ⟨1, by simp [join_append hroot hne]⟩

/-- What a path of names says from the directory on is the names. -/
theorem below_pathOf (h : ∀ s ∈ names, IsName s) :
    below a.text (a.pathOf names) = String.ofList (Text.join ['/'] names) := by
  obtain ⟨n, hn⟩ := a.exists_toList_pathOf names
  rw [below, hn, ← String.length_toList, List.drop_left,
    List.dropWhile_append_of_pos (by simp)]
  by_cases hne : names = []
  · rw [hne]
    rfl
  · obtain ⟨c, cs, hjoin, hc⟩ := join_eq_cons hne fun s hs => ⟨(h s hs).1, (h s hs).2.2.2⟩
    rw [hjoin, List.dropWhile_cons, if_neg (by simpa using hc)]

section Joined

variable {rest : String} {c : Char} {cs : List Char}

/-- The normal spelling of what is joined to an absolute path is one with as many slashes. -/
theorem exists_normalize_join (a : Absolute) (hrest : rest.toList = c :: cs) (hc : c ≠ '/') :
    ∃ whole : Absolute, whole.double = a.double ∧ normalize (join a.text rest) = whole.text := by
  let stack := (Text.split '/' rest.toList).foldl (addSegment true) a.names.reverse
  have hstack : Stacked true stack := stacked_foldl (fun _ hs => not_mem_of_mem_split hs)
    (stacked_of_named fun s hs => a.named s (List.mem_reverse.1 hs))
  let whole : Absolute := {
    double := a.double
    names := stack.reverse
    named := fun s hs => stacked_true_iff.1 hstack s (List.mem_reverse.1 hs) }
  refine ⟨whole, rfl, ?_⟩
  rw [a.normalize_join hrest hc, ← String.ofList_toList (s := whole.text), ← whole.write_eq]
  rfl

/-- What is joined to an absolute path and is normal has the names of the path and then its own. -/
theorem names_of_join_eq_text {whole : Absolute} (hdouble : whole.double = a.double)
    (hrest : rest.toList = c :: cs) (hc : c ≠ '/') (h : join a.text rest = whole.text) :
    whole.names = a.names ++ Text.split '/' rest.toList := by
  have hslashes : whole.slashes = a.slashes := by rw [slashes, slashes, hdouble]
  have hsplit := split_join_names (n := a.slashes) a.named hrest hc
  rw [← text, h, whole.split_text, hslashes] at hsplit
  have hnames : (if whole.names = [] then [[]] else whole.names) =
      a.names ++ Text.split '/' rest.toList := List.append_cancel_left hsplit
  by_cases hnil : whole.names = []
  · -- one empty segment alone would be that of an empty text
    rw [if_pos hnil, List.singleton_eq_append_iff] at hnames
    obtain ⟨-, hempty⟩ := hnames.resolve_right fun h => split_ne_nil '/' _ h.2
    have hback := join_split '/' rest.toList
    rw [hempty, hrest] at hback
    cases hback
  · rwa [if_neg hnil] at hnames

end Joined

/-- What is below an absolute path: the paths of names below it. -/
theorem isBelow_text_iff {path : String} :
    IsBelow a.text path ↔ ∃ names, names ≠ [] ∧ (∀ s ∈ names, IsName s) ∧ path = a.pathOf names := by
  constructor
  · rintro ⟨hnormal, hne, hjoin⟩
    obtain ⟨c, cs, hbelow, hc⟩ := exists_toList_below hne
    generalize below a.text path = rest at hne hjoin hbelow
    obtain ⟨whole, hdouble, hwhole⟩ := a.exists_normalize_join hbelow hc
    rw [hjoin, hnormal] at hwhole
    have hnames := names_of_join_eq_text hdouble hbelow hc (hjoin.trans hwhole)
    refine ⟨Text.split '/' rest.toList, split_ne_nil '/' _, fun s hs => ?_, ?_⟩
    · exact whole.named s (hnames ▸ List.mem_append_right _ hs)
    · rw [hwhole, text, slashes, hdouble, hnames]
      rfl
  · rintro ⟨names, hne, h, rfl⟩
    have hbelow := below_pathOf (a := a) h
    refine ⟨(a.enter names h).normalize_text, ?_, ?_⟩
    · obtain ⟨c, cs, hjoin, -⟩ := join_eq_cons hne fun s hs => ⟨(h s hs).1, (h s hs).2.2.2⟩
      rw [hbelow, hjoin]
      simp
    · rw [hbelow, a.join_text hne h, text_enter]

/-- What is below a directory is moved name by name. -/
theorem moved_pathOf (b : Absolute) (hne : names ≠ []) (h : ∀ s ∈ names, IsName s) :
    moved a.text b.text (a.pathOf names) = b.pathOf names := by
  rw [moved, below_pathOf h, b.join_text hne h, text_enter]

end Absolute

/-! ### Where a specifier leads -/

/-- Two dots that lead out of a relative path stay in it, whatever comes after them. -/
theorem up_mem_addSegment {stack : List (List Char)} (h : up ∈ stack) (s : List Char) :
    up ∈ addSegment false stack s := by
  unfold addSegment
  split
  · exact h
  split
  · cases stack with
    | nil => cases h
    | cons top stack =>
      show up ∈ if top = up then _ else _
      split
      · exact List.mem_cons_of_mem _ h
      · rename_i hname
        exact (List.mem_cons.1 h).resolve_left (Ne.symm hname)
  · exact List.mem_cons_of_mem _ h

theorem up_mem_foldl {stack : List (List Char)} (h : up ∈ stack) (segments : List (List Char)) :
    up ∈ segments.foldl (addSegment false) stack := by
  induction segments generalizing stack with
  | nil => exact h
  | cons s segments ih => exact ih (up_mem_addSegment h s)

/-- A step that does not lead out of a relative path is the same below an absolute one. -/
theorem addSegment_append {stack : List (List Char)} {s : List Char}
    (h : up ∉ addSegment false stack s) (base : List (List Char)) :
    addSegment true (stack ++ base) s = addSegment false stack s ++ base := by
  unfold addSegment at h ⊢
  by_cases hblank : s = [] ∨ s = ['.']
  · rw [if_pos hblank, if_pos hblank]
  rw [if_neg hblank] at h ⊢
  rw [if_neg hblank]
  by_cases hup : s = up
  · rw [if_pos hup] at h ⊢
    rw [if_pos hup]
    cases stack with
    | nil => exact absurd (by simp [hup]) h
    | cons top stack =>
      by_cases htop : top = up
      · exact absurd (by simp [htop, hup]) h
      · simp [htop]
  · rw [if_neg hup, if_neg hup, List.cons_append]

/-- **Steps that do not lead out** of a relative path are the same below an absolute one. -/
theorem foldl_addSegment_append {segments stack : List (List Char)}
    (h : up ∉ segments.foldl (addSegment false) stack) (base : List (List Char)) :
    segments.foldl (addSegment true) (stack ++ base) =
      segments.foldl (addSegment false) stack ++ base := by
  induction segments generalizing stack with
  | nil => rfl
  | cons s segments ih =>
    have hstep : up ∉ addSegment false stack s := fun hup => h (up_mem_foldl hup segments)
    rw [List.foldl_cons, List.foldl_cons, addSegment_append hstep base, ih h]

/-- The names to which a specifier leads from other names, backwards; below them stand the steps up
that no name answers. -/
def reached (names : List (List Char)) (specifier : String) : List (List Char) :=
  (Text.split '/' specifier.toList).foldl (addSegment false) names.reverse

theorem stacked_reached {names : List (List Char)} (h : ∀ s ∈ names, IsName s)
    (specifier : String) : Stacked false (reached names specifier) :=
  stacked_foldl (fun _ hs => not_mem_of_mem_split hs)
    (stacked_of_named fun s hs => h s (List.mem_reverse.1 hs))

section Specifier

variable {init : List (List Char)} {last : List Char} {specifier : String} {c : Char}
  {cs : List Char}

/-- What a specifier means, as seen from the directory, in a module below it. -/
theorem seenFrom_pathOf (a : Absolute) (hinit : ∀ s ∈ init, IsName s) (hlast : IsName last)
    (hspecifier : specifier.toList = c :: cs) (hc : c ≠ '/') :
    seenFrom a.text (a.pathOf (init ++ [last])) specifier =
      String.ofList (Parts.write ⟨0, (reached init specifier).reverse⟩) := by
  have hnormal := normalize_join_names (Nat.zero_le 2) hinit hspecifier hc
  rw [List.replicate_zero, List.nil_append] at hnormal
  rw [seenFrom, Absolute.directory_pathOf hinit hlast.2.2.2, Absolute.below_pathOf hinit, hnormal]
  rfl

/-- A step up that no name answers is seen. -/
theorem leadsOut_of_up_mem {stack : List (List Char)} (h : Stacked false stack) (hup : up ∈ stack) :
    LeadsOut (String.ofList (Parts.write ⟨0, stack.reverse⟩)) := by
  have hne : stack.reverse ≠ [] := by simpa using List.ne_nil_of_mem hup
  have hsegments : ∀ s ∈ stack.reverse, s ≠ [] ∧ '/' ∉ s := fun s hs =>
    ⟨h.ne_nil s (List.mem_reverse.1 hs), h.slash_not_mem s (List.mem_reverse.1 hs)⟩
  obtain ⟨d, ds, hjoin, -⟩ := join_eq_cons hne hsegments
  have hwrite : Parts.write ⟨0, stack.reverse⟩ = Text.join ['/'] stack.reverse := by
    rw [Parts.write, List.replicate_zero, List.nil_append, hjoin]
  rw [LeadsOut, String.toList_ofList, hwrite, split_join hne fun s hs => (hsegments s hs).2]
  exact List.mem_reverse.2 hup

/-- **The path that a specifier means**, if it does not lead out of the directory: the names that it
leads to, whatever the directory is. -/
theorem exists_base (hinit : ∀ s ∈ init, IsName s) (hlast : IsName last)
    (hspecifier : specifier.toList = c :: cs) (hc : c ≠ '/') {a : Absolute}
    (hinside : ¬LeadsOut (seenFrom a.text (a.pathOf (init ++ [last])) specifier)) :
    ∃ names, (∀ s ∈ names, IsName s) ∧
      (names = [] → seenFrom a.text (a.pathOf (init ++ [last])) specifier = ".") ∧
      ∀ b : Absolute,
        normalize (join (directory (b.pathOf (init ++ [last]))) specifier) = b.pathOf names := by
  rw [seenFrom_pathOf a hinit hlast hspecifier hc] at hinside ⊢
  have hstacked := stacked_reached hinit specifier
  have hup : up ∉ reached init specifier := fun hup => hinside (leadsOut_of_up_mem hstacked hup)
  have hnames : ∀ s ∈ (reached init specifier).reverse, IsName s :=
    fun s hs => hstacked.named hup s (List.mem_reverse.1 hs)
  refine ⟨(reached init specifier).reverse, hnames, fun hnil => by rw [hnil]; rfl, fun b => ?_⟩
  have hsteps := foldl_addSegment_append hup b.names.reverse
  have hnormal := (b.enter init hinit).normalize_join hspecifier hc
  simp only [Absolute.enter, List.reverse_append] at hnormal
  rw [hsteps, List.reverse_append, List.reverse_reverse] at hnormal
  rw [Absolute.directory_pathOf hinit hlast.2.2.2, ← Absolute.text_enter hinit,
    ← Absolute.text_enter hnames, ← String.ofList_toList (s := (b.enter _ hnames).text),
    ← Absolute.write_eq]
  exact hnormal

end Specifier

end Reexport.Path
