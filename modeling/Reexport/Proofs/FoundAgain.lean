import Mathlib.Data.List.TakeWhile
import Reexport.Files.Memory
import Reexport.Proofs.PathText

/-!
# Modules found again

The path at which a module is found is meant to be canonical: normal, and the path that is found
again when the module is looked for by its own name in its own directory. Both hold of what is
found, but for two kinds of paths, and one of them fails of every path of these kinds.

* A specifier that leads to the directory `.` itself is tried with the index modules `./index.ts`
  and so on, and these are not normal.
* A module made from a `.cts` source is found at that source, but `.cts` is not among the extensions
  of modules; looked for by its own name, it is taken for a name without extension.

## What is proved

* `normalize_join_baseName` — the name of a path in its directory is the path, up to spelling.
* `normalize_of_mem_candidates` — the candidates for a normal path are normal, the index modules of
  `.` left out.
* `locate_again_iff` — hence what is found is normal, and found again, exactly if it is of neither
  kind.
-/

namespace Reexport

open Text

namespace Path

/-! ### A path by its directory and name -/

theorem slash_not_mem_baseName (path : String) : '/' ∉ (baseName path).toList := by
  rw [baseName, String.toList_ofList]
  intro h
  simpa using List.mem_takeWhile_imp (List.mem_reverse.1 h)

/-- A path is its directory, slashes, and its name. Without slashes between them the directory is
empty or the root; else it holds another character. -/
theorem exists_eq_directory_append (path : String) : ∃ k,
    path.toList = (directory path).toList ++ (List.replicate k '/' ++ (baseName path).toList) ∧
      (k = 0 ∧ (∃ n, (directory path).toList = List.replicate n '/') ∨
        0 < k ∧ ∃ c ∈ (directory path).toList, c ≠ '/') := by
  have hcut := List.takeWhile_append_dropWhile (p := (· ≠ '/')) (l := path.toList.reverse)
  have hfirst := List.head?_dropWhile_not (· ≠ '/') path.toList.reverse
  rw [directory, baseName, String.toList_ofList]
  generalize path.toList.reverse.takeWhile (· ≠ '/') = name at hcut
  generalize path.toList.reverse.dropWhile (· ≠ '/') = head at hcut hfirst
  have hpath : path.toList = head.reverse ++ name.reverse := by
    rw [← List.reverse_append, hcut, List.reverse_reverse]
  have hhead := List.takeWhile_append_dropWhile (p := (· = '/')) (l := head)
  have hslashes :
      head.takeWhile (· = '/') = List.replicate (head.takeWhile (· = '/')).length '/' := by
    refine List.eq_replicate_of_mem fun c hc => ?_
    simpa using List.mem_takeWhile_imp hc
  have hother := List.head?_dropWhile_not (· = '/') head
  generalize (head.takeWhile (· = '/')).length = k at hslashes
  rw [hslashes] at hhead
  cases htrim : head.dropWhile (· = '/') with
  | nil =>
    rw [htrim, List.append_nil] at hhead
    refine ⟨0, ?_, .inl ⟨rfl, k, ?_⟩⟩
    · simpa using hpath
    · simp [← hhead]
  | cons c cs =>
    rw [htrim] at hhead hother
    have hc : c ≠ '/' := by simpa using hother
    refine ⟨k, ?_, .inr ⟨?_, c, by simp, hc⟩⟩
    · rw [hpath, ← hhead]
      simp
    · refine Nat.pos_of_ne_zero fun hk => ?_
      -- What stands behind the name, read backwards, begins with a slash.
      rw [hk] at hhead
      rw [← hhead] at hfirst
      exact hc (by simpa using hfirst)

theorem foldl_split_replicate (rooted : Bool) (n : Nat) (cs : List Char)
    (stack : List (List Char)) :
    (Text.split '/' (List.replicate n '/' ++ cs)).foldl (addSegment rooted) stack =
      (Text.split '/' cs).foldl (addSegment rooted) stack := by
  rw [split_replicate, foldl_addSegment_replicate]

/-- The segments of a path are those of its directory and its name. -/
theorem normal_read_eq (path : String) : (Parts.read path.toList).normal =
    let read := (Parts.read (directory path).toList).normal
    ⟨read.slashes, ((Text.split '/' (baseName path).toList).foldl (addSegment (read.slashes ≠ 0))
      read.segments.reverse).reverse⟩ := by
  obtain ⟨k, hpath, hdirectory⟩ := exists_eq_directory_append path
  have hname : (baseName path).toList.head? ≠ some '/' := fun h =>
    slash_not_mem_baseName path (List.mem_of_mem_head? h)
  have hroot : rootSlashes path.toList = rootSlashes (directory path).toList := by
    rw [hpath]
    obtain ⟨rfl, -⟩ | ⟨-, hother⟩ := hdirectory
    · rw [List.replicate_zero, List.nil_append]
      exact rootSlashes_append (.inl hname)
    · exact rootSlashes_append (.inr hother)
  have hfold (rooted : Bool) : (Text.split '/' path.toList).foldl (addSegment rooted) [] =
      (Text.split '/' (baseName path).toList).foldl (addSegment rooted)
        ((Text.split '/' (directory path).toList).foldl (addSegment rooted) []) := by
    rw [hpath]
    obtain ⟨rfl, n, hroots⟩ | ⟨hk, -⟩ := hdirectory
    · have hnone := foldl_split_replicate rooted n [] []
      rw [List.append_nil] at hnone
      rw [hroots, hnone, List.replicate_zero, List.nil_append, foldl_split_replicate]
      rfl
    · obtain ⟨k, rfl⟩ := Nat.exists_eq_succ_of_ne_zero hk.ne'
      rw [List.replicate_succ, List.cons_append, split_append_slash, List.foldl_append,
        foldl_split_replicate]
  simp only [Parts.read, Parts.normal, hroot, hfold, List.reverse_reverse]
  rfl

/-- **The name of a path, looked for in the directory of the path**, is another spelling of the
path. -/
theorem normalize_join_baseName (path : String) :
    normalize (join (directory path) ("./" ++ baseName path)) = normalize path := by
  have hname : ("./" ++ baseName path).toList = '.' :: '/' :: (baseName path).toList := by
    rw [String.toList_append]
    rfl
  have hdot : '/' ∉ ['.'] := by decide
  have hfold (rooted : Bool) (stack : List (List Char)) :
      (Text.split '/' ("./" ++ baseName path).toList).foldl (addSegment rooted) stack =
        (Text.split '/' (baseName path).toList).foldl (addSegment rooted) stack := by
    have hsame : addSegment rooted stack ['.'] = stack := if_pos (.inr rfl)
    rw [hname, ← List.singleton_append, split_append_cons hdot, List.foldl_cons, hsame]
  rw [normalize, normalize, normal_read_join hname (by decide), normal_read_eq path]
  simp only [hfold]

/-! ### Names in normal directories -/

/-- A root and the segments of a stack, each with a slash behind it. -/
def opening (n : Nat) (stack : List (List Char)) : List Char :=
  List.replicate n '/' ++ stack.reverse.flatMap (· ++ ['/'])

theorem join_concat (segments : List (List Char)) (s : List Char) :
    Text.join ['/'] (segments ++ [s]) = segments.flatMap (· ++ ['/']) ++ s := by
  induction segments with
  | nil => rfl
  | cons t segments ih =>
    obtain ⟨u, rest, hrest⟩ := List.exists_cons_of_ne_nil (by simp : segments ++ [s] ≠ [])
    rw [hrest] at ih
    rw [List.cons_append, hrest, Text.join, ih, List.flatMap_cons]
    simp

/-- Segments are written as the last one of them behind the opening of the others. -/
theorem write_concat (n : Nat) {stack : List (List Char)} {s : List Char} (hs : s ≠ []) :
    Parts.write ⟨n, (s :: stack).reverse⟩ = opening n stack ++ s := by
  rw [Parts.write, List.reverse_cons, join_concat, opening, List.append_assoc]
  split
  · rename_i hnil
    simp [hs] at hnil
  · rfl

theorem opening_cons (n : Nat) (stack : List (List Char)) (s : List Char) :
    opening n (s :: stack) = opening n stack ++ s ++ ['/'] := by
  simp [opening]

/-- A text without a slash that ends such a path ends its last segment. -/
theorem suffix_opening_append {part : List Char} (h : '/' ∉ part) (n : Nat)
    (stack : List (List Char)) (s : List Char) : part <:+ opening n stack ++ s ↔ part <:+ s := by
  cases stack with
  | cons t stack =>
    rw [opening_cons, List.append_assoc, List.singleton_append, suffix_append_slash h]
  | nil =>
    cases n with
    | zero => rfl
    | succ n =>
      have hopening : opening (n + 1) [] = List.replicate n '/' ++ ['/'] := by
        simp [opening, List.replicate_succ']
      rw [hopening, List.append_assoc, List.singleton_append, suffix_append_slash h]

/-- A normal spelling is written from a stack. -/
theorem exists_stacked_normalize (path : String) : ∃ n stack, n ≤ 2 ∧ Stacked (n ≠ 0) stack ∧
    normalize path = String.ofList (Parts.write ⟨n, stack.reverse⟩) :=
  ⟨_, _, rootSlashes_le path.toList, stacked_foldl (fun _ hs => not_mem_of_mem_split hs) .nil, rfl⟩

section Named

variable {n : Nat} {stack : List (List Char)} {s : List Char}

/-- A name behind the opening of a stack is a normal path. -/
theorem normalize_opening_append (hn : n ≤ 2) (h : Stacked (n ≠ 0) stack) (hs : IsName s) :
    normalize (String.ofList (opening n stack ++ s)) = String.ofList (opening n stack ++ s) := by
  have hread := normal_read_write hn (h.name hs.1 hs.2.1 hs.2.2.1 hs.2.2.2)
  rw [write_concat n hs.1] at hread
  rw [normalize, String.toList_ofList, hread, write_concat n hs.1]

/-- The index module of such a path. -/
theorem join_opening_append (hne : s ≠ []) (hslash : '/' ∉ s) :
    join (String.ofList (opening n stack ++ s)) "index" =
      String.ofList (opening n (s :: stack) ++ "index".toList) := by
  obtain ⟨init, c, rfl⟩ := (List.eq_nil_or_concat s).resolve_left hne
  have hc : c ≠ '/' := fun he => hslash (by simp [he])
  have hends : ¬((String.ofList (opening n stack ++ init.concat c)).toList = [] ∨
      (String.ofList (opening n stack ++ init.concat c)).toList.getLast? = some '/') := by
    simpa using hc
  rw [join, if_neg (by decide), if_neg hends, ← String.toList_inj, opening_cons]
  simp

theorem Stacked.tail {rooted : Bool} (h : Stacked rooted (s :: stack)) : Stacked rooted stack := by
  cases h with
  | up _ _ rest => exact rest
  | name _ _ _ _ rest => exact rest

end Named

end Path

/-! ### Extensions -/

section Extensions

variable {extensions : List String} {path x : String}

theorem foldl_longer_mem (found : List String) (longest : String) :
    found.foldl longer longest = longest ∨ found.foldl longer longest ∈ found := by
  induction found generalizing longest with
  | nil => exact .inl rfl
  | cons x found ih =>
    rw [List.foldl_cons, List.mem_cons]
    rcases ih (longer longest x) with h | h
    · rw [h, longer]
      split
      · exact .inr (.inl rfl)
      · exact .inl rfl
    · exact .inr (.inr h)

theorem length_le_foldl_longer (found : List String) (longest : String) :
    longest.length ≤ (found.foldl longer longest).length ∧
      ∀ x ∈ found, x.length ≤ (found.foldl longer longest).length := by
  induction found generalizing longest with
  | nil => exact ⟨Nat.le_refl _, nofun⟩
  | cons x found ih =>
    obtain ⟨hlongest, hfound⟩ := ih (longer longest x)
    have hstep : longest.length ≤ (longer longest x).length ∧
        x.length ≤ (longer longest x).length := by
      rw [longer]
      split <;> omega
    exact ⟨hstep.1.trans hlongest, List.forall_mem_cons.2 ⟨hstep.2.trans hlongest, hfound⟩⟩

/-- The extension that is recognized is one of the extensions. -/
theorem recognizedExtension_mem (h : recognizedExtension extensions path ≠ "") :
    recognizedExtension extensions path ∈ extensions :=
  List.mem_of_mem_filter ((foldl_longer_mem _ _).resolve_left h)

/-- An extension is recognized wherever a path ends in one. -/
theorem recognizedExtension_ne_empty (hx : x ∈ extensions) (hne : x ≠ "")
    (h : endsWith x path = true) : recognizedExtension extensions path ≠ "" := by
  intro hnone
  have hlength := (length_le_foldl_longer (extensions.filter (endsWith · path)) "").2 x
    (List.mem_filter.2 ⟨hx, h⟩)
  rw [← recognizedExtension, hnone] at hlength
  exact hne (String.length_eq_zero_iff.1 (Nat.le_zero.1 hlength))

theorem endsWith_append (path x : String) : endsWith x (path ++ x) = true := by
  rw [endsWith, List.isSuffixOf_iff_suffix, String.toList_append]
  exact List.suffix_append _ _

/-- The extension of the sources that are no modules by their extension. -/
def strayExtension : String := ".cts"

/-- Sources have the extension of modules, or the stray one. -/
theorem mem_sourceExtensions (h : x ∈ sourceExtensions path) :
    x ∈ moduleExtensions ∨ x = strayExtension := by
  unfold sourceExtensions at h
  split at h <;> revert x <;> decide

/-- A path with the stray extension has no extension of modules. -/
theorem recognizedExtension_of_stray (h : endsWith strayExtension path = true) :
    recognizedExtension moduleExtensions path = "" := by
  by_contra hne
  have hmem := recognizedExtension_mem hne
  have hends := endsWith_recognizedExtension moduleExtensions path
  generalize recognizedExtension moduleExtensions path = x at hmem hends
  rw [endsWith, List.isSuffixOf_iff_suffix] at h hends
  have hnone : ∀ x ∈ moduleExtensions, ¬(strayExtension.toList <:+ x.toList ∨
      x.toList <:+ strayExtension.toList) := by
    decide
  exact hnone x hmem (List.suffix_or_suffix_of_suffix h hends)

/-- The candidates for a base path: with its extension, itself and its sources; without one, the path
with each extension, and the index modules. -/
theorem mem_candidates_iff {base : String} : path ∈ candidates extensions base ↔
    (recognizedExtension extensions base = "" ∧ ((∃ x ∈ extensions, path = base ++ x) ∨
        ∃ x ∈ extensions, path = Path.join base "index" ++ x)) ∨
      (recognizedExtension extensions base ≠ "" ∧ (path = base ∨
        ∃ x ∈ sourceExtensions (recognizedExtension extensions base), path = String.ofList
          (base.toList.take (base.length - (recognizedExtension extensions base).length)) ++ x)) := by
  simp only [candidates]
  split
  · rename_i h
    simp [h, List.mem_append, List.mem_map, eq_comm]
  · rename_i h
    simp [h, List.mem_cons, List.mem_map, eq_comm]

/-- Candidates end in an extension of modules, or in the stray one. -/
theorem endsWith_of_mem_candidates {base : String} (h : path ∈ candidates moduleExtensions base) :
    (∃ x ∈ moduleExtensions, endsWith x path = true) ∨ endsWith strayExtension path = true := by
  rcases mem_candidates_iff.1 h with
    ⟨-, ⟨x, hx, rfl⟩ | ⟨x, hx, rfl⟩⟩ | ⟨hne, rfl | ⟨x, hx, rfl⟩⟩
  · exact .inl ⟨x, hx, endsWith_append _ x⟩
  · exact .inl ⟨x, hx, endsWith_append _ x⟩
  · exact .inl ⟨_, recognizedExtension_mem hne, endsWith_recognizedExtension _ _⟩
  · rcases mem_sourceExtensions hx with hmodule | rfl
    · exact .inl ⟨x, hmodule, endsWith_append _ x⟩
    · exact .inr (endsWith_append _ _)

end Extensions

/-! ### Candidates for normal paths -/

open Reexport.Path

/-- The index modules of the directory `.`, as they are tried. -/
def hereIndexes : List String :=
  moduleExtensions.map ("./index" ++ ·)

section Candidates

variable {n : Nat} {stack : List (List Char)} {s : List Char} {base path : String}

/-- The candidates for a path with a last segment are names in normal directories. -/
theorem normalize_of_mem_candidates_opening (hn : n ≤ 2) (h : Stacked (n ≠ 0) (s :: stack))
    (hbase : base = String.ofList (opening n stack ++ s)) (hnormal : normalize base = base)
    (hpath : path ∈ candidates moduleExtensions base) : normalize path = path := by
  have hne : s ≠ [] := h.ne_nil s List.mem_cons_self
  have hslash : '/' ∉ s := h.slash_not_mem s List.mem_cons_self
  have hnamed {t x : List Char} (ht : '/' ∉ t) (hx : 2 < x.length ∧ '/' ∉ x)
      {stack : List (List Char)} (hstack : Stacked (n ≠ 0) stack) {path : String}
      (hpath : path.toList = opening n stack ++ t ++ x) : normalize path = path := by
    have h := normalize_opening_append hn hstack (isName_append ht hx)
    rwa [← List.append_assoc, ← hpath, String.ofList_toList] at h
  rcases mem_candidates_iff.1 hpath with
    ⟨-, ⟨x, hx, rfl⟩ | ⟨x, hx, rfl⟩⟩ | ⟨hext, rfl | ⟨x, hx, rfl⟩⟩
  · exact hnamed hslash (moduleExtensions_named hx) h.tail (by simp [hbase])
  · rw [hbase, join_opening_append hne hslash]
    exact hnamed (t := "index".toList) (by decide) (moduleExtensions_named hx) h (by simp)
  · exact hnormal
  · have hends := endsWith_recognizedExtension moduleExtensions base
    have hlast := (moduleExtensions_named (recognizedExtension_mem hext)).2
    have hsource := sourceExtensions_named hx
    generalize recognizedExtension moduleExtensions base = e at hends hlast
    rw [endsWith, List.isSuffixOf_iff_suffix, hbase, String.toList_ofList,
      suffix_opening_append hlast] at hends
    obtain ⟨t, rfl⟩ := hends
    refine hnamed (t := t) (fun ht => hslash (by simp [ht])) hsource h.tail ?_
    have hlength : base.length - e.length = (opening n stack ++ t).length := by
      rw [hbase, String.length_ofList, ← String.length_toList, List.length_append,
        List.length_append, List.length_append]
      omega
    rw [String.toList_append, String.toList_ofList, hlength, hbase, String.toList_ofList,
      ← List.append_assoc, List.take_left]

/-- **The candidates for a normal path** are normal, except for the index modules of `.`. -/
theorem normalize_of_mem_candidates {spelling : String}
    (h : path ∈ candidates moduleExtensions (normalize spelling)) :
    normalize path = path ∨ normalize spelling = "." ∧ path ∈ hereIndexes := by
  obtain ⟨n, stack, hn, hstack, hbase⟩ := exists_stacked_normalize spelling
  have hnormal := normalize_normalize spelling
  generalize normalize spelling = base at h hbase hnormal
  cases stack with
  | cons s stack =>
    rw [write_concat n (hstack.ne_nil s List.mem_cons_self)] at hbase
    exact .inl (normalize_of_mem_candidates_opening hn hstack hbase hnormal h)
  | nil =>
    have hroots : base = "." ∨ base = "/" ∨ base = "//" := by
      rw [hbase, ← String.toList_inj, ← String.toList_inj, ← String.toList_inj, String.toList_ofList]
      match n, hn with
      | 0, _ => exact .inl rfl
      | 1, _ => exact .inr (.inl rfl)
      | 2, _ => exact .inr (.inr rfl)
    have hdot : ∀ path ∈ candidates moduleExtensions ".",
        normalize path = path ∨ path ∈ hereIndexes := by
      decide +kernel
    have hslash : ∀ path ∈ candidates moduleExtensions "/", normalize path = path := by
      decide +kernel
    have hslashes : ∀ path ∈ candidates moduleExtensions "//", normalize path = path := by
      decide +kernel
    rcases hroots with hroot | hroot | hroot <;> rw [hroot] at h
    · exact (hdot path h).imp_right fun hhere => ⟨hroot, hhere⟩
    · exact .inl (hslash path h)
    · exact .inl (hslashes path h)

end Candidates

/-! ### Found again -/

section Found

variable {m : MemoryFiles} {path specifier directory : String}

theorem locate_eq_some_iff {files : Files} {extensions : List String} :
    locate files extensions specifier directory = some path ↔
      Entry.isRelativeSource specifier = true ∧
        (candidates extensions (normalize (Path.join directory specifier))).find? files.holds =
          some path := by
  unfold locate
  split <;> simp_all

/-- Looking for a path by its own name in its own directory. -/
theorem locate_baseName (files : Files) (extensions : List String) (path : String) :
    locate files extensions ("./" ++ baseName path) (Path.directory path) =
      (candidates extensions (normalize path)).find? files.holds := by
  have hrelative : Entry.isRelativeSource ("./" ++ baseName path) = true := by
    simp [Entry.isRelativeSource, String.toList_append]
  rw [locate, if_pos hrelative, normalize_join_baseName]

theorem holds_normalize (m : MemoryFiles) (path : String) :
    m.holds (normalize path) = m.holds path := by
  rw [MemoryFiles.holds, normalize_normalize, MemoryFiles.holds]

/-- An index module of `.` is not normal. Its normal spelling has the same extension. -/
theorem normalize_of_mem_hereIndexes (h : path ∈ hereIndexes) : normalize path ≠ path ∧
    endsWith strayExtension path = false ∧
      ∃ x ∈ moduleExtensions, endsWith x (normalize path) = true := by
  revert path
  decide +kernel

/-- The path with an extension of modules is its own first candidate. -/
theorem candidates_of_endsWith {x : String} (hx : x ∈ moduleExtensions)
    (h : endsWith x path = true) : ∃ rest, candidates moduleExtensions path = path :: rest := by
  have hne : x ≠ "" := by
    rintro rfl
    revert hx
    decide
  rw [candidates]
  simp only [if_neg (recognizedExtension_ne_empty hx hne h)]
  exact ⟨_, rfl⟩

/-- A path without an extension is not among its candidates. -/
theorem not_mem_candidates (h : recognizedExtension moduleExtensions path = "") :
    path ∉ candidates moduleExtensions path := by
  intro hmem
  have hlonger : ∀ (front x : String), x ∈ moduleExtensions → path.length ≤ front.length →
      path ≠ front ++ x := by
    intro front x hx hfront heq
    have hlength := congrArg String.length heq
    have hx := (moduleExtensions_named hx).1
    rw [String.length_append, ← String.length_toList (s := x)] at hlength
    omega
  rcases mem_candidates_iff.1 hmem with ⟨-, ⟨x, hx, heq⟩ | ⟨x, hx, heq⟩⟩ | ⟨hne, -⟩
  · exact hlonger path x hx (Nat.le_refl _) heq
  · refine hlonger _ x hx ?_ heq
    rw [Path.join, if_neg (by decide)]
    split <;> (simp only [String.length_append]; omega)
  · exact hne h

/-- **Found again.** What a specifier leads to is a module that is there. Its path is normal exactly
if it is no index module of `.` as such modules are tried, which a specifier for the directory `.`
itself can alone lead to. Looked for by its own name in its own directory, the module is found at the
normal spelling of the path, exactly if it has not the stray extension. So the path is found again
exactly if it is neither. -/
theorem locate_again_iff (h : locate m.files moduleExtensions specifier directory = some path) :
    m.holds path = true ∧
      (normalize path = path ↔ path ∉ hereIndexes) ∧
      (path ∈ hereIndexes → normalize (Path.join directory specifier) = ".") ∧
      (locate m.files moduleExtensions ("./" ++ baseName path) (Path.directory path) =
        some (normalize path) ↔ endsWith strayExtension path = false) ∧
      (locate m.files moduleExtensions ("./" ++ baseName path) (Path.directory path) = some path ↔
        path ∉ hereIndexes ∧ endsWith strayExtension path = false) := by
  obtain ⟨hrelative, hfind⟩ := locate_eq_some_iff.1 h
  have hmem := List.mem_of_find?_eq_some hfind
  have hholds : m.holds path = true := List.find?_some hfind
  have hnormal := normalize_of_mem_candidates hmem
  have hkept (hstray : endsWith strayExtension path = true) : normalize path = path := by
    refine hnormal.resolve_right fun hhere => ?_
    rw [(normalize_of_mem_hereIndexes hhere.2).2.1] at hstray
    cases hstray
  have hagain : locate m.files moduleExtensions ("./" ++ baseName path) (Path.directory path) =
      some (normalize path) ↔ endsWith strayExtension path = false := by
    rw [locate_baseName]
    cases hstray : endsWith strayExtension path with
    | true =>
      rw [hkept hstray]
      refine iff_of_false (fun hfound => ?_) (by simp)
      exact not_mem_candidates (recognizedExtension_of_stray hstray)
        (List.mem_of_find?_eq_some hfound)
    | false =>
      refine iff_of_true ?_ rfl
      obtain ⟨x, hx, hends⟩ : ∃ x ∈ moduleExtensions, endsWith x (normalize path) = true := by
        rcases hnormal with hsame | hhere
        · rw [hsame]
          exact (endsWith_of_mem_candidates hmem).resolve_right (by simp [hstray])
        · exact (normalize_of_mem_hereIndexes hhere.2).2.2
      obtain ⟨rest, hcandidates⟩ := candidates_of_endsWith hx hends
      rw [hcandidates, List.find?_cons_of_pos]
      exact (holds_normalize m path).trans hholds
  have hhere : normalize path = path ↔ path ∉ hereIndexes :=
    ⟨fun hkept hmem => (normalize_of_mem_hereIndexes hmem).1 hkept,
      fun hnot => hnormal.resolve_right fun hhere => hnot hhere.2⟩
  refine ⟨hholds, hhere, fun hmem => ?_, hagain, ?_⟩
  · exact (hnormal.resolve_left (normalize_of_mem_hereIndexes hmem).1).1
  · rw [← hhere]
    constructor
    · intro hfound
      have hstray : endsWith strayExtension path = false := by
        rw [← Bool.not_eq_true]
        intro hstray
        have hnone := hagain.1 (hfound.trans (congrArg some (hkept hstray).symm))
        rw [hstray] at hnone
        cases hnone
      have hsome := hagain.2 hstray
      rw [hfound, Option.some.injEq] at hsome
      exact ⟨hsome.symm, hstray⟩
    · rintro ⟨hkept, hstray⟩
      rw [hagain.2 hstray, hkept]

/-- The only module that is stored is found at a path. -/
def FoundAt (stored specifier directory path : String) : Prop :=
  locate (MemoryFiles.ofList [(stored, "")]).files moduleExtensions specifier directory = some path

instance (stored specifier directory path : String) :
    Decidable (FoundAt stored specifier directory path) :=
  inferInstanceAs (Decidable (_ = _))

/-- An index module is found again under its own name. -/
theorem locate_again_iff_index :
    FoundAt "/p/lib/index.ts" "./lib/" "/p/." "/p/lib/index.ts" ∧
      FoundAt "/p/lib/index.ts" ("./" ++ baseName "/p/lib/index.ts")
        (Path.directory "/p/lib/index.ts") "/p/lib/index.ts" := by
  have hfound : FoundAt "/p/lib/index.ts" "./lib/" "/p/." "/p/lib/index.ts" := by
    decide +kernel
  exact ⟨hfound, (locate_again_iff hfound).2.2.2.2.2 (by decide +kernel)⟩

/-- What `.` leads to is found under a path that is not normal, and found again under another one.
A module made from a `.cts` source is found at that source, and not found again. -/
theorem locate_not_again :
    FoundAt "index.ts" "." "" "./index.ts" ∧ normalize "./index.ts" = "index.ts" ∧
      ¬FoundAt "index.ts" ("./" ++ baseName "./index.ts") (Path.directory "./index.ts")
        "./index.ts" ∧
      FoundAt "/p/a.cts" "./a.cjs" "/p" "/p/a.cts" ∧
      ¬FoundAt "/p/a.cts" ("./" ++ baseName "/p/a.cts") (Path.directory "/p/a.cts") "/p/a.cts" := by
  decide +kernel

end Found

end Reexport
