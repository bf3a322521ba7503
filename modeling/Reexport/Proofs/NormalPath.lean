import Reexport.Path

/-!
# Normal paths

The normal spelling of a path is a path whose normal spelling is itself, so a module that is known
under its normal path is found again by it. The segments that normalization keeps form a stack
(`Stacked`): names, and before them, in a relative path, the `..` that nothing answers. Reading the
written form of such segments gives them back, and normalization leaves them as they are.

## What is proved

* `normalize_normalize` — normalization is idempotent, on every text.
-/

namespace Reexport.Path

open Text

/-- The segment that leads to the directory above. -/
abbrev up : List Char := ['.', '.']

/-- The segments of a normal path, backwards, as `addSegment` keeps them. -/
inductive Stacked (rooted : Bool) : List (List Char) → Prop where
  /-- No segment. -/
  | nil : Stacked rooted []
  /-- One more `..` at the front of a relative path, after nothing but such segments. -/
  | up {stack : List (List Char)} (hroot : rooted = false) (hups : ∀ s ∈ stack, s = up)
      (rest : Stacked rooted stack) : Stacked rooted (up :: stack)
  /-- A name. -/
  | name {s : List Char} {stack : List (List Char)} (hne : s ≠ []) (hdot : s ≠ ['.']) (hup : s ≠ up)
      (hslash : '/' ∉ s) (rest : Stacked rooted stack) : Stacked rooted (s :: stack)

/-! ### Normalization keeps stacks -/

/-- Adding a segment to a stack gives a stack. -/
theorem Stacked.addSegment {rooted : Bool} {stack : List (List Char)} (h : Stacked rooted stack)
    {s : List Char} (hs : '/' ∉ s) : Stacked rooted (addSegment rooted stack s) := by
  unfold Path.addSegment
  split
  · exact h
  rename_i hblank
  rw [not_or] at hblank
  split
  · rename_i hup
    subst hup
    cases h with
    | nil =>
      cases rooted with
      | true => exact .nil
      | false => exact .up rfl nofun .nil
    | up hroot hups rest =>
      exact .up hroot (List.forall_mem_cons.2 ⟨rfl, hups⟩) (.up hroot hups rest)
    | name _ _ hup _ rest =>
      show Stacked rooted (if _ = Path.up then _ else _)
      rw [if_neg hup]
      exact rest
  · rename_i hup
    exact .name hblank.1 hblank.2 hup hs h

theorem stacked_foldl {rooted : Bool} {segments : List (List Char)}
    (hs : ∀ s ∈ segments, '/' ∉ s) {stack : List (List Char)} (h : Stacked rooted stack) :
    Stacked rooted (segments.foldl (addSegment rooted) stack) := by
  induction segments generalizing stack with
  | nil => exact h
  | cons s segments ih =>
    rw [List.forall_mem_cons] at hs
    exact ih hs.2 (h.addSegment hs.1)

/-- The segments of a stack, added again one after another, are the stack. -/
theorem Stacked.foldl_reverse {rooted : Bool} {stack : List (List Char)} (h : Stacked rooted stack) :
    stack.reverse.foldl (Path.addSegment rooted) [] = stack := by
  induction h with
  | nil => rfl
  | @up stack hroot hups rest ih =>
    rw [List.reverse_cons, List.foldl_append, ih]
    cases stack with
    | nil => simp [Path.addSegment, hroot]
    | cons s stack => simp [Path.addSegment, hups s List.mem_cons_self]
  | name hne hdot hup _ _ ih =>
    rw [List.reverse_cons, List.foldl_append, ih]
    simp [Path.addSegment, hne, hdot, hup]

/-- Empty segments say nothing. -/
theorem foldl_addSegment_replicate (rooted : Bool) (n : Nat) (segments : List (List Char))
    {stack : List (List Char)} :
    (List.replicate n [] ++ segments).foldl (addSegment rooted) stack =
      segments.foldl (addSegment rooted) stack := by
  induction n with
  | zero => rfl
  | succ n ih => simpa [List.replicate_succ, addSegment] using ih

theorem Stacked.ne_nil {rooted : Bool} {stack : List (List Char)} (h : Stacked rooted stack) :
    ∀ s ∈ stack, s ≠ [] := by
  induction h with
  | nil => exact nofun
  | up _ _ _ ih => exact List.forall_mem_cons.2 ⟨by simp, ih⟩
  | name hne _ _ _ _ ih => exact List.forall_mem_cons.2 ⟨hne, ih⟩

theorem Stacked.slash_not_mem {rooted : Bool} {stack : List (List Char)} (h : Stacked rooted stack) :
    ∀ s ∈ stack, '/' ∉ s := by
  induction h with
  | nil => exact nofun
  | up _ _ _ ih => exact List.forall_mem_cons.2 ⟨by decide, ih⟩
  | name _ _ _ hslash _ ih => exact List.forall_mem_cons.2 ⟨hslash, ih⟩

/-! ### Reading what was written -/

theorem rootSlashes_le (cs : List Char) : rootSlashes cs ≤ 2 := by
  unfold rootSlashes
  split <;> simp

/-- The slashes before a text that begins with another character are its root. -/
theorem rootSlashes_replicate {n : Nat} (hn : n ≤ 2) {c : Char} (hc : c ≠ '/') (cs : List Char) :
    rootSlashes (List.replicate n '/' ++ c :: cs) = n := by
  match n, hn with
  | 0, _ | 1, _ | 2, _ => simp [rootSlashes, hc]

theorem rootSlashes_of_head {cs : List Char} (h : cs.head? ≠ some '/') : rootSlashes cs = 0 := by
  cases cs with
  | nil => rfl
  | cons c cs =>
    have hc : c ≠ '/' := by simpa using h
    exact rootSlashes_replicate (Nat.zero_le 2) hc cs

/-- The root of a text does not reach beyond a character that is no slash. -/
theorem rootSlashes_append {cs rest : List Char}
    (h : rest.head? ≠ some '/' ∨ ∃ c ∈ cs, c ≠ '/') : rootSlashes (cs ++ rest) = rootSlashes cs := by
  match cs with
  | [] => exact rootSlashes_of_head (by simpa using h)
  | [a] =>
    by_cases ha : a = '/' <;> cases rest <;> simp_all [rootSlashes]
  | [a, b] =>
    by_cases ha : a = '/' <;> by_cases hb : b = '/' <;> cases rest <;> simp_all [rootSlashes]
  | a :: b :: c :: _ =>
    by_cases ha : a = '/' <;> by_cases hb : b = '/' <;> by_cases hc : c = '/' <;>
      simp_all [rootSlashes]

theorem split_replicate (n : Nat) (cs : List Char) :
    Text.split '/' (List.replicate n '/' ++ cs) = List.replicate n [] ++ Text.split '/' cs := by
  induction n with
  | zero => rfl
  | succ n ih => simp [List.replicate_succ, split, ih]

/-- The first character of joined segments is that of the first segment. -/
theorem join_eq_cons {segments : List (List Char)} (hne : segments ≠ [])
    (h : ∀ s ∈ segments, s ≠ [] ∧ '/' ∉ s) : ∃ c cs, Text.join ['/'] segments = c :: cs ∧ c ≠ '/' := by
  cases segments with
  | nil => exact absurd rfl hne
  | cons s rest =>
    obtain ⟨hs, hslash⟩ := h s List.mem_cons_self
    obtain ⟨c, cs, rfl⟩ := List.exists_cons_of_ne_nil hs
    have hc : c ≠ '/' := fun he => hslash (he ▸ List.mem_cons_self)
    cases rest with
    | nil => exact ⟨c, cs, rfl, hc⟩
    | cons next rest => exact ⟨c, cs ++ ['/'] ++ Text.join ['/'] (next :: rest), rfl, hc⟩

/-- The written form of a normal path reads as the same path. -/
theorem normal_read_write {n : Nat} (hn : n ≤ 2) {stack : List (List Char)}
    (h : Stacked (n ≠ 0) stack) :
    (Parts.read (Parts.write ⟨n, stack.reverse⟩)).normal = ⟨n, stack.reverse⟩ := by
  by_cases hne : stack = []
  · subst hne
    match n, hn with
    | 0, _ | 1, _ | 2, _ => rfl
  · have hsegs : ∀ s ∈ stack.reverse, s ≠ [] ∧ '/' ∉ s := fun s hs =>
      ⟨h.ne_nil s (List.mem_reverse.1 hs), h.slash_not_mem s (List.mem_reverse.1 hs)⟩
    have hrev : stack.reverse ≠ [] := by simpa using hne
    obtain ⟨c, cs, hjoin, hc⟩ := join_eq_cons hrev hsegs
    have hwrite : Parts.write ⟨n, stack.reverse⟩ = List.replicate n '/' ++ Text.join ['/'] stack.reverse := by
      rw [Parts.write, hjoin]
      split
      · simp_all
      · rfl
    have hroot : rootSlashes (List.replicate n '/' ++ Text.join ['/'] stack.reverse) = n := by
      rw [hjoin]
      exact rootSlashes_replicate hn hc cs
    have hsplit : Text.split '/' (List.replicate n '/' ++ Text.join ['/'] stack.reverse) =
        List.replicate n [] ++ stack.reverse := by
      rw [split_replicate, split_join hrev fun s hs => (hsegs s hs).2]
    rw [hwrite, Parts.read, hroot, hsplit, Parts.normal, foldl_addSegment_replicate, h.foldl_reverse]

/-- The normal spelling of a path reads as the path does. -/
theorem normal_read_normalize (path : String) :
    (Parts.read (normalize path).toList).normal = (Parts.read path.toList).normal := by
  have hstack : Stacked (rootSlashes path.toList ≠ 0)
      ((Text.split '/' path.toList).foldl (addSegment (rootSlashes path.toList ≠ 0)) []) :=
    stacked_foldl (fun _ hs => not_mem_of_mem_split hs) .nil
  unfold normalize
  rw [String.toList_ofList]
  exact normal_read_write (rootSlashes_le path.toList) hstack

/-- **Normalization is idempotent.** -/
theorem normalize_normalize (path : String) : normalize (normalize path) = normalize path := by
  rw [normalize, normal_read_normalize]
  rfl

end Reexport.Path
