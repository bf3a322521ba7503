import Reexport.Entry

/-!
# First occurrences

`firsts key xs` keeps the first of the items of `xs` that share a key; `distinct` does so for
entries and their identities.
-/

namespace Reexport

variable {α β : Type} [DecidableEq β]

/-- The items whose key is new, after the keys already seen. -/
def firstsAfter (key : α → β) : List β → List α → List α
  | _, [] => []
  | seen, x :: xs =>
    if key x ∈ seen then firstsAfter key seen xs else x :: firstsAfter key (key x :: seen) xs

/-- The first item of each key, in their order. -/
def firsts (key : α → β) (xs : List α) : List α :=
  firstsAfter key [] xs

/-- The first entry of each identity, in their order. -/
def distinct (entries : List Entry) : List Entry :=
  firsts Entry.identity entries

theorem firstsAfter_sublist (key : α → β) (seen : List β) (xs : List α) :
    (firstsAfter key seen xs).Sublist xs := by
  induction xs generalizing seen with
  | nil => exact .slnil
  | cons x xs ih =>
    unfold firstsAfter
    split
    · exact (ih seen).cons x
    · exact (ih _).cons_cons x

theorem not_mem_seen_of_mem_firstsAfter {key : α → β} {seen : List β} {xs : List α} {x : α}
    (h : x ∈ firstsAfter key seen xs) : key x ∉ seen := by
  induction xs generalizing seen with
  | nil => simp [firstsAfter] at h
  | cons y ys ih =>
    unfold firstsAfter at h
    split at h
    · exact ih h
    · rcases List.mem_cons.1 h with rfl | h
      · assumption
      · exact fun hx => ih h (List.mem_cons_of_mem _ hx)

/-- No key is kept twice. -/
theorem nodup_map_firsts (key : α → β) (xs : List α) : ((firsts key xs).map key).Nodup := by
  suffices ∀ seen, ((firstsAfter key seen xs).map key).Nodup from this []
  intro seen
  induction xs generalizing seen with
  | nil => simp [firstsAfter]
  | cons x xs ih =>
    unfold firstsAfter
    split
    · exact ih seen
    · refine List.nodup_cons.2 ⟨?_, ih _⟩
      intro h
      obtain ⟨y, hy, heq⟩ := List.mem_map.1 h
      exact not_mem_seen_of_mem_firstsAfter hy (heq ▸ List.mem_cons_self)

theorem nodup_firsts_id (xs : List β) : (firsts id xs).Nodup := by
  have h := nodup_map_firsts id xs
  rwa [List.map_id] at h

theorem mem_map_firstsAfter_iff {key : α → β} {seen : List β} {xs : List α} {k : β} :
    k ∈ (firstsAfter key seen xs).map key ↔ k ∈ xs.map key ∧ k ∉ seen := by
  induction xs generalizing seen with
  | nil => simp [firstsAfter]
  | cons x xs ih =>
    unfold firstsAfter
    split
    · rename_i hseen
      rw [ih, List.map_cons, List.mem_cons]
      constructor
      · rintro ⟨h, hk⟩
        exact ⟨.inr h, hk⟩
      · rintro ⟨rfl | h, hk⟩
        · exact absurd hseen hk
        · exact ⟨h, hk⟩
    · rename_i hnew
      rw [List.map_cons, List.mem_cons, ih, List.map_cons, List.mem_cons, List.mem_cons]
      constructor
      · rintro (rfl | ⟨h, hk⟩)
        · exact ⟨.inl rfl, hnew⟩
        · exact ⟨.inr h, fun hseen => hk (.inr hseen)⟩
      · rintro ⟨h, hk⟩
        by_cases hx : k = key x
        · exact .inl hx
        · exact .inr ⟨h.resolve_left hx, not_or.2 ⟨hx, hk⟩⟩

/-- Every key is kept. -/
theorem mem_map_firsts_iff {key : α → β} {xs : List α} {k : β} :
    k ∈ (firsts key xs).map key ↔ k ∈ xs.map key := by
  rw [firsts, mem_map_firstsAfter_iff]
  simp

theorem mem_firsts_id_iff {xs : List β} {x : β} : x ∈ firsts id xs ↔ x ∈ xs := by
  have h : x ∈ (firsts id xs).map id ↔ x ∈ xs.map id := mem_map_firsts_iff
  simpa using h

theorem mem_of_mem_firsts {key : α → β} {xs : List α} {x : α} (h : x ∈ firsts key xs) : x ∈ xs :=
  (firstsAfter_sublist key [] xs).subset h

/-- The first item of each key is kept, and no other one. -/
theorem mem_firsts_iff {key : α → β} {xs : List α} {x : α} :
    x ∈ firsts key xs ↔ xs.find? (fun y => key y = key x) = some x := by
  suffices ∀ seen, x ∈ firstsAfter key seen xs ↔
      key x ∉ seen ∧ xs.find? (fun y => key y = key x) = some x by
    simpa [firsts] using this []
  intro seen
  induction xs generalizing seen with
  | nil => simp [firstsAfter]
  | cons y ys ih =>
    unfold firstsAfter
    by_cases hkey : key y = key x
    · -- `y` is the first item of the key of `x`
      rw [List.find?_cons_of_pos (by simpa using hkey), Option.some.injEq, hkey]
      split
      · rename_i hseen
        exact iff_of_false (fun hx => not_mem_seen_of_mem_firstsAfter hx hseen)
          fun hx => hx.1 hseen
      · rename_i hnew
        have hlater : x ∉ firstsAfter key (key x :: seen) ys := fun hx =>
          not_mem_seen_of_mem_firstsAfter hx List.mem_cons_self
        rw [List.mem_cons, or_iff_left hlater]
        exact ⟨fun hx => ⟨hnew, hx.symm⟩, fun hx => hx.2.symm⟩
    · rw [List.find?_cons_of_neg (by simpa using hkey)]
      split
      · exact ih seen
      · have hne : x ≠ y := fun heq => hkey (heq ▸ rfl)
        rw [List.mem_cons, or_iff_right hne, ih, List.mem_cons, or_iff_right (Ne.symm hkey)]

/-- The keys of first items are first keys. -/
theorem firsts_map (key : α → β) (xs : List α) :
    firsts id (xs.map key) = (firsts key xs).map key := by
  suffices ∀ seen, firstsAfter id seen (xs.map key) = (firstsAfter key seen xs).map key from this []
  intro seen
  induction xs generalizing seen with
  | nil => rfl
  | cons x xs ih =>
    rw [List.map_cons]
    unfold firstsAfter
    by_cases hx : key x ∈ seen
    · rw [if_pos hx, if_pos (show id (key x) ∈ seen from hx), ih]
    · rw [if_neg hx, if_neg (show id (key x) ∉ seen from hx), ih]
      rfl

/-- Items whose keys were seen are passed over. -/
theorem firstsAfter_append_of_seen {key : α → β} {seen : List β} {xs : List α}
    (h : ∀ x ∈ xs, key x ∈ seen) (ys : List α) :
    firstsAfter key seen (xs ++ ys) = firstsAfter key seen ys := by
  induction xs with
  | nil => rfl
  | cons x xs ih =>
    rw [List.forall_mem_cons] at h
    rw [List.cons_append, firstsAfter, if_pos h.1, ih h.2]

/-- Dropping items by a finer key before a coarser one makes no difference. -/
theorem firsts_firsts {γ : Type} [DecidableEq γ] {key : α → β} {key' : α → γ}
    (h : ∀ x y, key x = key y → key' x = key' y) (xs : List α) :
    firsts key' (firsts key xs) = firsts key' xs := by
  suffices ∀ seen seen', (∀ x, key x ∈ seen → key' x ∈ seen') →
      firstsAfter key' seen' (firstsAfter key seen xs) = firstsAfter key' seen' xs from
    this [] [] fun _ hx => absurd hx List.not_mem_nil
  intro seen seen' hseen
  induction xs generalizing seen seen' with
  | nil => rfl
  | cons x xs ih =>
    by_cases hx : key x ∈ seen
    · rw [firstsAfter, if_pos hx, firstsAfter, if_pos (hseen x hx), ih seen seen' hseen]
    · have hnext (extra : List γ) (hsub : ∀ k ∈ seen', k ∈ extra) (hx' : key' x ∈ extra) :
          ∀ y, key y ∈ key x :: seen → key' y ∈ extra := by
        intro y hy
        rcases List.mem_cons.1 hy with hy | hy
        · exact h y x hy ▸ hx'
        · exact hsub _ (hseen y hy)
      rw [firstsAfter, if_neg hx]
      by_cases hx' : key' x ∈ seen'
      · rw [firstsAfter, if_pos hx', firstsAfter, if_pos hx',
          ih _ seen' (hnext seen' (fun _ hk => hk) hx')]
      · rw [firstsAfter, if_neg hx', firstsAfter, if_neg hx', ih _ (key' x :: seen')
          (hnext _ (fun _ hk => List.mem_cons_of_mem _ hk) List.mem_cons_self)]

/-- Items without repetition are all first ones. -/
theorem firsts_of_nodup {key : α → β} {xs : List α} (h : (xs.map key).Nodup) :
    firsts key xs = xs := by
  suffices ∀ seen, (∀ x ∈ xs, key x ∉ seen) → firstsAfter key seen xs = xs from
    this [] fun _ _ => List.not_mem_nil
  intro seen hseen
  induction xs generalizing seen with
  | nil => rfl
  | cons x xs ih =>
    rw [List.forall_mem_cons] at hseen
    obtain ⟨hx, hxs⟩ := List.nodup_cons.1 h
    unfold firstsAfter
    rw [if_neg hseen.1, ih hxs]
    intro y hy hmem
    rcases List.mem_cons.1 hmem with heq | hmem
    · exact hx (heq ▸ List.mem_map_of_mem hy)
    · exact hseen.2 y hy hmem

/-- Two keys that tell the same items apart keep the same items. -/
theorem firsts_congr {γ : Type} [DecidableEq γ] {key : α → β} {key' : α → γ} {xs : List α}
    (h : ∀ x ∈ xs, ∀ y ∈ xs, key x = key y ↔ key' x = key' y) : firsts key xs = firsts key' xs := by
  suffices ∀ seen : List α, (∀ x ∈ seen ++ xs, ∀ y ∈ xs, key x = key y ↔ key' x = key' y) →
      firstsAfter key (seen.map key) xs = firstsAfter key' (seen.map key') xs from this [] h
  clear h
  intro seen h
  induction xs generalizing seen with
  | nil => rfl
  | cons x xs ih =>
    have hseen : key x ∈ seen.map key ↔ key' x ∈ seen.map key' := by
      simp only [List.mem_map]
      constructor
      · rintro ⟨y, hy, heq⟩
        exact ⟨y, hy, (h y (List.mem_append_left _ hy) x List.mem_cons_self).1 heq⟩
      · rintro ⟨y, hy, heq⟩
        exact ⟨y, hy, (h y (List.mem_append_left _ hy) x List.mem_cons_self).2 heq⟩
    unfold firstsAfter
    by_cases hx : key x ∈ seen.map key
    · rw [if_pos hx, if_pos (hseen.1 hx)]
      refine ih seen fun y hy z hz => h y ?_ z (List.mem_cons_of_mem _ hz)
      rcases List.mem_append.1 hy with hy | hy
      · exact List.mem_append_left _ hy
      · exact List.mem_append_right _ (List.mem_cons_of_mem _ hy)
    · rw [if_neg hx, if_neg (mt hseen.2 hx)]
      refine congrArg (x :: ·) (ih (x :: seen) fun y hy z hz => h y ?_ z (List.mem_cons_of_mem _ hz))
      rcases List.mem_append.1 hy with hy | hy
      · rcases List.mem_cons.1 hy with rfl | hy
        · exact List.mem_append_right _ List.mem_cons_self
        · exact List.mem_append_left _ hy
      · exact List.mem_append_right _ (List.mem_cons_of_mem _ hy)

/-- Items can be chosen by their keys before or after repetitions are dropped. -/
theorem filter_firsts {key : α → β} {p : α → Bool} (h : ∀ x y, key x = key y → p x = p y)
    (xs : List α) : (firsts key xs).filter p = firsts key (xs.filter p) := by
  suffices ∀ seen seen', (∀ x, p x = true → (key x ∈ seen ↔ key x ∈ seen')) →
      (firstsAfter key seen xs).filter p = firstsAfter key seen' (xs.filter p) from
    this [] [] fun _ _ => Iff.rfl
  intro seen seen' hseen
  induction xs generalizing seen seen' with
  | nil => rfl
  | cons x xs ih =>
    cases hp : p x with
    | true =>
      rw [List.filter_cons_of_pos hp, firstsAfter, firstsAfter]
      by_cases hx : key x ∈ seen
      · rw [if_pos hx, if_pos ((hseen x hp).1 hx), ih seen seen' hseen]
      · rw [if_neg hx, if_neg (mt (hseen x hp).2 hx), List.filter_cons_of_pos hp,
          ih (key x :: seen) (key x :: seen') fun y hy => ?_]
        rw [List.mem_cons, List.mem_cons, hseen y hy]
    | false =>
      rw [List.filter_cons_of_neg (by simp [hp]), firstsAfter]
      split
      · exact ih seen seen' hseen
      · rw [List.filter_cons_of_neg (by simp [hp])]
        refine ih (key x :: seen) seen' fun y hy => ?_
        have hne : key y ≠ key x := fun heq => by
          rw [h y x heq, hp] at hy
          cases hy
        rw [List.mem_cons, or_iff_right hne, hseen y hy]

end Reexport
