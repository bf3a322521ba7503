import Reexport.Layout
import Reexport.Proofs.Replacement

/-!
# Writing out an `export *`

The names behind one `export *` can be asked for alone. The answer depends on the module behind it
only: `starResult` is the answer as a function, and looking for it changes nothing.

## What is proved

* `quiet_expandStar` — the run gives `starResult`.
* `starResult_of_leads`, `starResult_of_barrels` — whether the module behind the entry is scanned.
* `ofDeclared_of_mem_starResult` — the names are those that a module declares.
* `yields_expandStars` — where entries are written out one after another, every entry in the end is
  one of them, or one of those that were found for one.
-/

namespace Reexport

open Resolving

namespace Resolver

/-- The names behind an `export *` from a module that is no barrel. -/
def starResult (r : Resolver) (e : Entry) (directory : String) :
    Except Interruption (Option (List Entry)) :=
  if !e.isBareStar || !e.isRelative then .ok none
  else match locate r.files moduleExtensions e.source directory with
    | none => .ok none
    | some target => readResult r.files target >>= fun
      | none => .ok none
      | some content =>
        if isBarrel (moduleEntries content) then .ok none
        else (scan target content).mapError .declared >>= fun s =>
          .ok (if (e.namesOf s).isEmpty then none else some (e.namesOf s))

variable {r : Resolver} {e x : Entry} {directory : String} {names : List Entry}

/-- Nothing is found for an entry that leads to barrels only. -/
theorem starResult_of_barrels (hread : ∀ path, ∃ out, readResult r.files path = .ok out)
    (h : ∀ target content, Leads r.files directory e target content →
      isBarrel (moduleEntries content) = true) : r.starResult e directory = .ok none := by
  unfold starResult
  split
  · rfl
  split
  · rfl
  rename_i target hloc
  obtain ⟨out, hout⟩ := hread target
  rw [hout]
  cases out with
  | none => rfl
  | some content => exact if_pos (h target content ⟨hloc, readResult_eq_some_iff.1 hout⟩)

/-- The module behind an `export *` is scanned, if it is no barrel. -/
theorem starResult_of_leads {target content : String} (hbare : e.isBareStar = true)
    (lead : Leads r.files directory e target content)
    (hleaf : isBarrel (moduleEntries content) = false) :
    r.starResult e directory = (scan target content).mapError .declared >>= fun s =>
      .ok (if (e.namesOf s).isEmpty then none else some (e.namesOf s)) := by
  unfold starResult
  rw [if_neg (by simp [hbare, isRelative_of_locate lead.located]), lead.located]
  show readResult r.files target >>= _ = _
  rw [readResult_eq_some_iff.2 lead.read]
  exact if_neg (by simp [hleaf])

theorem quiet_expandStar (r : Resolver) (e : Entry) (directory : String) :
    Quiet (r.expandStar e directory) (r.starResult e directory) := by
  unfold expandStar starResult
  split
  · exact quiet_pure _
  cases locate r.files moduleExtensions e.source directory with
  | none => exact quiet_pure _
  | some target =>
    refine (quiet_readModule r target).bind fun out _ => ?_
    cases out with
    | none => exact quiet_pure _
    | some content =>
      show Quiet (if isBarrel (moduleEntries content) = true then _ else _)
        (if isBarrel (moduleEntries content) = true then _ else _)
      split
      · exact quiet_pure _
      · exact (quiet_scanModule target content).bind fun s _ => quiet_pure _

/-- The names are those that the module behind the `export *` declares. -/
theorem ofDeclared_of_mem_starResult (h : r.starResult e directory = .ok (some names))
    (hx : x ∈ names) :
    ∃ target content, Leads r.files directory e target content ∧ OfDeclared e target content x := by
  unfold starResult at h
  split at h
  · cases h
  rename_i hstar
  split at h
  · cases h
  rename_i target hloc
  obtain ⟨out, hread, h⟩ := bind_eq_ok_iff.1 h
  cases out with
  | none => cases h
  | some content =>
    dsimp only at h
    split at h
    · cases h
    obtain ⟨s, hscan, h⟩ := bind_eq_ok_iff.1 h
    have h := Except.ok.inj h
    split at h
    · cases h
    · obtain rfl := Option.some.inj h
      obtain ⟨d, hd, rfl⟩ := Entry.mem_namesOf hx
      have hbare : e.isBareStar = true ∧ e.isRelative = true := by simpa using hstar
      exact ⟨target, content, ⟨hloc, readResult_eq_some_iff.1 hread⟩, hbare.1, s, d, _,
        mapError_eq_ok_iff.1 hscan, hd, rfl, by simp⟩

end Resolver

section

variable {ε σ : Type} {expander : Entry → ExceptT ε (StateM σ) (Option (List Entry))}
  {entries out : List Entry} {e x : Entry} {p q : σ}

/-- For one entry, either itself is written or what was found for it. -/
theorem exists_written (h : Yields (expandStars expander (e :: entries)) p out q) :
    ∃ written rest o o', out = written ++ rest ∧ Yields (expandStars expander entries) o rest o' ∧
      (written = [e] ∨ Yields (expander e) p (some written) o) := by
  rw [expandStars] at h
  split at h
  · obtain ⟨names, o, hnames, htail⟩ := yields_bind_iff.1 h
    obtain ⟨rest, o', hrest, hout⟩ := yields_bind_iff.1 htail
    refine ⟨_, rest, o, o', (yields_pure_iff.1 hout).1, hrest, ?_⟩
    split
    · exact .inr hnames
    · exact .inl rfl
  · obtain ⟨names, o, hnames, htail⟩ := yields_bind_iff.1 h
    obtain ⟨rfl, rfl⟩ := yields_pure_iff.1 hnames
    obtain ⟨rest, o', hrest, hout⟩ := yields_bind_iff.1 htail
    exact ⟨[e], rest, o, o', (yields_pure_iff.1 hout).1, hrest, .inl rfl⟩

/-- Where entries are written out, every entry in the end is one of them, or was found for one. -/
theorem yields_expandStars (h : Yields (expandStars expander entries) p out q) (hx : x ∈ out) :
    x ∈ entries ∨
      ∃ e ∈ entries, ∃ o names o', Yields (expander e) o (some names) o' ∧ x ∈ names := by
  induction entries generalizing out p q with
  | nil =>
    obtain ⟨rfl, -⟩ := yields_pure_iff.1 h
    exact .inl hx
  | cons e entries ih =>
    obtain ⟨written, rest, o, o', rfl, hrest, hwritten⟩ := exists_written h
    rcases List.mem_append.1 hx with hx | hx
    · rcases hwritten with rfl | hnames
      · exact .inl (List.mem_cons.2 (.inl (List.mem_singleton.1 hx)))
      · exact .inr ⟨e, List.mem_cons_self, p, written, o, hnames, hx⟩
    · rcases ih hrest hx with hx | ⟨e', he', found⟩
      · exact .inl (List.mem_cons_of_mem _ hx)
      · exact .inr ⟨e', List.mem_cons_of_mem _ he', found⟩

end

end Reexport
