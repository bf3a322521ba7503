import Reexport.Proofs.Exports
import Reexport.Proofs.WellFormed

/-!
# Names that are words

The entries that are read from a text are well formed, but a module can declare names that are no
words: a text in quotes, or the parts of a namespace joined by dots. Where no such name is written
out in the place of an `export *`, all entries that the resolver finds are well formed.

## What is proved

* `wellFormed_of_replaced` — what takes the place of a well-formed entry is well formed, if the lists
  of the barrels behind the entry are.
* `carried_wellFormed` — so all lists that are found are well formed.
-/

namespace Reexport

open Text Resolver

/-- All names that are written out in the place of an `export *` are words. -/
def Resolver.WritesWords (r : Resolver) : Prop :=
  ∀ directory e target content new, Leads r.files directory e target content →
    isBarrel (moduleEntries content) = false → r.leafResult e target content = .ok new →
      ∀ x ∈ new, x.isBareStar = false → e.isBareStar = true → IsWord x.specifier.toList

variable {r : Resolver} {directory : String} {e n x : Entry} {new : List Entry}

/-- What is seen through a well-formed `export *` is well formed, if its name is a word. -/
theorem Entry.WellFormed.of_through_of_isWord (he : e.WellFormed) (h : e.through n = some x)
    (hword : n.isBareStar = false → IsWord n.exportedName.toList) : x.WellFormed := by
  obtain ⟨hsource, -, -, has, ⟨-, hkind⟩ | ⟨hbare, hkind, hspec, hne⟩⟩ := through_eq_some h
  · refine ⟨by rw [hsource]; exact he.source, fun h => absurd hkind h, fun h => absurd hkind h,
      fun ha => ?_, fun ha => ?_⟩ <;>
      simp [has] at ha
  · refine ⟨by rw [hsource]; exact he.source, fun _ => ?_, fun _ => ?_, fun ha => ?_,
      fun ha => ?_⟩
    · rw [hspec]
      exact hword hbare
    · rw [hkind, hspec]
      exact ⟨nofun, fun h => absurd h hne⟩
    · simp [has] at ha
    · simp [has] at ha

theorem Entry.WellFormed.of_through (he : e.WellFormed) (hn : n.WellFormed)
    (h : e.through n = some x) : x.WellFormed :=
  he.of_through_of_isWord h hn.isWord_exportedName

theorem Entry.WellFormed.ofDeclared (he : e.WellFormed) {t : Bool} {d : Declared}
    (hword : IsWord d.name.toList) (hne : d.name ≠ defaultSpecifier) :
    (e.ofDeclared t d).WellFormed :=
  ⟨he.source, fun _ => hword, fun _ => ⟨nofun, fun h => absurd h hne⟩, nofun, nofun⟩

/-- What takes the place of a well-formed entry is well formed. -/
theorem wellFormed_of_replaced (hwords : r.WritesWords) (he : e.WellFormed)
    (h : Replaced r directory (fun _ nested => ∀ n ∈ nested, n.WellFormed) e new) (hx : x ∈ new) :
    x.WellFormed := by
  cases h with
  | astray => rwa [List.mem_singleton.1 hx]
  | barrel _ _ hnested =>
    rcases Entry.mem_inlined hx with rfl | ⟨-, n, hn, hthrough⟩ | ⟨-, rfl⟩
    · exact he
    · exact he.of_through (hnested n hn) hthrough
    · exact ⟨he.source, he.specifier, he.kind, he.asName, he.renames⟩
  | leaf lead hleaf hnew =>
    rcases mem_leafResult hnew hx with rfl | ⟨hbare, s, d, t, hscan, hd, rfl, -⟩
    · exact he
    · exact he.ofDeclared (hwords _ _ _ _ _ lead hleaf hnew _ hx rfl hbare)
        (name_ne_default_of_scan hscan d hd)

/-- All lists that are found are well formed. -/
theorem carried_wellFormed (hwords : r.WritesWords) :
    Carried r fun _ found => ∀ x ∈ found, x.WellFormed where
  nil _ := nofun
  spelled h := h
  merged _ _ hnews x hx := by
    obtain ⟨e, he, new, hrep, hx⟩ := exists_of_mem_merged hnews hx
    exact wellFormed_of_replaced hwords (wellFormed_of_mem_moduleEntries he) hrep hx

/-! ### Modules in memory -/

/-- What a module declares depends on its path only by whether the module holds markup. -/
theorem scan_congr {path path' : String} (h : holdsMarkup path = holdsMarkup path')
    (content : String) : scan path content = scan path' content := by
  unfold scan
  rw [h]

/-- A check of all modules at once: names that are declared as words are written as words. -/
theorem writesWords_of_all (m : MemoryFiles) (flatten : Bool)
    (h : (m.entries.all fun f => isBarrel (moduleEntries f.2) || ["a.ts", "a.tsx"].all fun path =>
      (scan path f.2).toOption.all fun s => s.exports.all fun d =>
        decide (IsWord d.name.toList)) = true) :
    Resolver.WritesWords ⟨m.files, flatten⟩ := by
  intro directory e target content new lead hleaf hnew x hx hname hbare
  rcases mem_leafResult hnew hx with rfl | ⟨-, s, d, t, hscan, hd, rfl, -⟩
  · rw [hbare] at hname
    cases hname
  have hread : m.read target = .ok content := lead.read
  unfold MemoryFiles.read at hread
  split at hread
  · rename_i f hf
    cases hread
    have hall := List.all_eq_true.1 h f (List.mem_of_find?_eq_some hf)
    rw [hleaf, Bool.false_or, List.all_eq_true] at hall
    have hsame : ∃ path ∈ ["a.ts", "a.tsx"], holdsMarkup target = holdsMarkup path := by
      cases holdsMarkup target with
      | false => exact ⟨"a.ts", by simp, by decide +kernel⟩
      | true => exact ⟨"a.tsx", by simp, by decide +kernel⟩
    obtain ⟨path, hpath, heq⟩ := hsame
    have hwords := hall path hpath
    rw [← scan_congr heq, hscan] at hwords
    exact of_decide_eq_true (List.all_eq_true.1 hwords d hd)
  · cases hread

end Reexport
