import Mathlib.Data.List.TakeWhile
import Reexport.Statement.Reader

/-!
# The form of entries that are read

Whatever a text holds, the entries read from it have a narrow form: a name is a word, a source holds
neither quotes nor line breaks, and an alias is there only where it differs from the name. Such
entries are `WellFormed`.

## What is proved

* `wellFormed_of_mem_moduleEntries` — every entry read from a text is well formed.
* `Entry.WellFormed.exportedName_ne_star` — so none but a bare `export *` is exported as `*`.
-/

namespace Reexport

open Text

/-! ### Sources -/

namespace Statement

variable {cs : List Char} {s : Source} {c : Char}

theorem mem_of_quoted? (h : quoted? cs = some s) (hc : c ∈ s.1.toList) :
    isQuote c = false ∧ c ∈ cs := by
  unfold quoted? at h
  split at h
  · cases h
  rename_i quote rest hrest
  split at h
  · split at h
    · rename_i d text close tail htake hdrop
      split at h
      · cases h
        have hc : c ∈ rest.takeWhile (!isQuote ·) := by
          rw [htake]
          simpa [sourceOf] using hc
        refine ⟨by simpa using List.mem_takeWhile_imp hc, ?_⟩
        have hrest' : c ∈ dropBlanks cs :=
          hrest ▸ List.mem_cons_of_mem _ ((List.takeWhile_sublist _).subset hc)
        exact mem_of_mem_dropBlanks hrest'
      · cases h
    · cases h
  · cases h

theorem mem_of_fromClause? (h : fromClause? cs = some s) (hc : c ∈ s.1.toList) :
    isQuote c = false ∧ c ∈ cs := by
  obtain ⟨rest, hrest, h⟩ := Option.bind_eq_some_iff.1 h
  rw [dropText?_eq_some_iff.1 hrest]
  obtain ⟨hquote, hmem⟩ := mem_of_quoted? h hc
  exact ⟨hquote, List.mem_append_right _ hmem⟩

/-- An alias is a part of the word, and a source is a part of the text. -/
theorem mem_of_aliasFrom? {back rest word : List Char}
    (h : aliasFrom? back rest = some (word, s)) : word ≠ [] ∧ (∀ c ∈ word, c ∈ back) ∧
      ∀ c ∈ s.1.toList, isQuote c = false ∧ (c ∈ back ∨ c ∈ rest) := by
  induction back generalizing rest with
  | nil => cases h
  | cons d back ih =>
    unfold aliasFrom? at h
    split at h
    · rename_i source hsource
      cases h
      refine ⟨by simp, fun c hc => List.mem_reverse.1 hc, fun c hc => ?_⟩
      obtain ⟨hquote, hmem⟩ := mem_of_fromClause? hsource hc
      exact ⟨hquote, .inr (mem_of_mem_dropBlanks hmem)⟩
    · obtain ⟨hne, hword, hs⟩ := ih h
      refine ⟨hne, fun c hc => List.mem_cons_of_mem _ (hword c hc), fun c hc => ?_⟩
      obtain ⟨hquote, hmem | hmem⟩ := hs c hc
      · exact ⟨hquote, .inl (List.mem_cons_of_mem _ hmem)⟩
      · rcases List.mem_cons.1 hmem with rfl | hmem
        · exact ⟨hquote, .inl List.mem_cons_self⟩
        · exact ⟨hquote, .inr hmem⟩

theorem mem_of_asClause? {word : List Char} (h : asClause? cs = some (word, s)) :
    IsWord word ∧ ∀ c ∈ s.1.toList, isQuote c = false ∧ c ∈ cs := by
  obtain ⟨cs₁, h₁, h⟩ := Option.bind_eq_some_iff.1 h
  obtain ⟨cs₂, h₂, h⟩ := Option.bind_eq_some_iff.1 h
  obtain ⟨hne, hword, hs⟩ := mem_of_aliasFrom? h
  have hcs {c : Char} (hc : c ∈ cs₂) : c ∈ cs := by
    rw [dropText?_eq_some_iff.1 h₁]
    exact List.mem_append_right _ (mem_of_mem_dropBlanks1? h₂ hc)
  refine ⟨⟨hne, fun c hc => isWordChar_of_mem_spanWord (List.mem_reverse.1 (hword c hc))⟩,
    fun c hc => ?_⟩
  obtain ⟨hquote, hmem⟩ := hs c hc
  refine ⟨hquote, hcs ?_⟩
  rw [← spanWord_append cs₂]
  rcases hmem with hmem | hmem
  · exact List.mem_append_left _ (List.mem_reverse.1 hmem)
  · exact List.mem_append_right _ hmem

theorem mem_of_mem_typeMark (hc : c ∈ (typeMark cs).2) : c ∈ cs := by
  unfold typeMark at hc
  split at hc
  · rename_i rest hrest
    rw [dropText?_eq_some_iff.1 hrest]
    exact List.mem_append_right _ (mem_of_mem_dropBlanks hc)
  · exact hc

end Statement

/-! ### Items and statements -/

/-- Name and alias are words. -/
structure Item.WellFormed (item : Item) : Prop where
  name : IsWord item.name.toList
  asName {a : String} : item.asName = some a → IsWord a.toList

/-- Names and aliases are words. -/
def Clause.WellFormed : Clause → Prop
  | .star asName => ∀ a, asName = some a → IsWord a.toList
  | .list items => ∀ item ∈ items, item.WellFormed

theorem Item.wellFormed_of_binding? {isTypeOnly : Bool} {cs : List Char} {item : Item}
    (h : binding? isTypeOnly cs = some item) : item.WellFormed := by
  unfold binding? at h
  split at h
  · cases h
  rename_i c name rest hspan
  have hname : IsWord (c :: name) := isWord_of_spanWord hspan (List.cons_ne_nil c name)
  split at h
  · cases h
    exact ⟨by simpa using hname, nofun⟩
  · obtain ⟨cs₁, -, h⟩ := Option.bind_eq_some_iff.1 h
    obtain ⟨cs₂, -, h⟩ := Option.bind_eq_some_iff.1 h
    obtain ⟨cs₃, -, h⟩ := Option.bind_eq_some_iff.1 h
    split at h
    · rename_i asName hspan'
      split at h
      · cases h
      · rename_i hne
        have hasName : IsWord asName := isWord_of_spanWord hspan' (by simpa using hne)
        cases h
        refine ⟨by simpa using hname, fun ha => ?_⟩
        cases ha
        simpa using hasName
    · cases h

theorem Item.wellFormed_of_read? {cs : List Char} {item : Item} (h : read? cs = some item) :
    item.WellFormed := by
  cases hmarked : marked? cs with
  | none =>
    rw [read?, hmarked] at h
    exact wellFormed_of_binding? h
  | some marked =>
    rw [read?, hmarked] at h
    cases h
    obtain ⟨cs₁, -, h⟩ := Option.bind_eq_some_iff.1 hmarked
    obtain ⟨cs₂, -, h⟩ := Option.bind_eq_some_iff.1 h
    exact wellFormed_of_binding? h

theorem Item.wellFormed_of_mem_readList {cs : List Char} {item : Item} (h : item ∈ readList cs) :
    item.WellFormed := by
  obtain ⟨piece, -, h⟩ := List.mem_filterMap.1 h
  exact wellFormed_of_read? h

/-- What is read from a text has its names and its source from the text. -/
theorem Statement.wellFormed_of_read? {cs : List Char} {s : Statement} (h : read? cs = some s) :
    s.clause.WellFormed ∧ ∀ c ∈ s.source.toList, isQuote c = false ∧ c ∈ cs := by
  obtain ⟨cs₁, h₁, h⟩ := Option.bind_eq_some_iff.1 h
  obtain ⟨cs₂, h₂, h⟩ := Option.bind_eq_some_iff.1 h
  have hcs {c : Char} (hc : c ∈ (typeMark cs₂).2) : c ∈ cs := by
    rw [dropText?_eq_some_iff.1 h₁]
    exact List.mem_append_right _ (mem_of_mem_dropBlanks1? h₂ (mem_of_mem_typeMark hc))
  dsimp only at h
  split at h
  · rename_i rest hrest
    rw [hrest] at hcs
    have hrest {c : Char} (hc : c ∈ dropBlanks rest) : c ∈ cs :=
      hcs (List.mem_cons_of_mem _ (mem_of_mem_dropBlanks hc))
    split at h
    · rename_i asName source has
      cases h
      obtain ⟨hword, hs⟩ := mem_of_asClause? has
      refine ⟨fun a ha => ?_, fun c hc => ⟨(hs c hc).1, hrest (hs c hc).2⟩⟩
      cases ha
      simpa using hword
    · obtain ⟨source, hsource, rfl⟩ := Option.map_eq_some_iff.1 h
      refine ⟨nofun, fun c hc => ?_⟩
      obtain ⟨hquote, hmem⟩ := mem_of_fromClause? hsource hc
      exact ⟨hquote, hrest hmem⟩
  · rename_i rest hrest
    rw [hrest] at hcs
    split at h
    · cases h
    · rename_i close tail htail
      obtain ⟨source, hsource, rfl⟩ := Option.map_eq_some_iff.1 h
      refine ⟨fun item hitem => Item.wellFormed_of_mem_readList hitem, fun c hc => ?_⟩
      obtain ⟨hquote, hmem⟩ := mem_of_fromClause? hsource hc
      have hmem : c ∈ rest.dropWhile (· ≠ '\x7d') :=
        htail ▸ List.mem_cons_of_mem _ (mem_of_mem_dropBlanks hmem)
      exact ⟨hquote, hcs (List.mem_cons_of_mem _ ((List.dropWhile_sublist _).subset hmem))⟩
  · cases h

/-! ### Entries -/

/-- The form of an entry that a statement can hold. -/
structure Entry.WellFormed (e : Entry) : Prop where
  /-- The source fits between two quotes, on one line. -/
  source : ∀ c ∈ e.source.toList, Statement.isQuote c = false ∧ isLineBreak c = false
  /-- A name is a word, unless it is the star of a whole namespace. -/
  specifier : e.kind ≠ .star → IsWord e.specifier.toList
  /-- The default binding goes by its name. -/
  kind : e.kind ≠ .star → (e.kind = .default ↔ e.specifier = defaultSpecifier)
  /-- An alias is a word. -/
  asName {a : String} : e.asName = some a → IsWord a.toList
  /-- An alias does not repeat the name. -/
  renames : e.asName ≠ some e.specifier

theorem not_isWord_star : ¬IsWord starSpecifier.toList := by
  rintro ⟨-, h⟩
  exact absurd (h '*' (by decide)) (by decide)

theorem Statement.wellFormed_of_mem_entries {s : Statement} (hclause : s.clause.WellFormed)
    (hsource : ∀ c ∈ s.source.toList, isQuote c = false ∧ isLineBreak c = false) {line : Nat}
    {e : Entry} (he : e ∈ s.entries line) : e.WellFormed := by
  unfold entries at he
  split at he
  · rename_i asName hstar
    rw [List.mem_singleton.1 he]
    rw [hstar] at hclause
    refine ⟨hsource, fun h => absurd rfl h, fun h => absurd rfl h, hclause _, fun h => ?_⟩
    exact not_isWord_star (hclause _ h)
  · rename_i items hlist
    rw [hlist] at hclause
    obtain ⟨item, hitem, rfl⟩ := List.mem_map.1 he
    obtain ⟨hname, has⟩ := hclause item hitem
    refine ⟨hsource, fun _ => hname, fun _ => ?_, fun {a} ha => ?_, fun h => ?_⟩
    · show item.kind = .default ↔ item.name = defaultSpecifier
      unfold Item.kind
      split <;> simp_all
    · simp only [itemEntry] at ha
      split at ha
      · cases ha
      · exact has ha
    · simp only [itemEntry] at h
      split at h
      · cases h
      · contradiction

theorem wellFormed_of_mem_lineEntries {line : List Char} {number : Nat} {e : Entry}
    (hline : ∀ c ∈ line, isLineBreak c = false) (he : e ∈ lineEntries line number) :
    e.WellFormed := by
  unfold lineEntries at he
  split at he
  · rename_i s hs
    obtain ⟨hclause, hsource⟩ := Statement.wellFormed_of_read? hs
    exact Statement.wellFormed_of_mem_entries hclause
      (fun c hc => ⟨(hsource c hc).1, hline c (mem_of_mem_trim (hsource c hc).2)⟩) he
  · cases he

theorem exists_of_mem_linesEntries {rows : List (List Char)} {number : Nat} {e : Entry}
    (he : e ∈ linesEntries number rows) : ∃ row ∈ rows, ∃ n, e ∈ lineEntries row n := by
  induction rows generalizing number with
  | nil => cases he
  | cons row rows ih =>
    rcases List.mem_append.1 he with he | he
    · exact ⟨row, List.mem_cons_self, number, he⟩
    · obtain ⟨row', hrow, h⟩ := ih he
      exact ⟨row', List.mem_cons_of_mem _ hrow, h⟩

/-- Every entry that is read from a text is well formed. -/
theorem wellFormed_of_mem_moduleEntries {text : String} {e : Entry}
    (he : e ∈ moduleEntries text) : e.WellFormed := by
  obtain ⟨row, hrow, n, he⟩ := exists_of_mem_linesEntries he
  exact wellFormed_of_mem_lineEntries (fun _ hc => not_isLineBreak_of_mem_lines hrow hc) he

theorem Entry.WellFormed.isWord_exportedName {e : Entry} (h : e.WellFormed)
    (hname : e.isBareStar = false) : IsWord e.exportedName.toList := by
  unfold exportedName
  cases has : e.asName with
  | none =>
    simp only [isBareStar, has, Option.isNone_none, Bool.and_true, decide_eq_false_iff_not] at hname
    exact h.specifier hname
  | some a =>
    have ha := h.asName has
    have hne : a ≠ "" := fun h => ha.1 (by rw [h]; rfl)
    simpa [hne] using ha

theorem Entry.WellFormed.exportedName_ne_star {e : Entry} (h : e.WellFormed)
    (hname : e.isBareStar = false) : e.exportedName ≠ starSpecifier := by
  intro heq
  exact not_isWord_star (heq ▸ h.isWord_exportedName hname)

end Reexport
