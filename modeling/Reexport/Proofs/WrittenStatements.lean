import Reexport.Proofs.Arrangement
import Reexport.Proofs.WellFormed

/-!
# Written statements are read back

A statement that is written for well-formed entries fills its line, and the line is read as that
statement. An item keeps its meaning where its names are `type` or `as`: the word `type` is a mark
only before a name that fills the rest of the item.

## What is proved

* `read?_itemText` — an item of a list.
* `ofLine?_starText`, `ofLine?_listText` — the two forms of statements.
* `lineEntries_starText`, `lineEntries_listText` — hence the entries that a written line holds.
-/

namespace Reexport

open Text

/-! ### Characters of words -/

namespace Text

theorem not_isBlank_of_isWordChar {c : Char} (h : isWordChar c = true) : isBlank c = false := by
  rw [← Bool.not_eq_true]
  intro hblank
  have hcode : c.toNat ∈ [9, 10, 11, 12, 13, 28, 29, 30, 31, 32, 0x85, 0xA0, 0x1680, 0x2000, 0x2001,
      0x2002, 0x2003, 0x2004, 0x2005, 0x2006, 0x2007, 0x2008, 0x2009, 0x200A, 0x2028, 0x2029,
      0x202F, 0x205F, 0x3000] := by
    simp only [isBlank, Bool.or_eq_true, Bool.and_eq_true, decide_eq_true_eq, beq_iff_eq] at hblank
    simp only [List.mem_cons, List.not_mem_nil, or_false]
    omega
  have hnone : ∀ n ∈ [9, 10, 11, 12, 13, 28, 29, 30, 31, 32, 0x85, 0xA0, 0x1680, 0x2000, 0x2001,
      0x2002, 0x2003, 0x2004, 0x2005, 0x2006, 0x2007, 0x2008, 0x2009, 0x200A, 0x2028, 0x2029,
      0x202F, 0x205F, 0x3000], isWordChar (Char.ofNat n) = false := by
    decide +kernel
  rw [← Char.ofNat_toNat c, hnone _ hcode] at h
  cases h

variable {w : List Char} {d : Char}

theorem IsWord.not_mem (h : IsWord w) (hd : isWordChar d = false) : d ∉ w := by
  intro hmem
  rw [h.2 d hmem] at hd
  cases hd

theorem IsWord.exists_cons (h : IsWord w) :
    ∃ c cs, w = c :: cs ∧ isWordChar c = true ∧ ∀ x ∈ cs, isWordChar x = true := by
  obtain ⟨hne, hw⟩ := h
  cases w with
  | nil => exact absurd rfl hne
  | cons c cs =>
    rw [List.forall_mem_cons] at hw
    exact ⟨c, cs, rfl, hw⟩

/-- A word that reaches the end of the text. -/
theorem spanWord_word (h : ∀ c ∈ w, isWordChar c = true) : spanWord w = (w, []) := by
  rw [spanWord, List.takeWhile_eq_self_iff.2 h, List.dropWhile_eq_nil_iff.2 h]

/-- A word before a character of another kind. -/
theorem spanWord_append_cons (h : ∀ c ∈ w, isWordChar c = true) (hd : isWordChar d = false)
    (rest : List Char) : spanWord (w ++ d :: rest) = (w, d :: rest) := by
  rw [spanWord, List.takeWhile_append_of_pos h, List.dropWhile_append_of_pos h]
  simp [hd]

theorem dropBlanks1?_space_word (h : IsWord w) (rest : List Char) :
    dropBlanks1? (' ' :: (w ++ rest)) = some (w ++ rest) := by
  obtain ⟨c, cs, rfl, hc, -⟩ := h.exists_cons
  have hdrop := dropBlanks_cons_of_not (not_isBlank_of_isWordChar hc) (cs ++ rest)
  rw [dropBlanks1?, if_pos (by decide)]
  exact congrArg some hdrop

/-- Nothing is taken for blanks in front of a word. -/
theorem dropBlanks1?_word (h : ∀ c ∈ w, isWordChar c = true) : dropBlanks1? w = none := by
  cases w with
  | nil => rfl
  | cons c cs =>
    rw [dropBlanks1?, if_neg]
    rw [not_isBlank_of_isWordChar (h c List.mem_cons_self)]
    decide

theorem trim_word (h : IsWord w) : trim w = w := by
  obtain ⟨c, cs, rfl, hc, hcs⟩ := h.exists_cons
  rcases List.eq_nil_or_concat cs with rfl | ⟨init, d, rfl⟩
  · rw [trim, dropBlanks_cons_of_not (not_isBlank_of_isWordChar hc)]
    exact dropBlanksEnd_append_of_not (not_isBlank_of_isWordChar hc) []
  · rw [List.concat_eq_append] at hcs ⊢
    exact trim_of_ends (not_isBlank_of_isWordChar hc)
      (not_isBlank_of_isWordChar (hcs d (List.mem_append_right _ List.mem_cons_self))) init

end Text

/-! ### Items -/

namespace Item

variable {w a : List Char}

theorem binding?_name (h : IsWord w) (isTypeOnly : Bool) : ∃ item,
    binding? isTypeOnly w = some item ∧ item.name = String.ofList w ∧ item.asName = none ∧
      item.isTypeOnly = isTypeOnly := by
  obtain ⟨c, cs, rfl, -⟩ := h.exists_cons
  rw [binding?, spanWord_word h.2]
  exact ⟨_, rfl, rfl, rfl, rfl⟩

theorem binding?_alias (h : IsWord w) (ha : IsWord a) (isTypeOnly : Bool) : ∃ item,
    binding? isTypeOnly (w ++ " as ".toList ++ a) = some item ∧ item.name = String.ofList w ∧
      item.asName = some (String.ofList a) ∧ item.isTypeOnly = isTypeOnly := by
  have has : IsWord "as".toList := by decide
  have hspan : spanWord (w ++ " as ".toList ++ a) = (w, " as ".toList ++ a) := by
    rw [List.append_assoc]
    exact spanWord_append_cons h.2 (by decide) _
  have hdrop : dropBlanks1? (" as ".toList ++ a) = some ("as".toList ++ (' ' :: a)) :=
    dropBlanks1?_space_word has (' ' :: a)
  have hdrop' : dropBlanks1? (' ' :: a) = some a := by
    rw [← List.append_nil a]
    exact dropBlanks1?_space_word ha []
  have hne : a.isEmpty = false := by simp [ha.1]
  obtain ⟨c, cs, rfl, -⟩ := h.exists_cons
  rw [binding?, hspan]
  simp only [hdrop, dropText?_eq_some_iff.2 rfl, hdrop', spanWord_word ha.2, hne,
    Option.bind_eq_bind, Option.bind_some]
  exact ⟨_, rfl, rfl, rfl, rfl⟩

/-- A single word is no mark. -/
theorem marked?_name (h : IsWord w) : marked? w = none := by
  rw [marked?]
  cases hdrop : dropText? "type".toList w with
  | none => rfl
  | some rest =>
    obtain rfl := dropText?_eq_some_iff.1 hdrop
    have hrest : ∀ c ∈ rest, isWordChar c = true := fun c hc => h.2 c (List.mem_append_right _ hc)
    show (dropBlanks1? rest).bind _ = none
    rw [dropBlanks1?_word hrest]
    rfl

/-- What follows the word `type` before an alias is no name that fills the rest. -/
theorem binding?_as (ha : IsWord a) (isTypeOnly : Bool) :
    binding? isTypeOnly ('a' :: 's' :: ' ' :: a) = none := by
  have has : IsWord ['a', 's'] := by decide
  have hspan : spanWord (['a', 's'] ++ ' ' :: a) = (['a', 's'], ' ' :: a) :=
    spanWord_append_cons has.2 (by decide) a
  rw [List.cons_append, List.singleton_append] at hspan
  have hdrop : dropBlanks1? (' ' :: a) = some a := by
    rw [← List.append_nil a]
    exact dropBlanks1?_space_word ha []
  rw [binding?, hspan]
  simp only [List.isEmpty_cons, Bool.false_eq_true, if_false, hdrop, Option.bind_eq_bind,
    Option.bind_some]
  cases has : dropText? "as".toList a with
  | none => rfl
  | some rest =>
    obtain rfl := dropText?_eq_some_iff.1 has
    show (dropBlanks1? rest).bind _ = none
    rw [dropBlanks1?_word fun c hc => ha.2 c (List.mem_append_right _ hc)]
    rfl

/-- A word before an alias is no mark, although it may be the word `type`. -/
theorem marked?_alias (h : IsWord w) (ha : IsWord a) :
    marked? (w ++ " as ".toList ++ a) = none := by
  rw [marked?]
  cases hdrop : dropText? "type".toList (w ++ " as ".toList ++ a) with
  | none => rfl
  | some rest =>
    have hrest := dropText?_eq_some_iff.1 hdrop
    obtain ⟨tail, rfl⟩ : ∃ tail, w = "type".toList ++ tail := by
      rw [List.append_assoc, List.append_eq_append_iff] at hrest
      rcases hrest with ⟨mid, hmid, htail⟩ | ⟨tail, hw, -⟩
      · cases mid with
        | nil => exact ⟨[], by simpa using hmid.symm⟩
        | cons c mid =>
          obtain rfl : ' ' = c := (List.cons.inj htail).1
          have hblank : ' ' ∈ "type".toList := by simp [hmid]
          exact absurd hblank (by decide)
      · exact ⟨tail, hw⟩
    obtain rfl : rest = tail ++ " as ".toList ++ a := by simpa using hrest.symm
    show (dropBlanks1? (tail ++ " as ".toList ++ a)).bind _ = none
    cases tail with
    | nil =>
      have hword : IsWord ['a', 's'] := by decide
      have has : dropBlanks1? (" as ".toList ++ a) = some ('a' :: 's' :: ' ' :: a) :=
        dropBlanks1?_space_word hword (' ' :: a)
      rw [List.nil_append, has]
      exact binding?_as ha true
    | cons c tail =>
      have hc := not_isBlank_of_isWordChar (h.2 c (by simp))
      rw [List.cons_append, List.cons_append, dropBlanks1?, if_neg (by simp [hc])]
      rfl

end Item

/-- The item that an entry stands for in a list. -/
def Entry.item (e : Entry) : Item :=
  ⟨e.specifier, e.asName, false, e.specifier_ne_empty⟩

variable {e : Entry}

theorem Entry.WellFormed.itemText (h : e.WellFormed) : itemText e =
    match e.asName with
    | some a => e.specifier.toList ++ " as ".toList ++ a.toList
    | none => e.specifier.toList := by
  unfold Reexport.itemText
  cases has : e.asName with
  | none => rfl
  | some a =>
    have hne : a ≠ "" := fun ha => (h.asName has).1 (by rw [ha]; rfl)
    have hrenames : a ≠ e.specifier := fun ha => h.renames (by rw [has, ha])
    simp [hne, hrenames]

/-- A written item is read back. -/
theorem Item.read?_itemText (h : e.WellFormed) (hkind : e.kind ≠ .star) :
    read? (itemText e) = some e.item := by
  have hname := h.specifier hkind
  have hext {item : Item} (hn : item.name = String.ofList e.specifier.toList)
      (has : item.asName = e.asName) (ht : item.isTypeOnly = false) : item = e.item :=
    Item.ext (by rw [hn, String.ofList_toList]; rfl) has ht
  rw [h.itemText]
  cases has : e.asName with
  | none =>
    obtain ⟨item, hread, hn, ha, ht⟩ := binding?_name hname false
    rw [read?, marked?_name hname]
    show binding? false _ = _
    rw [hread, hext hn (by rw [ha, has]) ht]
  | some a =>
    obtain ⟨item, hread, hn, ha, ht⟩ := binding?_alias hname (h.asName has) false
    rw [read?, marked?_alias hname (h.asName has)]
    show binding? false _ = _
    rw [hread, hext hn (by rw [ha, has, String.ofList_toList]) ht]

/-! ### Lists of items -/

theorem Entry.WellFormed.not_mem_itemText (h : e.WellFormed) (hkind : e.kind ≠ .star) {d : Char}
    (hd : isWordChar d = false) (hblank : d ≠ ' ') : d ∉ Reexport.itemText e := by
  have hname := (h.specifier hkind).not_mem hd
  rw [h.itemText]
  cases has : e.asName with
  | none => exact hname
  | some a =>
    have ha := (h.asName has).not_mem hd
    have hmid : d ∉ " as ".toList := by
      intro hmem
      have hchar : d = ' ' ∨ d = 'a' ∨ d = 's' := by
        simpa [or_comm, or_left_comm] using hmem
      rcases hchar with rfl | rfl | rfl
      · exact hblank rfl
      · exact absurd hd (by decide)
      · exact absurd hd (by decide)
    simp only [List.mem_append, not_or]
    exact ⟨⟨hname, hmid⟩, ha⟩

theorem Entry.WellFormed.trim_itemText (h : e.WellFormed) (hkind : e.kind ≠ .star) :
    trim (Reexport.itemText e) = Reexport.itemText e := by
  have hname := h.specifier hkind
  rw [h.itemText]
  cases has : e.asName with
  | none => exact trim_word hname
  | some a =>
    obtain ⟨c, cs, hcs, hc, -⟩ := hname.exists_cons
    have ha := h.asName has
    obtain hnil | ⟨init, d, hd⟩ := List.eq_nil_or_concat a.toList
    · exact absurd hnil ha.1
    rw [List.concat_eq_append] at hd
    have hlast := not_isBlank_of_isWordChar (ha.2 d (by simp [hd]))
    have hmid := trim_of_ends (not_isBlank_of_isWordChar hc) hlast (cs ++ " as ".toList ++ init)
    simpa [hcs, hd] using hmid

/-- The pieces of a list between its brackets. -/
theorem map_trim_split_join {texts : List (List Char)} (hne : texts ≠ [])
    (h : ∀ x ∈ texts, ',' ∉ x ∧ trim x = x) :
    (split ',' (' ' :: (join ", ".toList texts ++ [' ']))).map trim = texts := by
  induction texts with
  | nil => exact absurd rfl hne
  | cons x texts ih =>
    rw [List.forall_mem_cons] at h
    obtain ⟨⟨hcomma, htrim⟩, hrest⟩ := h
    cases texts with
    | nil =>
      have hx : ',' ∉ ' ' :: (x ++ [' ']) := by simp [hcomma]
      rw [join, split_of_not_mem hx, List.map_singleton, trim_cons_blank (by decide),
        trim_append_blank (by decide), htrim]
    | cons y texts =>
      have hx : ',' ∉ ' ' :: x := by simp [hcomma]
      have hsplit : ' ' :: (join ", ".toList (x :: y :: texts) ++ [' ']) =
          (' ' :: x) ++ ',' :: (' ' :: (join ", ".toList (y :: texts) ++ [' '])) := by
        simp [join]
      rw [hsplit, split_append_cons hx, List.map_cons, trim_cons_blank (by decide), htrim,
        ih (by simp) hrest]

/-- Written items are read back. -/
theorem Item.readList_itemTexts {entries : List Entry} (hne : entries ≠ [])
    (h : ∀ e ∈ entries, e.WellFormed ∧ e.kind ≠ .star) :
    readList (' ' :: (join ", ".toList (entries.map itemText) ++ [' '])) =
      entries.map Entry.item := by
  have htexts : ∀ x ∈ entries.map itemText, ',' ∉ x ∧ trim x = x := by
    intro x hx
    obtain ⟨e, he, rfl⟩ := List.mem_map.1 hx
    obtain ⟨hwf, hkind⟩ := h e he
    exact ⟨hwf.not_mem_itemText hkind (by decide) (by decide), hwf.trim_itemText hkind⟩
  have hread : ∀ e ∈ entries, read? (itemText e) = some e.item := fun e he =>
    read?_itemText (h e he).1 (h e he).2
  have hmap (pieces : List (List Char)) : pieces.filterMap (fun piece => read? (trim piece)) =
      (pieces.map trim).filterMap read? := by
    rw [List.filterMap_map]
    rfl
  rw [readList, hmap, map_trim_split_join (by simpa using hne) htexts]
  clear hne htexts
  induction entries with
  | nil => rfl
  | cons e entries ih =>
    rw [List.forall_mem_cons] at h hread
    rw [List.map_cons, List.filterMap_cons_some hread.1, ih h.2 hread.2, List.map_cons]

/-! ### Statements -/

namespace Statement

variable {source : String}

/-- What follows a clause is read as the source. -/
theorem fromClause?_sourceText (hne : source ≠ "")
    (h : ∀ c ∈ source.toList, isQuote c = false) :
    fromClause? (dropBlanks (sourceText source)) = some ⟨source, hne⟩ := by
  have htext : sourceText source =
      ' ' :: 'f' :: 'r' :: 'o' :: 'm' :: ' ' :: '"' :: (source.toList ++ ['"', ';']) := by
    show " from \"".toList ++ source.toList ++ "\";".toList = _
    simp
  have hplain : ∀ c ∈ source.toList, (!isQuote c) = true := fun c hc => by rw [h c hc]; rfl
  have htake : (source.toList ++ ['"', ';']).takeWhile (!isQuote ·) = source.toList := by
    rw [List.takeWhile_append_of_pos hplain]
    simp [isQuote]
  have hdrop : (source.toList ++ ['"', ';']).dropWhile (!isQuote ·) = ['"', ';'] := by
    rw [List.dropWhile_append_of_pos hplain]
    simp [isQuote]
  have hfrom : dropText? "from".toList
      ('f' :: 'r' :: 'o' :: 'm' :: ' ' :: '"' :: (source.toList ++ ['"', ';'])) =
        some (' ' :: '"' :: (source.toList ++ ['"', ';'])) :=
    dropText?_eq_some_iff.2 (by simp)
  obtain ⟨c, cs, hcs⟩ : ∃ c cs, source.toList = c :: cs :=
    List.exists_cons_of_ne_nil fun hnil => hne (String.toList_eq_nil_iff.1 hnil)
  have hsource : sourceOf c cs = ⟨source, hne⟩ := by
    refine Subtype.ext ?_
    show String.ofList (c :: cs) = source
    rw [← hcs, String.ofList_toList]
  rw [htext, dropBlanks_cons_of_blank (by decide), dropBlanks_cons_of_not (by decide), fromClause?,
    hfrom, Option.bind_some, quoted?, dropBlanks_cons_of_blank (by decide),
    dropBlanks_cons_of_not (by decide)]
  show (if isQuote '"' = true then _ else none) = _
  rw [if_pos (by decide), htake, hdrop]
  simp only [hcs, if_true, hsource]

theorem trim_written (t : Bool) (body : List Char) (source : String) :
    trim (keyword t ++ body ++ sourceText source) = keyword t ++ body ++ sourceText source := by
  obtain ⟨k, hk⟩ : ∃ k, keyword t = 'e' :: k := by
    cases t with
    | false => exact ⟨"xport".toList, by simp [keyword]⟩
    | true => exact ⟨"xport type".toList, by simp [keyword]⟩
  have hend : sourceText source = (" from \"".toList ++ source.toList ++ ['"']) ++ [';'] := by
    show " from \"".toList ++ source.toList ++ "\";".toList = _
    simp
  have htrim := trim_of_ends (c := 'e') (d := ';') (by decide) (by decide)
    (k ++ body ++ (" from \"".toList ++ source.toList ++ ['"']))
  rw [hk, hend]
  simpa using htrim

/-- The words before a clause are read as what they say. -/
theorem read?_keyword (t : Bool) {c : Char} (hblank : isBlank c = false) (hc : c ≠ 't')
    (rest : List Char) : ∃ cs₁ cs₂, dropText? "export".toList (keyword t ++ ' ' :: c :: rest) =
      some cs₁ ∧ dropBlanks1? cs₁ = some cs₂ ∧ typeMark cs₂ = (t, c :: rest) := by
  cases t with
  | false =>
    refine ⟨' ' :: c :: rest, c :: rest, dropText?_eq_some_iff.2 rfl, ?_, ?_⟩
    · exact congrArg some (dropBlanks_cons_of_not hblank rest)
    · cases hdrop : dropText? "type".toList (c :: rest) with
      | none => rw [typeMark, hdrop]
      | some tail => exact absurd (List.cons.inj (dropText?_eq_some_iff.1 hdrop)).1 hc
  | true =>
    refine ⟨' ' :: ("type".toList ++ ' ' :: c :: rest), "type".toList ++ ' ' :: c :: rest,
      dropText?_eq_some_iff.2 rfl, rfl, ?_⟩
    rw [typeMark, dropText?_eq_some_iff.2 rfl]
    exact congrArg (Prod.mk true) (dropBlanks_cons_of_not hblank rest)

/-- A written alias is read back with the source behind it. -/
theorem asClause?_sourceText (hne : source ≠ "") (h : ∀ c ∈ source.toList, isQuote c = false)
    {a : String} (ha : IsWord a.toList) :
    asClause? ("as".toList ++ ' ' :: (a.toList ++ sourceText source)) =
      some (a.toList, ⟨source, hne⟩) := by
  have hspan : spanWord (a.toList ++ sourceText source) = (a.toList, sourceText source) :=
    spanWord_append_cons ha.2 (by decide) _
  obtain ⟨d, back, hback⟩ : ∃ d back, a.toList.reverse = d :: back :=
    List.exists_cons_of_ne_nil (by simpa using ha.1)
  simp only [asClause?, dropText?_eq_some_iff.2 rfl, dropBlanks1?_space_word ha, hspan,
    Option.bind_eq_bind, Option.bind_some, hback, aliasFrom?, fromClause?_sourceText hne h]
  rw [← hback, List.reverse_reverse]

/-- A whole namespace is read back. -/
theorem ofLine?_starText (t : Bool) (hne : source ≠ "")
    (h : ∀ c ∈ source.toList, isQuote c = false) (asName : Option String)
    (has : ∀ a, asName = some a → IsWord a.toList) :
    ofLine? (starText t source asName) = some ⟨t, .star asName, source, hne⟩ := by
  have hsource := fromClause?_sourceText hne h
  cases asName with
  | none =>
    have htext : starText t source none = keyword t ++ " *".toList ++ sourceText source := rfl
    have hsplit : keyword t ++ " *".toList ++ sourceText source =
        keyword t ++ ' ' :: '*' :: sourceText source := by simp
    have hnone : asClause? (dropBlanks (sourceText source)) = none := rfl
    rw [ofLine?, htext, trim_written, hsplit]
    obtain ⟨cs₁, cs₂, h₁, h₂, h₃⟩ := read?_keyword t (c := '*') (by decide) (by decide)
      (sourceText source)
    simp only [read?, h₁, h₂, h₃, Option.bind_eq_bind, Option.bind_some, hnone, hsource,
      Option.map_some]
  | some a =>
    have ha := has a rfl
    have hane : a ≠ "" := fun hnil => ha.1 (by rw [hnil]; rfl)
    have htext : starText t source (some a) =
        keyword t ++ (" * as ".toList ++ a.toList) ++ sourceText source := by
      simp [starText, hane]
    have hsplit : keyword t ++ (" * as ".toList ++ a.toList) ++ sourceText source =
        keyword t ++ ' ' :: '*' :: (' ' :: ("as".toList ++ ' ' :: (a.toList ++ sourceText source))) := by
      simp
    have hclause : asClause? (dropBlanks (' ' :: ("as".toList ++ ' ' :: (a.toList ++
        sourceText source)))) = some (a.toList, ⟨source, hne⟩) :=
      asClause?_sourceText hne h ha
    rw [ofLine?, htext, trim_written, hsplit]
    obtain ⟨cs₁, cs₂, h₁, h₂, h₃⟩ := read?_keyword t (c := '*') (by decide) (by decide)
      (' ' :: ("as".toList ++ ' ' :: (a.toList ++ sourceText source)))
    simp only [read?, h₁, h₂, h₃, Option.bind_eq_bind, Option.bind_some, hclause,
      String.ofList_toList]

/-- No item holds the bracket that ends the list. -/
theorem not_mem_join_itemTexts {entries : List Entry}
    (hwf : ∀ e ∈ entries, e.WellFormed ∧ e.kind ≠ .star) :
    '\x7d' ∉ join ", ".toList (entries.map itemText) := by
  intro hmem
  rcases mem_of_mem_join hmem with hmem | ⟨text, htext, hmem⟩
  · exact absurd hmem (by decide)
  · obtain ⟨e, he, rfl⟩ := List.mem_map.1 htext
    exact (hwf e he).1.not_mem_itemText (hwf e he).2 (by decide) (by decide) hmem

/-- A list of items is read back. -/
theorem ofLine?_listText (t : Bool) (hne : source ≠ "")
    (h : ∀ c ∈ source.toList, isQuote c = false) {entries : List Entry} (hentries : entries ≠ [])
    (hwf : ∀ e ∈ entries, e.WellFormed ∧ e.kind ≠ .star) :
    ofLine? (listText t source (entries.map itemText)) =
      some ⟨t, .list (entries.map Entry.item), source, hne⟩ := by
  have hsource := fromClause?_sourceText hne h
  have hlist := Item.readList_itemTexts hentries hwf
  generalize hinner : ' ' :: (join ", ".toList (entries.map itemText) ++ [' ']) = inner at hlist
  have hclose : ∀ c ∈ inner, decide (c ≠ '\x7d') = true := by
    intro c hc
    rw [decide_eq_true_eq]
    rintro rfl
    rw [← hinner] at hc
    exact not_mem_join_itemTexts hwf (by simpa using hc)
  have htake : (inner ++ '\x7d' :: sourceText source).takeWhile (· ≠ '\x7d') = inner := by
    rw [List.takeWhile_append_of_pos hclose]
    simp
  have hdrop : (inner ++ '\x7d' :: sourceText source).dropWhile (· ≠ '\x7d') =
      '\x7d' :: sourceText source := by
    rw [List.dropWhile_append_of_pos hclose]
    simp
  have htext : listText t source (entries.map itemText) =
      keyword t ++ (' ' :: '\x7b' :: (inner ++ ['\x7d'])) ++ sourceText source := by
    show keyword t ++ " \x7b ".toList ++ join ", ".toList (entries.map itemText) ++
      " \x7d".toList ++ sourceText source = _
    rw [← hinner]
    simp
  have hsplit : keyword t ++ (' ' :: '\x7b' :: (inner ++ ['\x7d'])) ++ sourceText source =
      keyword t ++ ' ' :: '\x7b' :: (inner ++ '\x7d' :: sourceText source) := by simp
  rw [ofLine?, htext, trim_written, hsplit]
  obtain ⟨cs₁, cs₂, h₁, h₂, h₃⟩ := read?_keyword t (c := '\x7b') (by decide) (by decide)
    (inner ++ '\x7d' :: sourceText source)
  simp only [read?, h₁, h₂, h₃, Option.bind_eq_bind, Option.bind_some, hdrop, htake, hsource, hlist,
    Option.map_some]

end Statement

/-! ### Lines -/

theorem Entry.WellFormed.not_isQuote (h : e.WellFormed) :
    ∀ c ∈ e.source.toList, Statement.isQuote c = false :=
  fun c hc => (h.source c hc).1

/-- The line of a whole namespace holds the namespace. -/
theorem lineEntries_starText (h : e.WellFormed) (hkind : e.kind = .star) (line : Nat) :
    lineEntries (starText e.isTypeOnly e.source e.asName) line = [e.atLine line] := by
  have hread := Statement.ofLine?_starText e.isTypeOnly e.source_ne_empty h.not_isQuote e.asName
    fun _ ha => h.asName ha
  rw [lineEntries, hread]
  have hspec := e.specifier_of_star hkind
  cases e
  cases hkind
  cases hspec
  rfl

/-- The line of a list holds its entries. -/
theorem lineEntries_listText {t : Bool} {source : String} {entries : List Entry}
    (hentries : entries ≠ []) (h : ∀ e ∈ entries, e.WellFormed ∧ e.kind ≠ .star ∧
      e.source = source ∧ e.isTypeOnly = t) (line : Nat) :
    lineEntries (listText t source (entries.map itemText)) line =
      entries.map (·.atLine line) := by
  obtain ⟨first, hfirst⟩ := List.exists_mem_of_ne_nil _ hentries
  obtain ⟨hwf, -, rfl, rfl⟩ := h first hfirst
  have hread := Statement.ofLine?_listText first.isTypeOnly first.source_ne_empty hwf.not_isQuote
    hentries fun e he => ⟨(h e he).1, (h e he).2.1⟩
  rw [lineEntries, hread]
  show (entries.map Entry.item).map _ = _
  rw [List.map_map]
  refine List.map_congr_left fun e he => ?_
  obtain ⟨hwf, hkind, hsource, htype⟩ := h e he
  have hitem : e.item.kind = e.kind := by
    have hdefault := hwf.kind hkind
    unfold Item.kind
    show (if e.specifier = defaultSpecifier then Kind.default else Kind.named) = e.kind
    split
    · rename_i hspec
      exact (hdefault.2 hspec).symm
    · rename_i hspec
      cases hk : e.kind with
      | named => rfl
      | default => exact absurd (hdefault.1 hk) hspec
      | star => exact absurd hk hkind
  have hrenames : (if e.item.asName = some e.item.name then none else e.item.asName) = e.asName :=
    if_neg hwf.renames
  simp only [Function.comp_apply, Statement.itemEntry, hitem, hrenames, ← hsource, ← htype]
  simp only [Entry.item, Bool.or_false]
  rfl

end Reexport
