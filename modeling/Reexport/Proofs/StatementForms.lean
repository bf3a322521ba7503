import Mathlib.Data.Set.Subsingleton
import Reexport.Proofs.WrittenStatements

/-!
# The forms of re-export statements

What the reader of a line takes for a re-export statement, said without reading: a text begins with a
statement if it can be cut into an opening with the word `export`, what is passed on, a closing with
the source, and whatever follows. A `Reading` is such a cut, up to its blanks and quotes.

The reader goes through the text once and tries the aliases of a namespace from the longest one down.
Nothing is lost that way, for a text has one reading at most. Blanks, words and the marks between them
end where they end, and of the words that an alias might be, one alone leaves the word `from` with a
source behind it: the whole run of word characters, or the run without a `from` at its end.

## What is proved

* `fromClause?_eq_some_iff`, `asClause?_eq_some_iff` — what the readers of the parts accept.
* `begins_iff` — a text begins with a reading exactly if the reader finds that one.
* `lineEntries?_eq_ok_iff` — hence the entries of a line, for every text, by its only reading.
-/

namespace Reexport

open Text

/-! ### Blanks -/

namespace Text

/-- A text of blanks, or an empty one. -/
def Blanks (w : List Char) : Prop :=
  ∀ c ∈ w, isBlank c = true

/-- A text that does not begin with a blank. -/
def Solid (cs : List Char) : Prop :=
  ∀ c, cs.head? = some c → isBlank c = false

variable {w cs rest : List Char} {c : Char}

theorem takeWhile_of_head? {p : Char → Bool} (h : ∀ c, cs.head? = some c → p c = false) :
    cs.takeWhile p = [] := by
  cases cs with
  | nil => rfl
  | cons c cs => simp [h c rfl]

theorem dropWhile_of_head? {p : Char → Bool} (h : ∀ c, cs.head? = some c → p c = false) :
    cs.dropWhile p = cs := by
  cases cs with
  | nil => rfl
  | cons c cs => simp [h c rfl]

theorem solid_cons_iff : Solid (c :: cs) ↔ isBlank c = false := by
  simp [Solid]

theorem dropBlanks_append (h : Blanks w) (cs : List Char) :
    dropBlanks (w ++ cs) = dropBlanks cs :=
  List.dropWhile_append_of_pos h

theorem dropBlanks_of_solid (h : Solid cs) : dropBlanks cs = cs :=
  dropWhile_of_head? h

theorem dropBlanks_eq_iff :
    dropBlanks cs = rest ↔ ∃ w, Blanks w ∧ Solid rest ∧ cs = w ++ rest := by
  constructor
  · rintro rfl
    refine ⟨cs.takeWhile isBlank, ?_, fun c hc => head?_dropBlanks hc, ?_⟩
    · exact fun c hc => List.mem_takeWhile_imp hc
    · exact List.takeWhile_append_dropWhile.symm
  · rintro ⟨w, hw, hrest, rfl⟩
    rw [dropBlanks_append hw, dropBlanks_of_solid hrest]

theorem dropBlanks1?_eq_some_iff :
    dropBlanks1? cs = some rest ↔ ∃ w, w ≠ [] ∧ Blanks w ∧ Solid rest ∧ cs = w ++ rest := by
  cases cs with
  | nil => simp [dropBlanks1?]
  | cons c cs =>
    by_cases hc : isBlank c = true
    · have hcons : dropBlanks1? (c :: cs) = some (dropBlanks (c :: cs)) := by
        rw [dropBlanks1?, if_pos hc, dropBlanks_cons_of_blank hc]
      rw [hcons, Option.some.injEq, dropBlanks_eq_iff]
      constructor
      · rintro ⟨w, hw, hrest, heq⟩
        refine ⟨w, ?_, hw, hrest, heq⟩
        rintro rfl
        rw [List.nil_append] at heq
        rw [← heq, solid_cons_iff, hc] at hrest
        cases hrest
      · rintro ⟨w, -, hw, hrest, heq⟩
        exact ⟨w, hw, hrest, heq⟩
    · rw [dropBlanks1?, if_neg hc]
      refine iff_of_false (by simp) ?_
      rintro ⟨w, hne, hw, -, heq⟩
      cases w with
      | nil => exact hne rfl
      | cons b w =>
        obtain ⟨rfl, -⟩ := List.cons.inj heq
        exact hc (hw c List.mem_cons_self)

theorem dropText?_cons_of_ne {d : Char} (h : c ≠ d) (text cs : List Char) :
    dropText? (d :: text) (c :: cs) = none := by
  rw [dropText?, if_neg]
  rw [List.isPrefixOf_iff_prefix, List.cons_prefix_cons]
  intro hprefix
  exact h hprefix.1.symm

end Text

namespace Statement

/-! ### Forms -/

/-- The opening of a statement, with or without the mark `type`. -/
inductive Opening : Bool → List Char → Prop where
  /-- The word `export`. -/
  | plain {w : List Char} (hne : w ≠ []) (hw : Blanks w) : Opening false ("export".toList ++ w)
  /-- The words `export` and `type`. -/
  | marked {w v : List Char} (hne : w ≠ []) (hw : Blanks w) (hv : Blanks v) :
      Opening true ("export".toList ++ w ++ ("type".toList ++ v))

/-- The closing of a statement: the word `from` and the source, between two quotes of one form. -/
inductive Closing (source : List Char) : List Char → Prop where
  /-- The source holds no quotes of either form. -/
  | intro {w : List Char} {quote : Char} (hw : Blanks w) (hquote : isQuote quote = true)
      (hne : source ≠ []) (hfree : ∀ c ∈ source, isQuote c = false) :
      Closing source ("from".toList ++ w ++ quote :: (source ++ [quote]))

/-- What a statement passes on, as it is written. -/
inductive Subject where
  /-- The whole namespace as it is. -/
  | star
  /-- The whole namespace under a name. -/
  | starAs (word : List Char)
  /-- The text of a list, between its braces. -/
  | list (items : List Char)
  deriving DecidableEq

/-- How a subject is written, with the blanks behind it. -/
inductive Subject.Form : Subject → List Char → Prop where
  /-- A star. -/
  | star {w : List Char} (hw : Blanks w) : Form .star ('*' :: w)
  /-- A star with a name. -/
  | starAs {w v word u : List Char} (hw : Blanks w) (hne : v ≠ []) (hv : Blanks v)
      (hword : IsWord word) (hu : Blanks u) :
      Form (.starAs word) ('*' :: w ++ "as".toList ++ v ++ word ++ u)
  /-- A list in braces. -/
  | list {items w : List Char} (hfree : '\x7d' ∉ items) (hw : Blanks w) :
      Form (.list items) ('\x7b' :: items ++ '\x7d' :: w)

/-- A re-export statement as it is written, without the blanks in it. -/
@[ext]
structure Reading where
  /-- Whether the statement has the mark `type`. -/
  isTypeOnly : Bool
  /-- What it passes on. -/
  subject : Subject
  /-- The text between the quotes. -/
  source : String
  source_ne_empty : source ≠ ""

/-- A text begins with a statement that is read so. -/
def Reading.Begins (r : Reading) (cs : List Char) : Prop :=
  ∃ opening subject closing rest, Opening r.isTypeOnly opening ∧ r.subject.Form subject ∧
    Closing r.source.toList closing ∧ cs = opening ++ subject ++ closing ++ rest

/-- What a subject stands for. -/
def Subject.clause : Subject → Clause
  | star => .star none
  | starAs word => .star (some (String.ofList word))
  | list items => .list (Item.readList items)

/-- The statement of a reading. -/
def Reading.statement (r : Reading) : Statement :=
  ⟨r.isTypeOnly, r.subject.clause, r.source, r.source_ne_empty⟩

/-! ### Sources -/

variable {cs rest word : List Char} {s : Source} {c : Char}

theorem not_isBlank_of_isQuote (h : isQuote c = true) : isBlank c = false := by
  rcases isQuote_iff.1 h with rfl | rfl <;> decide

theorem not_isWordChar_of_isQuote (h : isQuote c = true) : isWordChar c = false := by
  rcases isQuote_iff.1 h with rfl | rfl <;> decide

theorem not_isWordChar_of_isBlank (h : isBlank c = true) : isWordChar c = false := by
  rw [← Bool.not_eq_true]
  intro hword
  rw [not_isBlank_of_isWordChar hword] at h
  cases h

theorem quoted?_eq_some_iff : quoted? cs = some s ↔ ∃ w quote rest, Blanks w ∧
    isQuote quote = true ∧ (∀ c ∈ s.1.toList, isQuote c = false) ∧
      cs = w ++ quote :: (s.1.toList ++ quote :: rest) := by
  constructor
  · intro h
    have hfree : ∀ c ∈ s.1.toList, isQuote c = false := fun c hc => (mem_of_quoted? h hc).1
    unfold quoted? at h
    split at h
    · cases h
    rename_i quote inner hopen
    obtain ⟨w, hw, -, rfl⟩ := dropBlanks_eq_iff.1 hopen
    split at h
    · rename_i hquote
      split at h
      · rename_i c text close rest htake hdrop
        split at h
        · rename_i hclose
          cases h
          refine ⟨w, quote, rest, hw, hquote, hfree, ?_⟩
          rw [← List.takeWhile_append_dropWhile (p := (!isQuote ·)) (l := inner), htake, hdrop,
            hclose, sourceOf, String.toList_ofList]
        · cases h
      · cases h
    · cases h
  · rintro ⟨w, quote, rest, hw, hquote, hfree, rfl⟩
    obtain ⟨source, hsource⟩ := s
    obtain ⟨c, text, htext⟩ := List.exists_cons_of_ne_nil (l := source.toList)
      (by simpa using hsource)
    have htake : (source.toList ++ quote :: rest).takeWhile (!isQuote ·) = source.toList := by
      rw [List.takeWhile_append_of_pos fun c hc => by simp [hfree c hc]]
      simp [hquote]
    have hdrop : (source.toList ++ quote :: rest).dropWhile (!isQuote ·) = quote :: rest := by
      rw [List.dropWhile_append_of_pos fun c hc => by simp [hfree c hc]]
      simp [hquote]
    rw [quoted?, dropBlanks_append hw, dropBlanks_cons_of_not (not_isBlank_of_isQuote hquote)]
    simp only [hquote, if_true]
    rw [htake, hdrop, htext]
    simp only [if_true, sourceOf, ← htext, String.ofList_toList]

/-- The reader of a source accepts the closings of statements. -/
theorem fromClause?_eq_some_iff : fromClause? cs = some s ↔ ∃ closing rest,
    Closing s.1.toList closing ∧ cs = closing ++ rest := by
  rw [fromClause?, Option.bind_eq_some_iff]
  simp only [dropText?_eq_some_iff, quoted?_eq_some_iff]
  constructor
  · rintro ⟨_, rfl, w, quote, rest, hw, hquote, hfree, rfl⟩
    refine ⟨_, rest, .intro hw hquote (by simpa using s.2) hfree, ?_⟩
    simp
  · rintro ⟨_, rest, ⟨hw, hquote, hne, hfree⟩, rfl⟩
    refine ⟨_, List.append_assoc .., _, _, rest, hw, hquote, hfree, ?_⟩
    simp

/-- A source does not follow where the text goes on with another letter. -/
theorem fromClause?_cons_of_ne (h : c ≠ 'f') (cs : List Char) : fromClause? (c :: cs) = none := by
  have hdrop : dropText? "from".toList (c :: cs) = none := dropText?_cons_of_ne h _ cs
  rw [fromClause?, hdrop]
  rfl

/-! ### Aliases -/

/-- The text behind a word leaves a source, and no shorter ending of it does. -/
structure LeavesFirst (more rest : List Char) (s : Source) : Prop where
  leaves : fromClause? (dropBlanks (more ++ rest)) = some s
  first : ∀ less, less <:+ more → less ≠ more → fromClause? (dropBlanks (less ++ rest)) = none

theorem leavesFirst_nil_iff : LeavesFirst [] rest s ↔ fromClause? (dropBlanks rest) = some s :=
  ⟨LeavesFirst.leaves, fun h => ⟨h, fun _ hless hne => absurd (List.suffix_nil.1 hless) hne⟩⟩

theorem leavesFirst_concat_iff {more : List Char} : LeavesFirst (more ++ [c]) rest s ↔
    fromClause? (dropBlanks rest) = none ∧ LeavesFirst more (c :: rest) s := by
  constructor
  · rintro ⟨hmore, hless⟩
    rw [List.append_assoc] at hmore
    refine ⟨hless [] List.nil_suffix (by simp), hmore, fun less hsuffix hne => ?_⟩
    have hnone := hless (less ++ [c]) (List.suffix_concat_iff.2 (.inr ⟨less, rfl, hsuffix⟩))
      fun h => hne (List.append_cancel_right h)
    rwa [List.append_assoc] at hnone
  · rintro ⟨hrest, hmore, hless⟩
    refine ⟨by rwa [List.append_assoc], fun less hsuffix hne => ?_⟩
    rcases List.suffix_concat_iff.1 hsuffix with rfl | ⟨init, rfl, hinit⟩
    · exact hrest
    · rw [List.append_assoc]
      exact hless init hinit fun h => hne (by rw [h])

/-- The reader of an alias takes the longest beginning of a word that leaves a source. -/
theorem aliasFrom?_eq_some_iff {back : List Char} : aliasFrom? back rest = some (word, s) ↔
    word ≠ [] ∧ ∃ more, back.reverse = word ++ more ∧ LeavesFirst more rest s := by
  induction back generalizing rest with
  | nil =>
    rw [aliasFrom?]
    refine iff_of_false (by simp) ?_
    rintro ⟨hne, more, heq, -⟩
    exact hne (List.append_eq_nil_iff.1 heq.symm).1
  | cons c back ih =>
    unfold aliasFrom?
    split
    · rename_i source hsource
      rw [Option.some.injEq, Prod.mk.injEq]
      constructor
      · rintro ⟨rfl, rfl⟩
        exact ⟨by simp, [], (List.append_nil _).symm, leavesFirst_nil_iff.2 hsource⟩
      · -- The whole word leaves a source, so nothing of it is left over.
        rintro ⟨-, more, heq, hmore⟩
        rcases List.eq_nil_or_concat' more with rfl | ⟨more, d, rfl⟩
        · rw [leavesFirst_nil_iff, hsource, Option.some.injEq] at hmore
          exact ⟨by rw [heq, List.append_nil], hmore⟩
        · rw [leavesFirst_concat_iff, hsource] at hmore
          cases hmore.1
    · rename_i hsource
      rw [ih]
      constructor
      · rintro ⟨hne, more, heq, hmore⟩
        refine ⟨hne, more ++ [c], ?_, leavesFirst_concat_iff.2 ⟨hsource, hmore⟩⟩
        rw [List.reverse_cons, heq, List.append_assoc]
      · rintro ⟨hne, more, heq, hmore⟩
        rcases List.eq_nil_or_concat' more with rfl | ⟨more, d, rfl⟩
        · rw [leavesFirst_nil_iff, hsource] at hmore
          cases hmore
        · rw [List.reverse_cons, ← List.append_assoc] at heq
          obtain ⟨hback, hlast⟩ := List.append_inj' heq rfl
          obtain ⟨rfl, -⟩ := List.cons.inj hlast
          exact ⟨hne, more, hback, (leavesFirst_concat_iff.1 hmore).2⟩

/-- A closing begins with a letter. -/
theorem Closing.exists_cons {source closing : List Char} (h : Closing source closing) :
    ∃ tail, closing = 'f' :: tail := by
  cases h
  exact ⟨_, rfl⟩

theorem Closing.dropBlanks_blanks {source u closing : List Char} (hu : Blanks u)
    (h : Closing source closing) (rest : List Char) :
    dropBlanks (u ++ (closing ++ rest)) = closing ++ rest := by
  obtain ⟨tail, rfl⟩ := h.exists_cons
  apply dropBlanks_eq_iff.2
  refine ⟨u, hu, ?_, rfl⟩
  rw [List.cons_append, solid_cons_iff]
  decide

/-- Behind blanks, a closing leaves of the run of word characters either nothing or the word `from`,
behind which no other closing follows. -/
theorem Closing.takeWhile_isWordChar {source u closing : List Char} (hu : Blanks u)
    (h : Closing source closing) (rest : List Char) :
    (u ++ closing ++ rest).takeWhile isWordChar = [] ∨
      (u ++ closing ++ rest).takeWhile isWordChar = "from".toList ∧
        fromClause? (dropBlanks ((u ++ closing ++ rest).dropWhile isWordChar)) = none := by
  cases u with
  | cons b u =>
    have hb : isWordChar b = false := not_isWordChar_of_isBlank (hu b List.mem_cons_self)
    exact .inl (by simp [hb])
  | nil =>
    cases h with
    | @intro w quote hw hquote _ _ =>
      have hfrom : IsWord "from".toList := by decide
      have hstop : ∀ c, (w ++ quote :: (source ++ [quote] ++ rest)).head? = some c →
          isWordChar c = false := by
        cases w with
        | nil => simpa using not_isWordChar_of_isQuote hquote
        | cons b w => simpa using not_isWordChar_of_isBlank (hw b List.mem_cons_self)
      rw [List.nil_append, List.append_assoc, List.append_assoc, List.cons_append,
        List.takeWhile_append_of_pos hfrom.2, List.dropWhile_append_of_pos hfrom.2,
        takeWhile_of_head? hstop, dropWhile_of_head? hstop, dropBlanks_append hw,
        dropBlanks_cons_of_not (not_isBlank_of_isQuote hquote)]
      refine .inr ⟨List.append_nil _, fromClause?_cons_of_ne ?_ _⟩
      rintro rfl
      exact absurd hquote (by decide)

/-- Parts of the word `from` leave no source, whatever follows them. -/
theorem fromClause?_of_suffix {less : List Char} (h : less <:+ "from".toList)
    (hne : less ≠ "from".toList) (hrest : fromClause? (dropBlanks rest) = none) :
    fromClause? (dropBlanks (less ++ rest)) = none := by
  have hletter {c : Char} (hc : isBlank c = false) (hf : c ≠ 'f') (cs : List Char) :
      fromClause? (dropBlanks (c :: cs)) = none := by
    rw [dropBlanks_cons_of_not hc]
    exact fromClause?_cons_of_ne hf cs
  have hcases : less = "from".toList ∨ less = "rom".toList ∨ less = "om".toList ∨
      less = "m".toList ∨ less = [] := by
    simpa [List.suffix_cons_iff] using h
  rcases hcases with rfl | rfl | rfl | rfl | rfl
  · exact absurd rfl hne
  · exact hletter (by decide) (by decide) _
  · exact hletter (by decide) (by decide) _
  · exact hletter (by decide) (by decide) _
  · exact hrest

theorem exists_of_asClause? (h : asClause? cs = some (word, s)) : ∃ v u closing rest, v ≠ [] ∧
    Blanks v ∧ IsWord word ∧ Blanks u ∧ Closing s.1.toList closing ∧
      cs = "as".toList ++ v ++ word ++ u ++ closing ++ rest := by
  have hword := (mem_of_asClause? h).1
  obtain ⟨cs₁, h₁, hrest⟩ := Option.bind_eq_some_iff.1 h
  obtain ⟨cs₂, h₂, halias⟩ := Option.bind_eq_some_iff.1 hrest
  obtain ⟨-, more, hspan, hsource, -⟩ := aliasFrom?_eq_some_iff.1 halias
  obtain ⟨v, hne, hv, -, hcs₁⟩ := dropBlanks1?_eq_some_iff.1 h₂
  obtain ⟨closing, rest, hclosing, hrest⟩ := fromClause?_eq_some_iff.1 hsource
  obtain ⟨u, hu, -, hmore⟩ := dropBlanks_eq_iff.1 hrest
  rw [List.reverse_reverse] at hspan
  refine ⟨v, u, closing, rest, hne, hv, hword, hu, hclosing, ?_⟩
  rw [dropText?_eq_some_iff.1 h₁, hcs₁, ← List.takeWhile_append_dropWhile (p := isWordChar)
    (l := cs₂), hspan, List.append_assoc word, hmore]
  simp

/-- In front of a closing, the reader of an alias gives back of the run of word characters just what
belongs to the closing. -/
theorem aliasFrom?_spanWord {u closing : List Char} (hword : IsWord word) (hu : Blanks u)
    (hclosing : Closing s.1.toList closing) (rest : List Char) :
    aliasFrom? (spanWord (word ++ (u ++ closing ++ rest))).1.reverse
      (spanWord (word ++ (u ++ closing ++ rest))).2 = some (word, s) := by
  rw [spanWord, List.takeWhile_append_of_pos hword.2, List.dropWhile_append_of_pos hword.2]
  refine aliasFrom?_eq_some_iff.2 ⟨hword.1, _, List.reverse_reverse _, ?_, ?_⟩
  · rw [List.takeWhile_append_dropWhile, List.append_assoc, hclosing.dropBlanks_blanks hu]
    exact fromClause?_eq_some_iff.2 ⟨closing, rest, hclosing, rfl⟩
  · intro less hless hother
    rcases hclosing.takeWhile_isWordChar hu rest with hmore | ⟨hmore, hnone⟩
    · rw [hmore] at hless hother
      exact absurd (List.suffix_nil.1 hless) hother
    · rw [hmore] at hless hother
      exact fromClause?_of_suffix hless hother hnone

/-- The reader of an alias accepts a word between blanks, with a closing behind it. -/
theorem asClause?_eq_some_iff : asClause? cs = some (word, s) ↔ ∃ v u closing rest, v ≠ [] ∧
    Blanks v ∧ IsWord word ∧ Blanks u ∧ Closing s.1.toList closing ∧
      cs = "as".toList ++ v ++ word ++ u ++ closing ++ rest := by
  refine ⟨exists_of_asClause?, ?_⟩
  rintro ⟨v, u, closing, rest, hne, hv, hword, hu, hclosing, rfl⟩
  obtain ⟨b, bs, hcons, hb, -⟩ := hword.exists_cons
  have hafter : dropBlanks1? (v ++ (word ++ (u ++ closing ++ rest))) =
      some (word ++ (u ++ closing ++ rest)) := by
    refine dropBlanks1?_eq_some_iff.2 ⟨v, hne, hv, ?_, rfl⟩
    rw [hcons, List.cons_append, solid_cons_iff]
    exact not_isBlank_of_isWordChar hb
  have hassoc : "as".toList ++ v ++ word ++ u ++ closing ++ rest =
      "as".toList ++ (v ++ (word ++ (u ++ closing ++ rest))) := by simp
  rw [asClause?, hassoc, dropText?_eq_some_iff.2 rfl, Option.bind_eq_bind, Option.bind_some,
    hafter]
  exact aliasFrom?_spanWord hword hu hclosing rest

/-- An alias does not follow where the text goes on with another letter. -/
theorem asClause?_cons_of_ne (h : c ≠ 'a') (cs : List Char) : asClause? (c :: cs) = none := by
  have hdrop : dropText? "as".toList (c :: cs) = none := dropText?_cons_of_ne h _ cs
  rw [asClause?, hdrop]
  rfl

/-! ### Subjects -/

/-- The subject and the source of a text that begins with a star or a brace. -/
def subject? : List Char → Option (Subject × Source)
  | '*' :: cs =>
    match asClause? (dropBlanks cs) with
    | some (word, source) => some (.starAs word, source)
    | none => (fromClause? (dropBlanks cs)).map fun source => (.star, source)
  | '\x7b' :: cs =>
    match cs.dropWhile (· ≠ '\x7d') with
    | [] => none
    | _ :: rest => (fromClause? (dropBlanks rest)).map fun source =>
      (.list (cs.takeWhile (· ≠ '\x7d')), source)
  | _ => none

/-- A list of items ends at its first closing brace. -/
theorem subject?_list {items : List Char} (h : '\x7d' ∉ items) (cs : List Char) :
    subject? ('\x7b' :: (items ++ '\x7d' :: cs)) =
      (fromClause? (dropBlanks cs)).map fun source => (.list items, source) := by
  have hfree : ∀ c ∈ items, decide (c ≠ '\x7d') = true := by
    intro c hc
    rw [decide_eq_true_eq]
    rintro rfl
    exact h hc
  have hdrop : (items ++ '\x7d' :: cs).dropWhile (· ≠ '\x7d') = '\x7d' :: cs := by
    rw [List.dropWhile_append_of_pos hfree]
    simp
  have htake : (items ++ '\x7d' :: cs).takeWhile (· ≠ '\x7d') = items := by
    rw [List.takeWhile_append_of_pos hfree]
    simp
  rw [subject?, hdrop, htake]

theorem exists_of_subject? {subject : Subject} (h : subject? cs = some (subject, s)) :
    ∃ text closing rest, subject.Form text ∧ Closing s.1.toList closing ∧
      cs = text ++ closing ++ rest := by
  unfold subject? at h
  split at h
  · rename_i cs
    obtain ⟨w, hw, -, hcs⟩ := dropBlanks_eq_iff.1 (rfl : dropBlanks cs = dropBlanks cs)
    split at h
    · rename_i word source has
      cases h
      obtain ⟨v, u, closing, rest, hne, hv, hword, hu, hclosing, htext⟩ := exists_of_asClause? has
      refine ⟨_, closing, rest, .starAs hw hne hv hword hu, hclosing, ?_⟩
      rw [hcs, htext]
      simp
    · obtain ⟨source, hsource, heq⟩ := Option.map_eq_some_iff.1 h
      cases heq
      obtain ⟨closing, rest, hclosing, htext⟩ := fromClause?_eq_some_iff.1 hsource
      refine ⟨_, closing, rest, .star hw, hclosing, ?_⟩
      rw [hcs, htext]
      simp
  · rename_i cs
    split at h
    · cases h
    · rename_i brace rest hdrop
      obtain ⟨source, hsource, heq⟩ := Option.map_eq_some_iff.1 h
      cases heq
      obtain ⟨closing, tail, hclosing, hrest⟩ := fromClause?_eq_some_iff.1 hsource
      obtain ⟨w, hw, -, rfl⟩ := dropBlanks_eq_iff.1 hrest
      obtain rfl : brace = '\x7d' := by
        have hbrace := List.head?_dropWhile_not (· ≠ '\x7d') cs
        rw [hdrop] at hbrace
        simpa using hbrace
      refine ⟨_, closing, tail, .list (fun hmem => ?_) hw, hclosing, ?_⟩
      · simpa using List.mem_takeWhile_imp hmem
      · conv_lhs => rw [← List.takeWhile_append_dropWhile (p := (· ≠ '\x7d')) (l := cs), hdrop]
        simp
  · cases h

/-- A star has no name where a closing follows it. -/
theorem subject?_star {w closing : List Char} (hw : Blanks w)
    (hclosing : Closing s.1.toList closing) (rest : List Char) :
    subject? ('*' :: (w ++ (closing ++ rest))) = some (.star, s) := by
  have hsource := fromClause?_eq_some_iff.2 ⟨closing, rest, hclosing, rfl⟩
  obtain ⟨tail, htail⟩ := hclosing.exists_cons
  have has : asClause? (closing ++ rest) = none := by
    rw [htail]
    exact asClause?_cons_of_ne (by decide) _
  rw [subject?, hclosing.dropBlanks_blanks hw, has, hsource]
  rfl

/-- A star has the name that follows the word `as`. -/
theorem subject?_starAs {w as : List Char} (hw : Blanks w) (has : asClause? as = some (word, s)) :
    subject? ('*' :: (w ++ as)) = some (.starAs word, s) := by
  have hsolid : Solid as := by
    obtain ⟨v, u, closing, rest, -, -, -, -, -, rfl⟩ := exists_of_asClause? has
    intro c hc
    obtain rfl : 'a' = c := by simpa using hc
    decide
  rw [subject?, dropBlanks_append hw, dropBlanks_of_solid hsolid, has]

/-- The reader of a subject accepts the forms of subjects, with a closing behind them. -/
theorem subject?_eq_some_iff {subject : Subject} : subject? cs = some (subject, s) ↔
    ∃ text closing rest, subject.Form text ∧ Closing s.1.toList closing ∧
      cs = text ++ closing ++ rest := by
  refine ⟨exists_of_subject?, ?_⟩
  rintro ⟨text, closing, rest, hform, hclosing, rfl⟩
  cases hform with
  | @star w hw =>
    rw [List.cons_append, List.cons_append, List.append_assoc]
    exact subject?_star hw hclosing rest
  | @starAs w v word u hw hne hv hword hu =>
    have has := asClause?_eq_some_iff.2 ⟨v, u, closing, rest, hne, hv, hword, hu, hclosing, rfl⟩
    have hassoc : '*' :: w ++ "as".toList ++ v ++ word ++ u ++ closing ++ rest =
        '*' :: (w ++ ("as".toList ++ v ++ word ++ u ++ closing ++ rest)) := by simp
    rw [hassoc]
    exact subject?_starAs hw has
  | @list items w hfree hw =>
    have hassoc : '\x7b' :: items ++ '\x7d' :: w ++ closing ++ rest =
        '\x7b' :: (items ++ '\x7d' :: (w ++ (closing ++ rest))) := by simp
    rw [hassoc, subject?_list hfree, hclosing.dropBlanks_blanks hw,
      fromClause?_eq_some_iff.2 ⟨closing, rest, hclosing, rfl⟩]
    rfl

theorem Subject.Form.exists_cons {subject : Subject} {text : List Char} (h : subject.Form text) :
    ∃ c tail, text = c :: tail ∧ (c = '*' ∨ c = '\x7b') := by
  cases h
  · exact ⟨_, _, rfl, .inl rfl⟩
  · exact ⟨_, _, rfl, .inl rfl⟩
  · exact ⟨_, _, rfl, .inr rfl⟩

/-! ### Openings -/

/-- Whether a text is marked as a type by its opening, and what follows that. -/
def opened? (cs : List Char) : Option (Bool × List Char) := do
  let cs ← dropText? "export".toList cs
  let cs ← dropBlanks1? cs
  return typeMark cs

theorem exists_opening_of_opened? {isTypeOnly : Bool} (h : opened? cs = some (isTypeOnly, rest)) :
    ∃ opening, Opening isTypeOnly opening ∧ cs = opening ++ rest := by
  obtain ⟨cs₁, h₁, hopened⟩ := Option.bind_eq_some_iff.1 h
  obtain ⟨cs₂, h₂, hmark⟩ := Option.bind_eq_some_iff.1 hopened
  obtain ⟨w, hne, hw, -, rfl⟩ := dropBlanks1?_eq_some_iff.1 h₂
  obtain rfl := dropText?_eq_some_iff.1 h₁
  rw [Option.pure_def, Option.some.injEq, typeMark] at hmark
  split at hmark
  · rename_i marked htype
    obtain ⟨rfl, hrest⟩ := Prod.mk.inj hmark
    obtain ⟨v, hv, -, rfl⟩ := dropBlanks_eq_iff.1 hrest
    refine ⟨_, .marked hne hw hv, ?_⟩
    rw [dropText?_eq_some_iff.1 htype]
    simp
  · obtain ⟨rfl, rfl⟩ := Prod.mk.inj hmark
    exact ⟨_, .plain hne hw, by simp⟩

/-- An opening ends at a star or a brace behind it. -/
theorem opened?_append {isTypeOnly : Bool} {opening : List Char} (h : Opening isTypeOnly opening)
    (hc : c = '*' ∨ c = '\x7b') (cs : List Char) :
    opened? (opening ++ c :: cs) = some (isTypeOnly, c :: cs) := by
  have hsolid : Solid (c :: cs) := by
    rw [solid_cons_iff]
    rcases hc with rfl | rfl <;> decide
  cases h with
  | @plain w hne hw =>
    have hblanks : dropBlanks1? (w ++ c :: cs) = some (c :: cs) :=
      dropBlanks1?_eq_some_iff.2 ⟨w, hne, hw, hsolid, rfl⟩
    have htype : dropText? "type".toList (c :: cs) = none := by
      apply dropText?_cons_of_ne
      rcases hc with rfl | rfl <;> decide
    rw [opened?, List.append_assoc, dropText?_eq_some_iff.2 rfl, Option.bind_eq_bind,
      Option.bind_some, hblanks, Option.bind_some, typeMark, htype]
    rfl
  | @marked w v hne hw hv =>
    have hblanks : dropBlanks1? (w ++ ("type".toList ++ (v ++ c :: cs))) =
        some ("type".toList ++ (v ++ c :: cs)) := by
      refine dropBlanks1?_eq_some_iff.2 ⟨w, hne, hw, ?_, rfl⟩
      intro d hd
      obtain rfl : 't' = d := by simpa using hd
      decide
    rw [opened?, List.append_assoc, List.append_assoc, List.append_assoc,
      dropText?_eq_some_iff.2 rfl, Option.bind_eq_bind, Option.bind_some, hblanks,
      Option.bind_some, typeMark, dropText?_eq_some_iff.2 rfl]
    simp only
    rw [dropBlanks_append hv, dropBlanks_of_solid hsolid]
    rfl

/-! ### Statements -/

/-- The reading that a text begins with. -/
def reading? (cs : List Char) : Option Reading := do
  let opening ← opened? cs
  let passed ← subject? opening.2
  return ⟨opening.1, passed.1, passed.2.1, passed.2.2⟩

/-- The reader of statements finds the readings. -/
theorem read?_eq (cs : List Char) : read? cs = (reading? cs).map Reading.statement := by
  rw [read?, reading?, opened?]
  cases dropText? "export".toList cs with
  | none => rfl
  | some cs₁ =>
    simp only [Option.bind_eq_bind, Option.bind_some, Option.pure_def]
    cases dropBlanks1? cs₁ with
    | none => rfl
    | some cs₂ =>
      simp only [Option.bind_some]
      generalize (typeMark cs₂).2 = cs₃
      split
      · rename_i tail
        rw [subject?]
        cases asClause? (dropBlanks tail) with
        | some named => rfl
        | none => cases fromClause? (dropBlanks tail) <;> rfl
      · rename_i tail
        rw [subject?]
        cases tail.dropWhile (· ≠ '\x7d') with
        | nil => rfl
        | cons c rest =>
          simp only
          cases fromClause? (dropBlanks rest) <;> rfl
      · rename_i hstar hbrace
        rw [subject?.eq_3 _ hstar hbrace]
        rfl

/-- A text begins with the reading that is found in it, and with no other one. -/
theorem begins_iff {r : Reading} : r.Begins cs ↔ reading? cs = some r := by
  constructor
  · rintro ⟨opening, text, closing, rest, hopening, hform, hclosing, rfl⟩
    obtain ⟨c, tail, rfl, hc⟩ := hform.exists_cons
    have hopened := opened?_append hopening hc (tail ++ closing ++ rest)
    have hsubject : subject? (c :: tail ++ closing ++ rest) =
        some (r.subject, ⟨r.source, r.source_ne_empty⟩) :=
      subject?_eq_some_iff.2 ⟨_, closing, rest, hform, hclosing, rfl⟩
    have hassoc : opening ++ c :: tail ++ closing ++ rest =
        opening ++ c :: (tail ++ closing ++ rest) := by simp
    rw [reading?, hassoc, hopened, Option.bind_eq_bind, Option.bind_some]
    simp only
    rw [← List.cons_append, ← List.cons_append, hsubject]
    rfl
  · intro h
    obtain ⟨⟨isTypeOnly, cs₁⟩, hopened, hrest⟩ := Option.bind_eq_some_iff.1 h
    obtain ⟨⟨subject, source⟩, hsubject, heq⟩ := Option.bind_eq_some_iff.1 hrest
    obtain ⟨opening, hopening, rfl⟩ := exists_opening_of_opened? hopened
    obtain ⟨text, closing, rest, hform, hclosing, rfl⟩ := subject?_eq_some_iff.1 hsubject
    cases heq
    exact ⟨opening, text, closing, rest, hopening, hform, hclosing, by simp⟩

theorem starSpecifier_ne_empty : starSpecifier ≠ "" := by
  decide

/-- The entry of a namespace, under the name of the given word or as it is. -/
def Reading.namespaceEntry (r : Reading) (line : Nat) (word : Option (List Char)) : Entry where
  specifier := starSpecifier
  source := r.source
  kind := .star
  asName := word.map String.ofList
  isTypeOnly := r.isTypeOnly
  originLine := line
  specifier_ne_empty := starSpecifier_ne_empty
  source_ne_empty := r.source_ne_empty
  specifier_of_star _ := rfl

/-- The entries of a reading, on a line of the given number: one of the namespace, or one for each
item in the text of a list. -/
def Reading.entries (r : Reading) (line : Nat) : List Entry :=
  match r.subject with
  | .star => [r.namespaceEntry line none]
  | .starAs word => [r.namespaceEntry line (some word)]
  | .list items => (Item.readList items).map (r.statement.itemEntry line)

theorem Reading.entries_statement (r : Reading) (line : Nat) :
    r.statement.entries line = r.entries line := by
  obtain ⟨isTypeOnly, subject, source, hsource⟩ := r
  cases subject <;> rfl

end Statement

open Statement

theorem lineEntries_eq (line : List Char) (n : Nat) :
    lineEntries line n = (reading? (trim line)).elim [] (·.entries n) := by
  rw [lineEntries, ofLine?, read?_eq]
  cases reading? (trim line) with
  | none => rfl
  | some r => exact r.entries_statement n

/-- Reading a line never fails. It gives the entries of the statement that the line begins with,
blanks aside, and nothing where the line begins with no statement. A line has one reading at most: it
determines the mark, the subject and the source, and the alias of a namespace as well, even where
the word `from` follows without a blank. So neither a longer nor a shorter alias could be read. -/
theorem lineEntries?_eq_ok_iff (line : List Char) (n : Nat) :
    (∃ es, lineEntries? line n = .ok es) ∧
      (∀ es, lineEntries? line n = .ok es ↔
        (∃ r : Reading, r.Begins (trim line) ∧ es = r.entries n) ∨
          (¬∃ r : Reading, r.Begins (trim line)) ∧ es = []) ∧
      {r : Reading | r.Begins (trim line)}.Subsingleton := by
  have hread : lineEntries? line n = .ok (lineEntries line n) := by
    rw [lineEntries?, if_neg, Int.toNat_natCast]
    omega
  simp only [begins_iff]
  refine ⟨⟨_, hread⟩, fun es => ?_, ?_⟩
  · rw [hread, Except.ok.injEq, lineEntries_eq]
    cases reading? (trim line) with
    | none => simp [eq_comm]
    | some r => simp [eq_comm]
  · intro r hr r' hr'
    rw [Set.mem_ofPred_eq] at hr hr'
    rw [hr, Option.some.injEq] at hr'
    exact hr'

/-- The alias of a namespace ends in front of the word `from`, without a blank between them. -/
example : (reading? "export * as xfrom'./a'".toList).map (·.subject) = some (.starAs ['x']) := by
  decide

end Reexport
