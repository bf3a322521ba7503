import Reexport.Proofs.Runs
import Reexport.Proofs.StatementForms

/-!
# The items of an export list

The words `type` and `as` are marks in some places of an export list and names in others. Which of
the two they are is told by the number of words in an item alone: one word or three words, with `as`
in their middle, are a binding, and two words or four are the mark `type` and a binding.

The reader of an item tries the mark first and falls back on a name. Both ways are told apart by the
words as well, so what it finds is the only item that is written with these words.

## What is proved

* `spaced_tokens` — a text without blanks at its ends is its words with blanks between them.
* `binding?_eq_some_iff`, `marked?_eq_some_iff` — what the readers of the parts accept.
* `read?_trim_eq_some_iff` — a piece is read as an item exactly if its words are those of the item.
* `entries?_eq_iff` — hence the entries of a list, by a table of the words of its pieces.
-/

namespace Reexport

open Text

/-! ### The words of a text -/

namespace Text

/-- The texts between the blanks of a text, empty ones left out. -/
def tokens (cs : List Char) : List (List Char) :=
  (cs.splitOnP isBlank).filter (· ≠ [])

variable {b : Char} {t w cs : List Char} {ts : List (List Char)}

theorem tokens_append_cons (hb : isBlank b = true) (cs ds : List Char) :
    tokens (cs ++ b :: ds) = tokens cs ++ tokens ds := by
  rw [tokens, List.splitOnP_append_cons cs ds hb, List.filter_append]
  rfl

theorem tokens_append_blanks (hw : Blanks w) (cs : List Char) : tokens (cs ++ w) = tokens cs := by
  induction w generalizing cs with
  | nil => rw [List.append_nil]
  | cons b w ih =>
    rw [Blanks, List.forall_mem_cons] at hw
    have hnone : tokens w = [] := ih hw.2 []
    rw [tokens_append_cons hw.1, hnone, List.append_nil]

theorem tokens_blanks_append (hw : Blanks w) (cs : List Char) : tokens (w ++ cs) = tokens cs := by
  induction w with
  | nil => rfl
  | cons b w ih =>
    rw [Blanks, List.forall_mem_cons] at hw
    exact (tokens_append_cons hw.1 [] (w ++ cs)).trans (ih hw.2)

/-- A text that holds no blank and is not empty. -/
def IsToken (t : List Char) : Prop :=
  t ≠ [] ∧ ∀ c ∈ t, isBlank c = false

theorem IsWord.isToken (h : IsWord t) : IsToken t :=
  ⟨h.1, fun c hc => not_isBlank_of_isWordChar (h.2 c hc)⟩

theorem IsToken.tokens (h : IsToken t) : tokens t = [t] := by
  rw [Text.tokens, List.splitOnP_eq_singleton h.2]
  simp [h.1]

theorem IsToken.solid_append (h : IsToken t) (cs : List Char) : Solid (t ++ cs) := by
  obtain ⟨c, t, rfl⟩ := List.exists_cons_of_ne_nil h.1
  rw [List.cons_append, solid_cons_iff]
  exact h.2 c List.mem_cons_self

/-- Blanks between two words. -/
def Gap (w : List Char) : Prop :=
  w ≠ [] ∧ Blanks w

theorem tokens_gap_append (hw : Gap w) (cs ds : List Char) :
    tokens (cs ++ (w ++ ds)) = tokens cs ++ tokens ds := by
  obtain ⟨b, w, rfl⟩ := List.exists_cons_of_ne_nil hw.1
  have hblanks := hw.2
  rw [Blanks, List.forall_mem_cons] at hblanks
  rw [List.cons_append, tokens_append_cons hblanks.1, tokens_blanks_append hblanks.2]

/-- Tokens with blanks between each two of them. -/
inductive Spaced : List (List Char) → List Char → Prop where
  /-- No token. -/
  | nil : Spaced [] []
  /-- The last token. -/
  | last {t : List Char} (ht : IsToken t) : Spaced [t] t
  /-- A token before another one. -/
  | cons {t w cs : List Char} {next : List Char} {ts : List (List Char)} (ht : IsToken t)
      (hw : Gap w) (rest : Spaced (next :: ts) cs) : Spaced (t :: next :: ts) (t ++ (w ++ cs))

theorem Spaced.tokens (h : Spaced ts cs) : tokens cs = ts := by
  induction h with
  | nil => rfl
  | last ht => exact ht.tokens
  | cons ht hw _ ih =>
    rw [tokens_gap_append hw, ih, ht.tokens]
    rfl

theorem Spaced.exists_of_cons {next : List Char} (h : Spaced (t :: next :: ts) cs) :
    ∃ w rest, Gap w ∧ Spaced (next :: ts) rest ∧ cs = t ++ (w ++ rest) := by
  cases h with
  | cons _ hw hrest => exact ⟨_, _, hw, hrest, rfl⟩

theorem Solid.of_append {ds : List Char} (h : Solid (cs ++ ds)) : Solid cs := by
  intro c hc
  refine h c ?_
  rw [List.head?_append, hc]
  rfl

/-- The end of a text that does not end in a blank does not end in one either. -/
theorem Solid.of_reverse_append {ds : List Char} (h : Solid (cs ++ ds).reverse) :
    Solid ds.reverse := by
  rw [List.reverse_append] at h
  exact h.of_append

theorem not_solid_reverse_of_gap (hw : Gap w) : ¬ Solid w.reverse := by
  intro h
  cases hrev : w.reverse with
  | nil => exact hw.1 (List.reverse_eq_nil_iff.1 hrev)
  | cons c rest =>
    have hblank : isBlank c = true := hw.2 c (List.mem_reverse.1 (hrev ▸ List.mem_cons_self))
    rw [hrev, solid_cons_iff, hblank] at h
    cases h

/-- A text that does not begin with a blank begins with a token, and what stands behind the first
one is nothing or a gap before such a text. -/
theorem Solid.isToken_or_gap (h : Solid cs) (hne : cs ≠ []) :
    IsToken cs ∨ ∃ t w next, IsToken t ∧ Gap w ∧ Solid next ∧ cs = t ++ (w ++ next) := by
  have hsplit := List.takeWhile_append_dropWhile (p := (!isBlank ·)) (l := cs)
  have ht : IsToken (cs.takeWhile (!isBlank ·)) := by
    obtain ⟨c, ds, rfl⟩ := List.exists_cons_of_ne_nil hne
    refine ⟨by simp [solid_cons_iff.1 h], fun c hc => ?_⟩
    simpa using List.mem_takeWhile_imp hc
  cases hrest : cs.dropWhile (!isBlank ·) with
  | nil =>
    rw [hrest, List.append_nil] at hsplit
    exact .inl (hsplit ▸ ht)
  | cons b rest =>
    have hb : isBlank b = true := by
      have hhead := List.head?_dropWhile_not (!isBlank ·) cs
      rw [hrest] at hhead
      simpa using hhead
    obtain ⟨w, hw, hsolid, hcut⟩ := dropBlanks_eq_iff.1 (rfl : dropBlanks rest = dropBlanks rest)
    refine .inr ⟨_, b :: w, _, ht, ⟨by simp, List.forall_mem_cons.2 ⟨hb, hw⟩⟩, hsolid, ?_⟩
    rw [List.cons_append, ← hcut, ← hrest, hsplit]

/-- **A text without blanks at its ends** is its tokens with blanks between them. -/
theorem spaced_tokens (hfront : Solid cs) (hback : Solid cs.reverse) : Spaced (tokens cs) cs := by
  induction hlength : cs.length using Nat.strong_induction_on generalizing cs with
  | _ n ih =>
    by_cases hnil : cs = []
    · subst hnil
      exact .nil
    obtain ht | ⟨t, w, next, ht, hw, hsolid, rfl⟩ := hfront.isToken_or_gap hnil
    · rw [ht.tokens]
      exact .last ht
    have hbehind : Solid (w ++ next).reverse := hback.of_reverse_append
    have hspaced : Spaced (tokens next) next := by
      have := List.length_pos_iff.2 ht.1
      simp only [List.length_append] at hlength
      exact ih next.length (by omega) hsolid hbehind.of_reverse_append rfl
    rw [tokens_gap_append hw, ht.tokens]
    cases hnext : tokens next with
    | cons s ts =>
      rw [hnext] at hspaced
      exact .cons ht hw hspaced
    | nil =>
      -- Without a token behind them, the blanks would end the text.
      rw [hnext] at hspaced
      cases hspaced
      rw [List.append_nil] at hbehind
      exact absurd hbehind (not_solid_reverse_of_gap hw)

/-- What is left of a text without the blanks at its ends has the tokens of the text. -/
theorem spaced_trim (cs : List Char) : Spaced (tokens cs) (trim cs) := by
  obtain ⟨v, hv, hsolid, hcs⟩ := dropBlanks_eq_iff.1 (rfl : dropBlanks cs = dropBlanks cs)
  obtain ⟨w, hw, hback, hend⟩ :=
    dropBlanks_eq_iff.1
      (rfl : dropBlanks (dropBlanks cs).reverse = dropBlanks (dropBlanks cs).reverse)
  have htrim : dropBlanks (dropBlanks cs).reverse = (trim cs).reverse := by
    rw [trim, dropBlanksEnd, List.reverse_reverse]
    rfl
  rw [htrim] at hback hend
  have hends : dropBlanks cs = trim cs ++ w.reverse := by
    rw [← List.reverse_inj, hend, List.reverse_append, List.reverse_reverse]
  rw [hends] at hcs hsolid
  have hblanks : Blanks w.reverse := fun c hc => hw c (List.mem_reverse.1 hc)
  have htokens : tokens cs = tokens (trim cs) :=
    calc tokens cs = tokens (v ++ (trim cs ++ w.reverse)) := congrArg tokens hcs
      _ = tokens (trim cs ++ w.reverse) := tokens_blanks_append hv _
      _ = tokens (trim cs) := tokens_append_blanks hblanks _
  rw [htokens]
  exact spaced_tokens hsolid.of_append hback

end Text

/-! ### Readers of items -/

namespace Item

variable {cs : List Char} {item : Item} {isTypeOnly : Bool}

/-- The tokens with which a name is written, with its alias if it has one. -/
def nameTokens (item : Item) : List (List Char) :=
  item.name.toList :: match item.asName with
    | some asName => ["as".toList, asName.toList]
    | none => []

/-- The tokens with which an item is written. -/
def tokens (item : Item) : List (List Char) :=
  if item.isTypeOnly then "type".toList :: item.nameTokens else item.nameTokens

/-- How the part of an item behind its name is written. -/
def AliasForm (asName : Option String) (cs : List Char) : Prop :=
  match asName with
  | none => cs = []
  | some a => IsWord a.toList ∧ ∃ w v, Gap w ∧ Gap v ∧ cs = w ++ ("as".toList ++ (v ++ a.toList))

/-- How a name with an alias or without is written. -/
structure BindingForm (isTypeOnly : Bool) (item : Item) (cs : List Char) : Prop where
  /-- The mark. -/
  mark : item.isTypeOnly = isTypeOnly
  /-- The name is a word. -/
  word : IsWord item.name.toList
  /-- An alias may follow it. -/
  form : ∃ rest, AliasForm item.asName rest ∧ cs = item.name.toList ++ rest

theorem dropBlanks1?_gap_append {w rest : List Char} (hw : Gap w) (hrest : Solid rest) :
    dropBlanks1? (w ++ rest) = some rest :=
  dropBlanks1?_eq_some_iff.2 ⟨w, hw.1, hw.2, hrest, rfl⟩

theorem solid_word_append {w : List Char} (h : IsWord w) (rest : List Char) : Solid (w ++ rest) :=
  h.isToken.solid_append rest

/-- A gap ends a word. -/
theorem spanWord_gap {word w : List Char} (h : IsWord word) (hw : Gap w) (rest : List Char) :
    spanWord (word ++ (w ++ rest)) = (word, w ++ rest) := by
  obtain ⟨b, w, rfl⟩ := List.exists_cons_of_ne_nil hw.1
  exact spanWord_append_cons h.2 (Statement.not_isWordChar_of_isBlank (hw.2 b List.mem_cons_self)) _

theorem bindingForm_of_binding? (h : binding? isTypeOnly cs = some item) :
    BindingForm isTypeOnly item cs := by
  unfold binding? at h
  split at h
  · cases h
  rename_i c name rest hspan
  have hword : IsWord (c :: name) := isWord_of_spanWord hspan (List.cons_ne_nil c name)
  have hcs : cs = c :: name ++ rest := by
    rw [← spanWord_append cs, hspan]
  simp only at h
  split at h
  · rename_i hrest
    obtain rfl := Option.some.inj h
    refine ⟨rfl, by simpa using hword, [], rfl, ?_⟩
    rw [hcs, List.isEmpty_iff.1 hrest, String.toList_ofList]
  · obtain ⟨cs₁, h₁, hafter⟩ := Option.bind_eq_some_iff.1 h
    obtain ⟨cs₂, h₂, hbehind⟩ := Option.bind_eq_some_iff.1 hafter
    obtain ⟨cs₃, h₃, hlast⟩ := Option.bind_eq_some_iff.1 hbehind
    clear h hafter hbehind
    obtain ⟨w, hwne, hw, -, rfl⟩ := dropBlanks1?_eq_some_iff.1 h₁
    obtain rfl := dropText?_eq_some_iff.1 h₂
    obtain ⟨v, hvne, hv, -, rfl⟩ := dropBlanks1?_eq_some_iff.1 h₃
    split at hlast
    · rename_i a ha
      split at hlast
      · cases hlast
      · rename_i hne
        obtain rfl := Option.some.inj hlast
        have hcs₃ : cs₃ = a := by
          rw [← spanWord_append cs₃, ha, List.append_nil]
        have haword : IsWord a := isWord_of_spanWord ha (by simpa using hne)
        refine ⟨rfl, by simpa using hword, _,
          ⟨by simpa using haword, w, v, ⟨hwne, hw⟩, ⟨hvne, hv⟩, rfl⟩, ?_⟩
        simp only [hcs, hcs₃, String.toList_ofList]
    · cases hlast

theorem binding?_of_bindingForm (h : BindingForm isTypeOnly item cs) :
    binding? isTypeOnly cs = some item := by
  obtain ⟨hmark, hword, rest, hform, rfl⟩ := h
  cases has : item.asName with
  | none =>
    rw [has] at hform
    obtain ⟨found, hfound, hname, hnone, htype⟩ := binding?_name hword isTypeOnly
    rw [show rest = [] from hform, List.append_nil, hfound]
    exact congrArg some (Item.ext (by rw [hname, String.ofList_toList]) (by rw [hnone, has])
      (by rw [htype, hmark]))
  | some a =>
    rw [has] at hform
    obtain ⟨ha, w, v, hw, hv, rfl⟩ := hform
    have hspan := spanWord_gap hword hw ("as".toList ++ (v ++ a.toList))
    have has' : dropBlanks1? (w ++ ("as".toList ++ (v ++ a.toList))) =
        some ("as".toList ++ (v ++ a.toList)) :=
      dropBlanks1?_gap_append hw (solid_word_append (by decide) _)
    have hlast : dropBlanks1? (v ++ a.toList) = some a.toList := by
      have hsolid := solid_word_append ha []
      rw [List.append_nil] at hsolid
      exact dropBlanks1?_gap_append hv hsolid
    have hne : a.toList.isEmpty = false := by simp [ha.1]
    have hrest : (w ++ ("as".toList ++ (v ++ a.toList))).isEmpty = false := by simp [hw.1]
    obtain ⟨c, name, hcons, -⟩ := hword.exists_cons
    rw [hcons] at hspan ⊢
    rw [binding?, hspan]
    simp only [hrest, has', dropText?_eq_some_iff.2 rfl, hlast, spanWord_word ha.2, hne,
      Option.bind_eq_bind, Option.bind_some, Bool.false_eq_true, if_false]
    have hname : String.ofList (c :: name) = item.name := by rw [← hcons, String.ofList_toList]
    exact congrArg some (Item.ext hname (by rw [has, String.ofList_toList]) hmark.symm)

/-- The reader of a name accepts the forms of one, with an alias or without. -/
theorem binding?_eq_some_iff :
    binding? isTypeOnly cs = some item ↔ BindingForm isTypeOnly item cs :=
  ⟨bindingForm_of_binding?, binding?_of_bindingForm⟩

/-- The reader of a marked name accepts such forms behind the word `type`. -/
theorem marked?_eq_some_iff : marked? cs = some item ↔
    ∃ w rest, Gap w ∧ BindingForm true item rest ∧ cs = "type".toList ++ (w ++ rest) := by
  constructor
  · intro h
    obtain ⟨cs₁, h₁, hafter⟩ := Option.bind_eq_some_iff.1 h
    obtain ⟨cs₂, h₂, hbinding⟩ := Option.bind_eq_some_iff.1 hafter
    obtain rfl := dropText?_eq_some_iff.1 h₁
    obtain ⟨w, hne, hw, -, rfl⟩ := dropBlanks1?_eq_some_iff.1 h₂
    exact ⟨w, cs₂, ⟨hne, hw⟩, binding?_eq_some_iff.1 hbinding, rfl⟩
  · rintro ⟨w, rest, hw, hform, rfl⟩
    have hsolid : Solid rest := by
      obtain ⟨tail, -, rfl⟩ := hform.form
      exact solid_word_append hform.word tail
    rw [marked?, dropText?_eq_some_iff.2 rfl, Option.bind_eq_bind, Option.bind_some,
      dropBlanks1?_gap_append hw hsolid, Option.bind_some]
    exact binding?_eq_some_iff.2 hform

/-! ### Items by their tokens -/

/-- What is written has the tokens of the item, and all of them are words. -/
theorem BindingForm.tokens_eq (h : BindingForm isTypeOnly item cs) :
    Text.tokens cs = item.nameTokens ∧ ∀ t ∈ item.nameTokens, IsWord t := by
  obtain ⟨-, hword, rest, hform, rfl⟩ := h
  rw [nameTokens]
  cases has : item.asName with
  | none =>
    rw [has] at hform
    obtain rfl : rest = [] := hform
    rw [List.append_nil, hword.isToken.tokens]
    exact ⟨rfl, List.forall_mem_cons.2 ⟨hword, nofun⟩⟩
  | some a =>
    rw [has] at hform
    obtain ⟨ha, w, v, hw, hv, rfl⟩ := hform
    have hmark : IsWord "as".toList := by decide
    rw [tokens_gap_append hw, tokens_gap_append hv, hword.isToken.tokens, hmark.isToken.tokens,
      ha.isToken.tokens]
    exact ⟨rfl, List.forall_mem_cons.2 ⟨hword, List.forall_mem_cons.2 ⟨hmark,
      List.forall_mem_cons.2 ⟨ha, nofun⟩⟩⟩⟩

/-- The tokens of an item, with blanks between them, are how it is written. -/
theorem bindingForm_of_spaced (h : Spaced item.nameTokens cs)
    (hwords : ∀ t ∈ item.nameTokens, IsWord t) : BindingForm item.isTypeOnly item cs := by
  rw [nameTokens] at h hwords
  rw [List.forall_mem_cons] at hwords
  refine ⟨rfl, hwords.1, ?_⟩
  cases has : item.asName with
  | none =>
    rw [has] at h
    cases h
    exact ⟨[], rfl, (List.append_nil _).symm⟩
  | some a =>
    rw [has] at h hwords
    have ha : IsWord a.toList := hwords.2 _ (by simp)
    obtain ⟨w, rest, hw, hrest, hcs⟩ := h.exists_of_cons
    obtain ⟨v, last, hv, hlast, rfl⟩ := hrest.exists_of_cons
    obtain ⟨-⟩ := hlast
    exact ⟨_, ⟨ha, w, v, hw, hv, rfl⟩, hcs⟩

theorem length_nameTokens (item : Item) :
    item.nameTokens.length = 1 ∨ item.nameTokens.length = 3 := by
  rw [nameTokens]
  cases item.asName
  · exact .inl rfl
  · exact .inr rfl

theorem read?_eq (cs : List Char) : read? cs = (marked? cs).or (binding? false cs) := by
  rw [read?]
  cases marked? cs <;> rfl

/-- A marked name has the tokens of an item that is marked as a type. -/
theorem tokens_of_marked? (h : marked? cs = some item) : item.isTypeOnly = true ∧
    Text.tokens cs = "type".toList :: item.nameTokens ∧ ∀ t ∈ item.nameTokens, IsWord t := by
  obtain ⟨w, rest, hw, hform, rfl⟩ := marked?_eq_some_iff.1 h
  obtain ⟨htokens, hwords⟩ := hform.tokens_eq
  have hmark : IsWord "type".toList := by decide
  refine ⟨hform.mark, ?_, hwords⟩
  rw [tokens_gap_append hw, htokens, hmark.isToken.tokens]
  rfl

/-- The mark is told from a name by the number of the tokens. -/
theorem marked?_eq_none_of_tokens (h : Text.tokens cs = item.nameTokens) : marked? cs = none := by
  rw [Option.eq_none_iff_forall_ne_some]
  intro other hother
  obtain ⟨-, hmarked, -⟩ := tokens_of_marked? hother
  have hlength := congrArg List.length (hmarked.symm.trans h)
  have hitem := item.length_nameTokens
  have hother := other.length_nameTokens
  rw [List.length_cons] at hlength
  omega

/-- **A piece of a list is read as an item** exactly if its tokens are those with which the item is
written, and words. Two items are never written with the same tokens. -/
theorem read?_trim_eq_some_iff : read? (trim cs) = some item ↔
    Text.tokens cs = item.tokens ∧ ∀ t ∈ Text.tokens cs, IsWord t := by
  have hspaced := spaced_trim cs
  have htrim := hspaced.tokens
  rw [read?_eq, Option.or_eq_some_iff]
  constructor
  · rintro (h | ⟨-, h⟩)
    · obtain ⟨htype, htokens, hwords⟩ := tokens_of_marked? h
      rw [← htrim, htokens, tokens, if_pos htype]
      exact ⟨rfl, List.forall_mem_cons.2 ⟨by decide, hwords⟩⟩
    · have hform := binding?_eq_some_iff.1 h
      obtain ⟨htokens, hwords⟩ := hform.tokens_eq
      rw [← htrim, htokens, tokens, if_neg (by simp [hform.mark])]
      exact ⟨rfl, hwords⟩
  · rintro ⟨htokens, hwords⟩
    rw [htokens] at hspaced hwords htrim
    cases htype : item.isTypeOnly with
    | true =>
      rw [tokens, htype, if_pos rfl] at hspaced hwords
      rw [List.forall_mem_cons] at hwords
      obtain ⟨w, rest, hw, hrest, hcs⟩ := hspaced.exists_of_cons
      exact .inl (marked?_eq_some_iff.2
        ⟨w, rest, hw, htype ▸ bindingForm_of_spaced hrest hwords.2, hcs⟩)
    | false =>
      rw [tokens, htype, if_neg Bool.false_ne_true] at hspaced hwords htrim
      exact .inr ⟨marked?_eq_none_of_tokens htrim,
        binding?_eq_some_iff.2 (htype ▸ bindingForm_of_spaced hspaced hwords)⟩

/-! ### Drafts -/

/-- The draft of the entry of an item. An alias that repeats the name is dropped. -/
def draft (item : Item) (source : String) (isTypeOnly : Bool) (line : Int) : Entry.Draft where
  specifier := item.name
  source := source
  kind := item.kind
  asName := if item.asName = some item.name then none else item.asName
  isTypeOnly := isTypeOnly || item.isTypeOnly
  originLine := line

/-- The entries of the text of a list, for any source and line. -/
def entries? (items : List Char) (source : String) (isTypeOnly : Bool) (line : Int) :
    Except Entry.Fault (List Entry) :=
  (readList items).mapM fun item => (item.draft source isTypeOnly line).check

end Item

/-- An entry as a draft. -/
def Entry.draft (e : Entry) : Entry.Draft :=
  ⟨e.specifier, e.source, e.kind, e.asName, e.isTypeOnly, e.originLine⟩

/-- What the words of an item say: its name, its alias, and whether it is marked as a type. -/
def ofWords? (words : List String) : Option (String × Option String × Bool) :=
  if words.all fun word => word.toList.all isWordChar then
    match words with
    | [name] => some (name, none, false)
    | ["type", name] => some (name, none, true)
    | [name, "as", asName] => some (name, some asName, false)
    | ["type", name, "as", asName] => some (name, some asName, true)
    | _ => none
  else none

/-- The drafts of the entries of a list, by the words of its pieces. -/
def draftsOf (items : List Char) (source : String) (isTypeOnly : Bool) (line : Int) :
    List Entry.Draft :=
  (split ',' items).filterMap fun piece =>
    (ofWords? ((tokens piece).map String.ofList)).map fun (name, asName, isMarked) =>
      { specifier := name
        source := source
        kind := if name = "default" then .default else .named
        asName := if asName = some name then none else asName
        isTypeOnly := isTypeOnly || isMarked
        originLine := line }

/-- What a list with an item is refused for, where it is refused. -/
def listFault (source : String) : Entry.Fault :=
  if source = "" then .emptySource else .negativeLine

namespace Entry

variable {d : Draft} {e : Entry}

theorem check_draft (e : Entry) : e.draft.check = .ok e := by
  have hspecifier : ¬e.draft.specifier = "" := e.specifier_ne_empty
  have hsource : ¬e.draft.source = "" := e.source_ne_empty
  have hkind : ¬(e.draft.kind = .star ∧ e.draft.specifier ≠ starSpecifier) :=
    fun h => h.2 (e.specifier_of_star h.1)
  have hline : ¬e.draft.originLine < 0 := Int.not_lt.2 (Int.natCast_nonneg e.originLine)
  rw [Draft.check, dif_neg hspecifier, dif_neg hsource, dif_neg hkind, if_neg hline]
  rfl

theorem check_eq_ok_iff : d.check = .ok e ↔ e.draft = d := by
  refine ⟨fun h => ?_, fun h => h ▸ e.check_draft⟩
  unfold Draft.check at h
  split at h
  · cases h
  split at h
  · cases h
  split at h
  · cases h
  split at h
  · cases h
  · rename_i hline
    obtain rfl := Except.ok.inj h
    have hcast : (d.originLine.toNat : Int) = d.originLine := by omega
    rw [draft, hcast]

end Entry

namespace Item

/-! ### The table -/

/-- The words with which an item is written, as texts. -/
def words (item : Item) : List String :=
  item.tokens.map String.ofList

theorem words_eq (item : Item) : item.words =
    (if item.isTypeOnly then ["type"] else []) ++ item.name ::
      match item.asName with
      | some asName => ["as", asName]
      | none => [] := by
  obtain ⟨name, asName, isTypeOnly, hne⟩ := item
  cases isTypeOnly <;> cases asName <;> simp [words, tokens, nameTokens]

/-- What the table says of words is what an item says that is written with them. -/
theorem ofWords?_eq_some_iff {texts : List String} {name : String} {asName : Option String}
    {isMarked : Bool} (hne : name ≠ "") : ofWords? texts = some (name, asName, isMarked) ↔
      texts = (⟨name, asName, isMarked, hne⟩ : Item).words ∧
        ∀ text ∈ texts, ∀ c ∈ text.toList, isWordChar c = true := by
  have hall : (texts.all fun text => text.toList.all isWordChar) = true ↔
      ∀ text ∈ texts, ∀ c ∈ text.toList, isWordChar c = true := by
    simp
  rw [words_eq]
  unfold ofWords?
  constructor
  · intro h
    split at h
    · rename_i hwords
      refine ⟨?_, hall.1 hwords⟩
      split at h
      all_goals cases h
      all_goals rfl
    · cases h
  · rintro ⟨rfl, hwords⟩
    rw [if_pos (hall.2 hwords)]
    cases isMarked <;> cases asName <;> rfl

theorem mem_of_ofWords? {texts : List String} {name : String} {asName : Option String}
    {isMarked : Bool} (h : ofWords? texts = some (name, asName, isMarked)) : name ∈ texts := by
  unfold ofWords? at h
  split at h
  · split at h
    all_goals cases h
    all_goals simp
  · cases h

/-- A piece is read as an item exactly if the table says so of its words. -/
theorem read?_trim_eq_some_iff_ofWords? : read? (trim cs) = some item ↔
    ofWords? ((Text.tokens cs).map String.ofList) =
      some (item.name, item.asName, item.isTypeOnly) := by
  have hwords : (∀ text ∈ (Text.tokens cs).map String.ofList, ∀ c ∈ text.toList,
      isWordChar c = true) ↔ ∀ t ∈ Text.tokens cs, IsWord t := by
    rw [List.forall_mem_map]
    refine forall₂_congr fun t ht => ?_
    have hne : t ≠ [] := by simpa using (List.mem_filter.1 ht).2
    rw [String.toList_ofList]
    exact ⟨fun h => ⟨hne, h⟩, fun h => h.2⟩
  have hinj : Function.Injective String.ofList := fun _ _ => String.ofList_inj.1
  rw [read?_trim_eq_some_iff, ofWords?_eq_some_iff item.name_ne_empty, hwords, words,
    (List.map_injective_iff.2 hinj).eq_iff]

/-- The items of a list, by the table. -/
theorem map_draft_readList (items : List Char) (source : String) (isTypeOnly : Bool) (line : Int) :
    (readList items).map (·.draft source isTypeOnly line) =
      draftsOf items source isTypeOnly line := by
  rw [readList, draftsOf, List.map_filterMap]
  refine List.filterMap_congr fun piece _ => ?_
  cases hrow : ofWords? ((Text.tokens piece).map String.ofList) with
  | none =>
    have hnone : read? (trim piece) = none := by
      rw [Option.eq_none_iff_forall_ne_some]
      intro item hitem
      rw [read?_trim_eq_some_iff_ofWords?, hrow] at hitem
      cases hitem
    rw [hnone]
    rfl
  | some row =>
    obtain ⟨name, asName, isMarked⟩ := row
    have hne : name ≠ "" := by
      obtain ⟨t, ht, rfl⟩ := List.mem_map.1 (mem_of_ofWords? hrow)
      simpa using (List.mem_filter.1 ht).2
    have hitem : read? (trim piece) = some ⟨name, asName, isMarked, hne⟩ :=
      read?_trim_eq_some_iff_ofWords?.2 hrow
    rw [hitem]
    rfl

/-! ### Entries of a list -/

section Entries

variable {items : List Char} {source : String} {flag : Bool} {line : Int} {es : List Entry}

/-- The drafts of items are refused for their source or line alone. -/
theorem check_draft (item : Item) (source : String) (isTypeOnly : Bool) (line : Int) :
    (∃ e, (item.draft source isTypeOnly line).check = .ok e) ∧ source ≠ "" ∧ 0 ≤ line ∨
      (item.draft source isTypeOnly line).check = .error (listFault source) ∧
        (source = "" ∨ line < 0) := by
  have hspecifier : ¬(item.draft source isTypeOnly line).specifier = "" := item.name_ne_empty
  have hkind : ¬((item.draft source isTypeOnly line).kind = .star ∧
      (item.draft source isTypeOnly line).specifier ≠ starSpecifier) :=
    fun h => item.kind_ne_star h.1
  rw [Entry.Draft.check, dif_neg hspecifier]
  by_cases hsource : source = ""
  · exact .inr ⟨by rw [dif_pos (show (item.draft source isTypeOnly line).source = "" from hsource),
      listFault, if_pos hsource], .inl hsource⟩
  · rw [dif_neg (show ¬(item.draft source isTypeOnly line).source = "" from hsource), dif_neg hkind]
    by_cases hline : line < 0
    · exact .inr ⟨by rw [if_pos (show (item.draft source isTypeOnly line).originLine < 0 from hline),
        listFault, if_neg hsource], .inr hline⟩
    · rw [if_neg (show ¬(item.draft source isTypeOnly line).originLine < 0 from hline)]
      exact .inl ⟨⟨_, rfl⟩, hsource, Int.not_lt.1 hline⟩

/-- The entries of a list, if there are any, are entries of the drafts. -/
theorem entries?_eq_ok_iff : entries? items source flag line = .ok es ↔
    es.map Entry.draft = draftsOf items source flag line := by
  rw [entries?, mapM_eq_ok_iff, ← map_draft_readList]
  simp only [Entry.check_eq_ok_iff]
  rw [← List.forall₂_eq_eq_eq, List.forall₂_map_left_iff, List.forall₂_map_right_iff]
  exact ⟨List.Forall₂.flip, List.Forall₂.flip⟩

/-- A list is refused with its first item. -/
theorem entries?_eq_error_iff {fault : Entry.Fault} :
    entries? items source flag line = .error fault ↔
      draftsOf items source flag line ≠ [] ∧ (source = "" ∨ line < 0) ∧
        fault = listFault source := by
  rw [entries?, ← map_draft_readList]
  cases readList items with
  | nil => simp [pure, Except.pure]
  | cons item rest =>
    rw [List.mapM_cons]
    obtain ⟨⟨e, he⟩, hsource, hline⟩ | ⟨herror, hwrong⟩ := item.check_draft source flag line
    · have hgood : ¬(source = "" ∨ line < 0) := by
        rintro (h | h)
        · exact hsource h
        · omega
      obtain ⟨es, hes⟩ : ∃ es, (rest.mapM fun item => (item.draft source flag line).check) =
          .ok es := by
        simp only [mapM_eq_ok_iff]
        induction rest with
        | nil => exact ⟨[], .nil⟩
        | cons item rest ih =>
          obtain ⟨es, hes⟩ := ih
          obtain ⟨⟨e, he⟩, -⟩ | ⟨-, hwrong⟩ := item.check_draft source flag line
          · exact ⟨e :: es, .cons he hes⟩
          · exact absurd hwrong hgood
      rw [he, hes]
      exact iff_of_false nofun fun h => hgood h.2.1
    · rw [herror]
      refine ⟨fun h => ⟨by simp, hwrong, (Except.error.inj h).symm⟩, ?_⟩
      rintro ⟨-, -, rfl⟩
      rfl

end Entries

end Item

open Statement

/-- Where a line begins with a list, the entries of the line are those of the text of the list. -/
theorem lineEntries?_of_begins {cs items : List Char} {r : Reading} (line : Int)
    (h : r.Begins (trim cs)) (hitems : r.subject = .list items) :
    lineEntries? cs line = Item.entries? items r.source r.isTypeOnly line := by
  have hentries : lineEntries cs line.toNat =
      (Item.readList items).map (r.statement.itemEntry line.toNat) := by
    rw [lineEntries_eq, begins_iff.1 h, Option.elim_some, Reading.entries, hitems]
  have hdraft (item : Item) (hline : 0 ≤ line) :
      (r.statement.itemEntry line.toNat item).draft = item.draft r.source r.isTypeOnly line := by
    have hcast : ((line.toNat : Nat) : Int) = line := Int.toNat_of_nonneg hline
    rw [Entry.draft, Item.draft]
    exact congrArg (Entry.Draft.mk _ _ _ _ _) hcast
  rw [lineEntries?, hentries]
  split
  · rename_i hrefused
    symm
    rw [Item.entries?_eq_error_iff]
    refine ⟨?_, .inr hrefused.1, ?_⟩
    · rw [← Item.map_draft_readList]
      simpa using hrefused.2
    · rw [listFault, if_neg r.source_ne_empty]
  · rename_i hkept
    symm
    rw [Item.entries?_eq_ok_iff, ← Item.map_draft_readList, List.map_map]
    refine List.map_congr_left fun item hitem => hdraft item ?_
    rw [not_and_not_right] at hkept
    by_contra hline
    have hnone := hkept (by omega)
    rw [List.map_eq_nil_iff] at hnone
    rw [hnone] at hitem
    cases hitem

/-- **The items of a list by the table of their words.** For every text of a list, every source,
flag and line, the entries are those of the drafts that the table gives for the pieces of the list,
in their order; and the entries of a line that begins with a list are found this way. Nothing is
refused but an item for an empty source or for a line below zero. -/
theorem Item.entries?_eq_iff (items : List Char) (source : String) (isTypeOnly : Bool)
    (line : Int) :
    (∀ es, entries? items source isTypeOnly line = .ok es ↔
        es.map Entry.draft = draftsOf items source isTypeOnly line) ∧
      (∀ fault, entries? items source isTypeOnly line = .error fault ↔
        draftsOf items source isTypeOnly line ≠ [] ∧ (source = "" ∨ line < 0) ∧
          fault = listFault source) ∧
      ∀ (h : source ≠ "") (cs : List Char),
        Reading.Begins ⟨isTypeOnly, .list items, source, h⟩ (trim cs) →
          lineEntries? cs line = entries? items source isTypeOnly line := by
  refine ⟨fun es => entries?_eq_ok_iff, fun fault => entries?_eq_error_iff, ?_⟩
  intro h cs hbegins
  exact lineEntries?_of_begins line hbegins rfl

/-- A line whose items have the words `type` and `as` for marks and for names. -/
theorem Item.entries?_eq_iff_marks :
    Reading.Begins ⟨false, .list "type as, type as as, as as as".toList, "./a", by decide⟩
        (trim "export {type as, type as as, as as as} from \"./a\"".toList) ∧
      lineEntries? "export {type as, type as as, as as as} from \"./a\"".toList 2 =
        entries? "type as, type as as, as as as".toList "./a" false 2 := by
  have hbegins : Reading.Begins
      ⟨false, .list "type as, type as as, as as as".toList, "./a", by decide⟩
      (trim "export {type as, type as as, as as as} from \"./a\"".toList) := by
    rw [begins_iff]
    rfl
  exact ⟨hbegins, (entries?_eq_iff _ "./a" false 2).2.2 _ _ hbegins⟩

/-- Marks and names told apart by the number of words. -/
example : draftsOf "type as, type as as, as as as, type as as x, b c".toList "./a" false 2 =
    [{ specifier := "as", source := "./a", kind := .named, isTypeOnly := true, originLine := 2 },
      { specifier := "type", source := "./a", kind := .named, asName := "as", originLine := 2 },
      { specifier := "as", source := "./a", kind := .named, originLine := 2 },
      { specifier := "as", source := "./a", kind := .named, asName := "x", isTypeOnly := true,
        originLine := 2 }] := by
  decide

/-- An item on a line below zero is refused, although the table gives a draft for it. -/
theorem Item.entries?_below_zero :
    draftsOf " a ".toList "./a" false (-1) =
        [{ specifier := "a", source := "./a", kind := .named, originLine := -1 }] ∧
      entries? " a ".toList "./a" false (-1) = .error .negativeLine ∧
      lineEntries? "export { a } from \"./a\"".toList (-1) = .error .negativeLine :=
  ⟨by decide, rfl, rfl⟩

end Reexport
