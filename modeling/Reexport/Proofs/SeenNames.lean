import Mathlib.Data.List.DropRight
import Reexport.Proofs.ExportForms

/-!
# Names as they are seen

A scan takes the names of an export statement from the text and drops the quotes at their ends. A name
that is a word begins like one, so that something is left of it, and without escapes in it there are no
quotes to drop. A text between quotes may hold more of them, and nothing else.

## What is proved

* `ExportForm.seen_of_isPlain` — of a plain form, a scan sees the names that the form offers.
* `ExportForm.exists_empty_iff` — a name without text is seen in an item of a list only, and only if
  nothing but quotes stands between its quotes.
-/

namespace Reexport.Script

open Cursor

/-! ### Quotes at the ends -/

theorem stripQuotes_eq (s : String) : stripQuotes s =
    String.ofList ((s.toList.dropWhile Statement.isQuote).rdropWhile Statement.isQuote) :=
  rfl

theorem stripQuotes_eq_self {s : String} (hfirst : s.toList.head?.all (!Statement.isQuote ·))
    (hlast : s.toList.getLast?.all (!Statement.isQuote ·)) : stripQuotes s = s := by
  have hfront : s.toList.dropWhile Statement.isQuote = s.toList := by
    cases hlist : s.toList with
    | nil => rfl
    | cons ch cs => exact List.dropWhile_cons_of_neg (by simpa [hlist] using hfirst)
  have hback : s.toList.rdropWhile Statement.isQuote = s.toList := by
    rw [List.rdropWhile_eq_self_iff]
    intro hne
    simpa [List.getLast?_eq_some_getLast hne] using hlast
  rw [stripQuotes_eq, hfront, hback, String.ofList_toList]

theorem stripQuotes_eq_empty_iff {s : String} :
    stripQuotes s = "" ↔ ∀ ch ∈ s.toList, Statement.isQuote ch = true := by
  rw [stripQuotes_eq, String.ofList_eq_empty_iff, List.rdropWhile_eq_nil_iff,
    ← List.dropWhile_eq_nil_iff, List.dropWhile_idempotent, List.dropWhile_eq_nil_iff]

/-- Quotes around a text are dropped with those at its ends. -/
theorem stripQuotes_written {quote : Char} (hquote : Statement.isQuote quote = true) (text : String) :
    stripQuotes (ExportName.quoted quote text).written = stripQuotes text := by
  rw [stripQuotes_eq, stripQuotes_eq, ExportName.written, String.toList_ofList,
    List.dropWhile_cons_of_pos hquote, List.dropWhile_append]
  cases hrest : text.toList.dropWhile Statement.isQuote with
  | nil => simp [hquote]
  | cons ch cs => exact congrArg String.ofList (List.rdropWhile_concat_pos _ (ch :: cs) quote hquote)

/-! ### Identifiers -/

/-- A word as it is read: it begins like a word, and all of it are characters of names unless there
are escapes in it. -/
structure IsIdentifier (word : String) : Prop where
  opens : ∃ ch cs, word.toList = ch :: cs ∧ opensWord ch = true
  chars : '\\' ∉ word.toList → ∀ ch ∈ word.toList, isNameChar ch = true

theorem isNameChar_of_mem_spanName (cs : List Char) (hescape : '\\' ∉ (spanName false cs).1) :
    ∀ ch ∈ (spanName false cs).1, isNameChar ch = true := by
  generalize hbraced : false = braced at hescape ⊢
  fun_induction spanName braced cs with
  | case1 => simp
  | case2 => cases hbraced
  | case3 | case4 => simp [push] at hescape
  | case5 c cs hshort hlong hname ih =>
    have hcons : (push [c] (spanName false cs)).1 = c :: (spanName false cs).1 := rfl
    rw [hcons, List.mem_cons, not_or] at hescape
    rw [hcons, List.forall_mem_cons]
    exact ⟨hname, ih rfl hescape.2⟩
  | case6 => simp

variable {c d e : Cursor} {word : String}

theorem isIdentifier_of_anyWord? (h : c.anyWord? = some (word, d)) (hword : word ≠ "") :
    IsIdentifier word := by
  obtain ⟨hrest, ch, hnext, hch⟩ := rest_of_anyWord? h
  obtain ⟨first, cs, hlist⟩ := List.exists_cons_of_ne_nil (mt String.toList_eq_nil_iff.1 hword)
  refine ⟨⟨first, cs, hlist, ?_⟩, fun hescape => ?_⟩
  · simp only [next?, hrest, hlist, List.cons_append, List.head?_cons, Option.some.injEq] at hnext
    rwa [hnext]
  · rw [toList_of_anyWord? h] at hescape ⊢
    exact isNameChar_of_mem_spanName _ hescape

theorem isIdentifier_of_pastName? (h : pastName? word c = some d) : IsIdentifier word := by
  obtain ⟨hbindable, hfound⟩ := pastName?_eq_some_iff.mp h
  refine isIdentifier_of_anyWord? hfound ?_
  rintro rfl
  simp [bindable] at hbindable

/-- Where a word is at the front, a text is left without the quotes. -/
theorem IsIdentifier.stripQuotes_append_ne (h : IsIdentifier word) (more : String) :
    stripQuotes (word ++ more) ≠ "" := by
  obtain ⟨ch, cs, hlist, hch⟩ := h.opens
  rw [Ne, stripQuotes_eq_empty_iff]
  intro hall
  obtain rfl | rfl := Statement.isQuote_iff.1 (hall ch (by simp [hlist])) <;> exact absurd hch (by decide)

theorem IsIdentifier.stripQuotes_ne (h : IsIdentifier word) : stripQuotes word ≠ "" := by
  have hseen := h.stripQuotes_append_ne ""
  rwa [String.append_empty] at hseen

/-- A word without escapes has no quotes at its ends. -/
theorem IsIdentifier.stripQuotes_eq_self (h : IsIdentifier word) (hescape : '\\' ∉ word.toList) :
    stripQuotes word = word := by
  have hall (ch : Char) (hch : ch ∈ word.toList) : (!Statement.isQuote ch) = true := by
    have hname := h.chars hescape ch hch
    rw [Bool.not_eq_true', ← Bool.not_eq_true, Statement.isQuote_iff]
    rintro (rfl | rfl) <;> exact absurd hname (by decide)
  refine Script.stripQuotes_eq_self ?_ ?_ <;> rw [Option.all_eq_true] <;> intro ch hch
  · exact hall ch (List.mem_of_head? hch)
  · exact hall ch (List.mem_of_getLast? hch)

section Bound

variable {read : Reader}

theorem Properties.occurrences_eq_nil {ps : Properties} (h : ps.isNil = true) :
    ps.occurrences = [] := by
  cases ps <;> first | rfl | cases h

theorem Elements.occurrences_eq_nil {es : Elements} (h : es.isNil = true) : es.occurrences = [] := by
  cases es <;> first | rfl | cases h

mutual

/-- All names that a written binding binds are identifiers. -/
theorem Binding.isIdentifier_of_mem : ∀ (b : Binding) {c d : Cursor} {isTarget : Bool},
    b.past? read c = some d → ∀ o ∈ b.occurrences isTarget, IsIdentifier o.word
  | .name word, c, d, isTarget, h, o, ho => by
    rw [List.mem_singleton.1 ho]
    exact isIdentifier_of_pastName? h
  | .object properties, c, d, isTarget, h, o, ho => by
    obtain ⟨e, -, he⟩ := Option.bind_eq_some_iff.mp h
    exact properties.isIdentifier_of_mem he o ho
  | .array elements, c, d, isTarget, h, o, ho => by
    obtain ⟨e, -, he⟩ := Option.bind_eq_some_iff.mp h
    exact elements.isIdentifier_of_mem he o ho

theorem Properties.isIdentifier_of_mem : ∀ (ps : Properties) {c d : Cursor},
    ps.past? read c = some d → ∀ o ∈ ps.occurrences, IsIdentifier o.word
  | .nil, c, d, h, o, ho => nomatch ho
  | .shorthand word value more, c, d, h, o, ho => by
    simp only [Properties.past?, Option.bind_eq_bind, Option.bind_eq_some_iff] at h
    obtain ⟨e, hword, f, -, hmore⟩ := h
    rcases List.mem_cons.1 ho with rfl | ho
    · exact isIdentifier_of_pastName? hword
    · obtain ⟨g, -, hg⟩ | ⟨hlast, -, -⟩ := pastMore?_eq_some hmore
      · exact more.isIdentifier_of_mem hg o ho
      · simp [Properties.occurrences_eq_nil hlast] at ho
  | .keyed key target value more, c, d, h, o, ho => by
    simp only [Properties.past?, Option.bind_eq_bind, Option.bind_eq_some_iff] at h
    obtain ⟨e, -, f, htarget, g, -, hmore⟩ := h
    rcases List.mem_append.1 ho with ho | ho
    · exact target.isIdentifier_of_mem htarget o ho
    · obtain ⟨g, -, hg⟩ | ⟨hlast, -, -⟩ := pastMore?_eq_some hmore
      · exact more.isIdentifier_of_mem hg o ho
      · simp [Properties.occurrences_eq_nil hlast] at ho
  | .rest target, c, d, h, o, ho => by
    simp only [Properties.past?, Option.bind_eq_bind, Option.bind_eq_some_iff] at h
    obtain ⟨e, -, f, htarget, -⟩ := h
    exact target.isIdentifier_of_mem htarget o ho

theorem Elements.isIdentifier_of_mem : ∀ (es : Elements) {c d : Cursor},
    es.past? read c = some d → ∀ o ∈ es.occurrences, IsIdentifier o.word
  | .nil, c, d, h, o, ho => nomatch ho
  | .hole more, c, d, h, o, ho => by
    obtain ⟨e, -, he⟩ := Option.bind_eq_some_iff.mp h
    exact more.isIdentifier_of_mem he o ho
  | .item target value more, c, d, h, o, ho => by
    simp only [Elements.past?, Option.bind_eq_bind, Option.bind_eq_some_iff] at h
    obtain ⟨e, htarget, f, -, hmore⟩ := h
    rcases List.mem_append.1 ho with ho | ho
    · exact target.isIdentifier_of_mem htarget o ho
    · obtain ⟨g, -, hg⟩ | ⟨hlast, -, -⟩ := pastMore?_eq_some hmore
      · exact more.isIdentifier_of_mem hg o ho
      · simp [Elements.occurrences_eq_nil hlast] at ho
  | .rest target, c, d, h, o, ho => by
    simp only [Elements.past?, Option.bind_eq_bind, Option.bind_eq_some_iff] at h
    obtain ⟨e, -, f, htarget, -⟩ := h
    exact target.isIdentifier_of_mem htarget o ho

end

theorem isIdentifier_of_mem_boundBy {bs : List Binding} (h : pastVariables? read bs c = some d) :
    ∀ o ∈ boundBy bs, IsIdentifier o.word := by
  induction bs generalizing c with
  | nil =>
    intro o ho
    cases ho
  | cons b bs ih =>
    simp only [pastVariables?, Option.bind_eq_bind, Option.bind_eq_some_iff] at h
    obtain ⟨e, hb, f, -, hmore⟩ := h
    rw [boundBy, List.flatMap_cons, List.forall_mem_append]
    refine ⟨b.isIdentifier_of_mem hb, ?_⟩
    cases hcomma : f.mark? "," with
    | some g =>
      rw [hcomma] at hmore
      exact ih hmore
    | none =>
      obtain rfl : bs = [] := by simp_all
      intro o ho
      cases ho

end Bound

/-! ### Names as they are seen -/

namespace ExportName

variable {name : ExportName}

theorem isIdentifier_of_past? {text : String} (h : (ExportName.word text).past? c = some d) :
    IsIdentifier text := by
  obtain ⟨hne, hword⟩ := Option.ite_none_left_eq_some.mp h
  exact isIdentifier_of_anyWord? (word?_eq_some_iff.mp hword) hne

/-- What stands around a text in quotes are quotes. -/
theorem isQuote_of_past? {quote : Char} {text : String} (h : (quoted quote text).past? c = some d) :
    Statement.isQuote quote = true := by
  obtain ⟨hstring, htext⟩ := Option.filter_eq_some_iff.mp h
  obtain ⟨first, cs, hrest, hfirst, -⟩ := string?_eq_some hstring
  have hlist := congrArg String.toList (of_decide_eq_true htext)
  simp only [textUpTo, written, hrest, String.toList_ofList] at hlist
  have hhead := congrArg List.head? hlist
  rw [List.head?_take, List.head?_cons, List.head?_cons, Option.ite_none_left_eq_some] at hhead
  rw [← Option.some.inj hhead.2]
  exact Statement.isQuote_iff.2 hfirst

/-- A plain name is seen as it is. -/
theorem stripQuotes_written_of_isPlain (h : name.past? c = some d) (hplain : name.isPlain = true) :
    stripQuotes name.written = name.text := by
  cases name with
  | word text => exact (isIdentifier_of_past? h).stripQuotes_eq_self (of_decide_eq_true hplain)
  | quoted quote text =>
    obtain ⟨-, -, hfirst, hlast⟩ := of_decide_eq_true hplain
    rw [stripQuotes_written (isQuote_of_past? h), stripQuotes_eq_self hfirst hlast]
    rfl

theorem stripQuotes_written_eq_empty_iff (h : name.past? c = some d) :
    stripQuotes name.written = "" ↔ name.isBlank = true := by
  cases name with
  | word text => exact iff_of_false (isIdentifier_of_past? h).stripQuotes_ne nofun
  | quoted quote text =>
    rw [stripQuotes_written (isQuote_of_past? h), stripQuotes_eq_empty_iff, isBlank, List.all_eq_true]

theorem not_isBlank_of_isPlain (hplain : name.isPlain = true) : name.isBlank = false := by
  cases name with
  | word text => rfl
  | quoted quote text =>
    obtain ⟨hne, -, hfirst, -⟩ := of_decide_eq_true hplain
    obtain ⟨ch, cs, hlist⟩ := List.exists_cons_of_ne_nil (mt String.toList_eq_nil_iff.1 hne)
    rw [hlist] at hfirst
    have hch : Statement.isQuote ch = false := by simpa using hfirst
    simp [isBlank, hlist, hch]

end ExportName

section Seen

variable {r : OnwardReader}

theorem ExportItem.exists_past?_exported {i : ExportItem} (h : i.past? c = some d) :
    ∃ c d, i.exported.past? c = some d := by
  obtain ⟨isType, name, alias?⟩ := i
  simp only [ExportItem.past?, Option.bind_eq_bind, Option.bind_eq_some_iff] at h
  obtain ⟨e, -, f, hname, halias⟩ := h
  cases alias? with
  | none => exact ⟨e, f, hname⟩
  | some a =>
    obtain ⟨g, -, ha⟩ := Option.bind_eq_some_iff.mp halias
    exact ⟨g, d, ha⟩

theorem exists_past?_of_mem_items {is : List ExportItem} (h : pastItems? is c = some d) :
    ∀ i ∈ is, ∃ c d, i.exported.past? c = some d := by
  induction is generalizing c with
  | nil => nofun
  | cons i is ih =>
    obtain ⟨e, hitem, hmore⟩ := Option.bind_eq_some_iff.mp h
    rw [List.forall_mem_cons]
    refine ⟨i.exists_past?_exported hitem, ?_⟩
    obtain ⟨f, -, hf⟩ | ⟨hlast, -, -⟩ := pastMore?_eq_some hmore
    · exact ih hf
    · obtain rfl : is = [] := by simpa using hlast
      nofun

theorem exists_past?_of_mem_list {types : Bool} {is : List ExportItem}
    (h : (ExportForm.list types is).past? r.read c = some d) :
    ∀ i ∈ is, ∃ c d, i.exported.past? c = some d := by
  simp only [ExportForm.past?, Option.bind_eq_bind, Option.bind_eq_some_iff] at h
  obtain ⟨e, -, f, -, hitems⟩ := h
  exact exists_past?_of_mem_items hitems

theorem isIdentifier_of_mem_bindings {bs : List Binding}
    (h : (Declaration.bindings bs).past? r.read c = some d) :
    ∀ o ∈ boundBy bs, IsIdentifier o.word := by
  obtain ⟨e, -, hvariables⟩ := Option.bind_eq_some_iff.mp h
  exact isIdentifier_of_mem_boundBy hvariables

theorem isIdentifier_of_named {k : Keyword} {name : String}
    (h : (Declaration.named k name).past? r.read c = some d) : IsIdentifier name := by
  obtain ⟨e, -, hname⟩ := Option.bind_eq_some_iff.mp h
  exact isIdentifier_of_pastName? hname

theorem isIdentifier_of_space {name path : String}
    (h : (Declaration.space name path).past? r.read c = some d) : IsIdentifier name := by
  simp only [Declaration.past?, Option.bind_eq_bind, Option.bind_eq_some_iff] at h
  obtain ⟨e, -, f, hname, -⟩ := h
  exact isIdentifier_of_pastName? hname

/-- An offer as it is seen. -/
def Offer.flavoured (o : Offer) : String × Bool :=
  (o.name, o.isType)

theorem Declaration.seen_of_isPlain {declared : Declaration} (h : declared.past? r.read c = some d)
    (hplain : declared.isPlain = true) : declared.seen = declared.offers.map Offer.flavoured := by
  cases declared with
  | bindings bs =>
    obtain ⟨htargets, hescapes⟩ := of_decide_eq_true hplain
    rw [seen, (listed_eq_iff _).mpr htargets, offers, List.map_map, List.map_map]
    refine List.map_congr_left fun o ho => Prod.ext ?_ rfl
    have hescape := of_decide_eq_true (List.all_eq_true.mp hescapes o ho)
    exact (isIdentifier_of_mem_bindings h o ho).stripQuotes_eq_self hescape
  | named k name =>
    rw [seen, (isIdentifier_of_named h).stripQuotes_eq_self (of_decide_eq_true hplain)]
    rfl
  | space name path =>
    obtain ⟨hescape, rfl⟩ := of_decide_eq_true hplain
    rw [seen, String.append_empty, (isIdentifier_of_space h).stripQuotes_eq_self hescape]
    rfl
  | augmentation => rfl

/-- Of a plain form, a scan sees the names offered. -/
theorem ExportForm.seen_of_isPlain {form : ExportForm} (h : form.past? r.read c = some d)
    (hplain : form.isPlain = true) : form.seen = form.offers.map Offer.flavoured := by
  cases form with
  | declaration declared => exact declared.seen_of_isPlain h hplain
  | list types is =>
    rw [seen, offers, List.map_map]
    refine List.map_congr_left fun i hi => Prod.ext ?_ rfl
    obtain ⟨c', d', hname⟩ := exists_past?_of_mem_list h i hi
    exact i.exported.stripQuotes_written_of_isPlain hname (List.all_eq_true.mp hplain i hi)
  | gathered types name =>
    obtain ⟨htypes, hname⟩ := Bool.and_eq_true_iff.mp hplain
    obtain rfl : types = false := by simpa using htypes
    simp only [past?, Option.bind_eq_bind, Option.bind_eq_some_iff] at h
    obtain ⟨e, -, f, -, g, -, hpast⟩ := h
    have hseen : stripQuotes name.written ≠ "" := by
      rw [Ne, name.stripQuotes_written_eq_empty_iff hpast, name.not_isBlank_of_isPlain hname]
      decide
    rw [seen, if_neg hseen, name.stripQuotes_written_of_isPlain hpast hname]
    rfl
  | imported types name => cases hplain
  | star | default | assigned | global => rfl

theorem ExportForm.not_isBlank_of_isPlain {form : ExportForm} (hplain : form.isPlain = true) :
    ∀ i ∈ form.items, i.exported.isBlank = false := by
  cases form with
  | list types is =>
    exact fun i hi => i.exported.not_isBlank_of_isPlain (List.all_eq_true.mp hplain i hi)
  | declaration | star | gathered | default | assigned | global | imported => nofun

theorem Declaration.ne_empty_of_mem_seen {declared : Declaration}
    (h : declared.past? r.read c = some d) : ∀ n ∈ declared.seen, n.1 ≠ "" := by
  cases declared with
  | bindings bs =>
    intro n hn
    obtain ⟨word, hmem, rfl⟩ := List.mem_map.mp hn
    obtain ⟨o, ho, rfl⟩ := List.mem_map.mp hmem
    exact (isIdentifier_of_mem_bindings h o (List.mem_of_mem_filter ho)).stripQuotes_ne
  | named k name =>
    rw [seen, List.forall_mem_singleton]
    exact (isIdentifier_of_named h).stripQuotes_ne
  | space name path =>
    rw [seen, List.forall_mem_singleton]
    exact (isIdentifier_of_space h).stripQuotes_append_ne path
  | augmentation => nofun

/-- Only an item of a list is seen without a name, one with nothing but quotes between its
quotes. -/
theorem ExportForm.exists_empty_iff {form : ExportForm} (h : form.past? r.read c = some d) :
    (∃ n ∈ form.seen, n.1 = "") ↔ ∃ i ∈ form.items, i.exported.isBlank = true := by
  cases form with
  | declaration declared =>
    have hne := declared.ne_empty_of_mem_seen h
    exact iff_of_false (fun ⟨n, hn, hempty⟩ => hne n hn hempty) (fun ⟨_, hi, _⟩ => nomatch hi)
  | list types is =>
    have hnames := exists_past?_of_mem_list h
    rw [seen, items]
    simp only [List.mem_map, exists_exists_and_eq_and]
    refine exists_congr fun i => and_congr_right fun hi => ?_
    obtain ⟨c', d', hname⟩ := hnames i hi
    exact i.exported.stripQuotes_written_eq_empty_iff hname
  | gathered types name =>
    have hne : ∀ n ∈ (ExportForm.gathered types name).seen, n.1 ≠ "" := by
      rw [seen]
      split
      · nofun
      · simpa
    exact iff_of_false (fun ⟨n, hn, hempty⟩ => hne n hn hempty) (fun ⟨_, hi, _⟩ => nomatch hi)
  | star | default | assigned | global | imported => simp [seen, items]

end Seen

end Reexport.Script
