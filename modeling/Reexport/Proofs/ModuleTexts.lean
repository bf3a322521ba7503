import Reexport.Proofs.Interruptions
import Reexport.Proofs.SeenNames

/-!
# Modules as they are written

A module is written as statements one behind the other. Of a statement that exports nothing only the
place matters, so that a `TopStatement` says no more of it; an export statement has its form, and may
have decorators in front of the word `export` or behind it. `isText` tells whether the statements of a
list are what a text is made of. Where each of them ends is for the reader of statements to say.

A scan walks from one statement to the next. It takes an export statement for what it is unless the
line breaks behind the word `export`, and sees of it what is seen of its form.

## What is proved

* `TopStatement.flatMap_flavoured_exportAt?` — what a scan sees at the place of one statement.
* `flatMap_flavoured_exportStatements` — hence what it sees of all of them, by induction on the list.
* `exportsEmptyName_iff` — a module that exports an empty name has an item in an export list, with
  nothing but quotes between the quotes of its name. No other form of an export does that.
-/

namespace Reexport

namespace Script

open Cursor

/-! ### Statements -/

/-- A statement at the top level of a module. -/
inductive TopStatement where
  /-- A statement that exports nothing, with its decorators. -/
  | other (decorators : Nat)
  /-- An export statement, with the decorators before and behind the word `export`, and whether the
  line breaks behind that word. -/
  | exporting (before behind : Nat) (breaks : Bool) (form : ExportForm)

/-- Past as many decorators as are given, with no more behind them. -/
def pastDecorators? (read : Reader) : (count : Nat) → Cursor → Option Cursor
  | 0, c => if (c.char? '@').isSome then none else some c
  | count + 1, c => do pastDecorators? read count (← read .decoratorRest (← c.char? '@'))

/-- Past a statement, if it takes up text. -/
def pastStatement? (read : Reader) (c : Cursor) : Option Cursor :=
  (read .statement c).filter fun d => d.ahead < c.ahead

namespace TopStatement

/-- Past the statement, if it is what is written at the cursor. -/
def past? (read : Reader) : TopStatement → Cursor → Option Cursor
  | other decorators, c => do
    let d ← pastDecorators? read decorators c
    if c.next?.isNone || (d.word? "export").isSome then none else pastStatement? read c
  | exporting before behind breaks form, c => do
    let d ← (← pastDecorators? read before c).word? "export"
    let e ← pastDecorators? read behind d
    let _ ← form.past? read e
    if (before = 0 ∨ behind = 0) ∧ gapBreaks .blanks d.rest = breaks then
      if breaks then (readExported read d).map pastSemicolon else pastStatement? read c
    else none

/-- The names that the statement exports. -/
def offers : TopStatement → List Offer
  | other _ => []
  | exporting _ _ _ form => form.offers

/-- What a scan sees of the statement, if it takes it for what it is. -/
def seen : TopStatement → List (String × Bool)
  | other _ => []
  | exporting _ _ _ form => form.seen

/-- The items of the export list in the statement, if there is one. -/
def items : TopStatement → List ExportItem
  | other _ => []
  | exporting _ _ _ form => form.items

/-- Whether the line breaks behind the word `export`. -/
def breaks : TopStatement → Bool
  | other _ => false
  | exporting _ _ breaks _ => breaks

/-- Whether a scan sees the names as they are. -/
def isPlain : TopStatement → Bool
  | other _ => true
  | exporting _ _ breaks form => !breaks && form.isPlain

end TopStatement

/-- Past statements up to the end of the text. -/
def pastStatements? (read : Reader) : List TopStatement → Cursor → Option Cursor
  | [], c => if c.next?.isNone then some c else none
  | m :: ms, c => do pastStatements? read ms (← m.past? read c)

/-- Whether the statements are what the text of the module at a path is made of. -/
def isText (ms : List TopStatement) (path source : String) : Bool :=
  let cs := pastInterpreter source.toList
  (pastStatements? (readerFor (holdsMarkup path) cs) ms ⟨cs, 1⟩).isSome

/-! ### What a scan sees of a statement -/

section Statements

variable {r : OnwardReader} {c d e : Cursor} {m : TopStatement} {ms : List TopStatement}

/-- Decorators that are written are passed, each taking up text. -/
theorem pastDecorators_eq {count fuel : Nat} (h : pastDecorators? r.read count c = some d)
    (hfuel : c.ahead ≤ fuel) : pastDecorators r.read fuel c = d := by
  induction count generalizing c fuel with
  | zero =>
    obtain ⟨hnone, heq⟩ := Option.ite_none_left_eq_some.mp h
    obtain rfl := Option.some.inj heq
    cases fuel with
    | zero => rfl
    | succ fuel => simp [pastDecorators, show c.char? '@' = none by simpa using hnone]
  | succ count ih =>
    obtain ⟨e, hsign, hmore⟩ := Option.bind_eq_some_iff.mp h
    obtain ⟨f, hrest, hmore⟩ := Option.bind_eq_some_iff.mp hmore
    have := char?_ahead_lt hsign
    have := r.onward _ e f hrest
    obtain ⟨fuel, rfl⟩ : ∃ n, fuel = n + 1 := ⟨fuel - 1, by omega⟩
    have hdecorators : pastDecorators r.read fuel f = d := ih hmore (by omega)
    simp [pastDecorators, hsign, hrest, hdecorators]

theorem pastDecorators_length_eq {count : Nat} (h : pastDecorators? r.read count c = some d) :
    pastDecorators r.read c.rest.length c = d :=
  pastDecorators_eq h (Nat.le_refl c.ahead)

/-- Without decorators nothing is passed. -/
theorem eq_of_pastDecorators? {count : Nat} (h : pastDecorators? r.read count c = some d)
    (hnone : c.char? '@' = none) : c = d := by
  cases count with
  | zero => exact Option.some.inj (Option.ite_none_left_eq_some.mp h).2
  | succ count =>
    obtain ⟨e, hsign, -⟩ := Option.bind_eq_some_iff.mp h
    rw [hnone] at hsign
    cases hsign

/-- Decorators close no block. -/
theorem exists_next?_of_pastDecorators? {count : Nat}
    (h : pastDecorators? r.read count c = some d) (hd : ∃ ch, d.next? = some ch ∧ ch ≠ '\x7d') :
    ∃ ch, c.next? = some ch ∧ ch ≠ '\x7d' := by
  cases hsign : c.char? '@' with
  | none => rwa [eq_of_pastDecorators? h hsign]
  | some e => exact ⟨'@', (char?_eq_some_iff.mp hsign).1, by decide⟩

/-- A word closes no block. -/
theorem exists_next?_of_anyWord? (h : ∃ found, c.anyWord? = some found) :
    ∃ ch, c.next? = some ch ∧ ch ≠ '\x7d' := by
  obtain ⟨found, hfound⟩ := h
  obtain ⟨ch, hnext, hch⟩ := opensWord_of_anyWord? hfound
  exact ⟨ch, hnext, opensWord_ne hch (by decide)⟩

theorem exists_anyWord?_of_declare
    (h : ∃ found, (c.skip (·.word? "declare")).anyWord? = some found) :
    ∃ found, c.anyWord? = some found := by
  cases hdeclare : c.word? "declare" with
  | none => rwa [skip, hdeclare] at h
  | some e => exact ⟨_, word?_eq_some_iff.mp hdeclare⟩

theorem Declaration.exists_anyWord? {declared : Declaration} (h : declared.past? r.read c = some d) :
    ∃ found, c.anyWord? = some found := by
  cases declared with
  | bindings bs =>
    obtain ⟨word, -, e, hfound⟩ := word_of_pastDeclaration? h
    exact ⟨_, hfound⟩
  | named k name =>
    obtain ⟨e, hkeyword, hname⟩ := Option.bind_eq_some_iff.mp h
    obtain ⟨word, f, form, hfound, -⟩ :=
      k.foundIn_eq r.read hkeyword ⟨_, (pastName?_eq_some_iff.mp hname).2⟩
    exact exists_anyWord?_of_declare ⟨_, hfound⟩
  | space name path =>
    obtain ⟨e, hkeyword, -⟩ := Option.bind_eq_some_iff.mp h
    obtain ⟨word, -, hfound⟩ := wordOf?_eq_some_iff.mp hkeyword
    exact exists_anyWord?_of_declare ⟨_, hfound⟩
  | augmentation =>
    refine exists_anyWord?_of_declare ?_
    rcases Option.or_eq_some_iff.mp h with h | ⟨-, h⟩ <;>
      obtain ⟨e, hword, -⟩ := Option.bind_eq_some_iff.mp h <;>
        exact ⟨_, word?_eq_some_iff.mp hword⟩

/-- What a form begins with closes no block. -/
theorem ExportForm.exists_next? {form : ExportForm} (h : form.past? r.read c = some d) :
    ∃ ch, c.next? = some ch ∧ ch ≠ '\x7d' := by
  have htypes {types : Bool} {e : Cursor} (htype : pastType? types c = some e)
      (he : ∃ ch, e.next? = some ch ∧ ch ≠ '\x7d') : ∃ ch, c.next? = some ch ∧ ch ≠ '\x7d' := by
    cases types with
    | true => exact exists_next?_of_anyWord? ⟨_, word?_eq_some_iff.mp htype⟩
    | false =>
      obtain rfl : c = e := by simpa [pastType?] using htype
      exact he
  cases form with
  | declaration declared => exact exists_next?_of_anyWord? (declared.exists_anyWord? h)
  | list types items =>
    simp only [past?, Option.bind_eq_bind, Option.bind_eq_some_iff] at h
    obtain ⟨e, htype, f, hopen, -⟩ := h
    exact htypes htype ⟨_, (char?_eq_some_iff.mp hopen).1, by decide⟩
  | star types | gathered types name =>
    simp only [past?, Option.bind_eq_bind, Option.bind_eq_some_iff] at h
    obtain ⟨e, htype, f, hstar, -⟩ := h
    exact htypes htype ⟨_, next?_of_mark? hstar rfl, by decide⟩
  | default => exact exists_next?_of_anyWord? ⟨_, word?_eq_some_iff.mp h⟩
  | assigned => exact ⟨_, next?_of_mark? h rfl, by decide⟩
  | global name | imported types name =>
    simp only [past?, Option.bind_eq_bind, Option.bind_eq_some_iff] at h
    obtain ⟨e, hfirst, -⟩ := h
    exact exists_next?_of_anyWord? ⟨_, word?_eq_some_iff.mp hfirst⟩

/-- Where no line breaks, a statement goes on. -/
theorem semicolonDue_eq_false {ch : Char} (hnext : c.next? = some ch) (hch : ch ≠ '\x7d')
    (hbreak : gapBreaks .blanks c.rest = false) : c.semicolonDue true = false := by
  obtain ⟨cs, hrest⟩ := rest_of_next? hnext
  simp only [semicolonDue, hrest]
  split
  · simp_all
  · simp_all
  · simp [hbreak]

namespace TopStatement

/-- Nothing is seen of other statements. -/
theorem exportAt?_other {decorators : Nat} (h : (other decorators).past? r.read c = some d) :
    exportAt? r.read c = none := by
  obtain ⟨e, hdecorators, hother⟩ := Option.bind_eq_some_iff.mp h
  have hexport : e.word? "export" = none := by
    have hcondition := (Option.ite_none_left_eq_some.mp hother).1
    simp only [Bool.or_eq_true, not_or, Option.not_isSome_iff_eq_none] at hcondition
    exact hcondition.2
  unfold exportAt?
  split
  next hnone =>
    rw [eq_of_pastDecorators? hdecorators (by simpa using hnone), hexport]
    rfl
  next =>
    rw [pastDecorators_length_eq hdecorators, hexport]
    rfl

/-- Of an export statement all is seen that is seen of its form, if no line breaks. -/
theorem exportAt?_exporting {before behind : Nat} {form : ExportForm}
    (h : (exporting before behind false form).past? r.read c = some d) :
    ∃ e, exportAt? r.read c = some (exported r.read e) ∧ (form.past? r.read e).isSome = true := by
  simp only [past?, Option.bind_eq_bind, Option.bind_eq_some_iff] at h
  obtain ⟨f, hbefore, g, hexport, e, hbehind, i, hform, hrest⟩ := h
  obtain ⟨⟨hplaces, hbreak⟩, -⟩ := Option.ite_none_right_eq_some.mp hrest
  refine ⟨e, ?_, by rw [hform, Option.isSome_some]⟩
  unfold exportAt?
  split
  next hnone =>
    obtain rfl := eq_of_pastDecorators? hbefore (by simpa using hnone)
    have hdue : g.semicolonDue true = false := by
      obtain ⟨ch, hnext, hch⟩ := exists_next?_of_pastDecorators? hbehind (form.exists_next? hform)
      exact semicolonDue_eq_false hnext hch hbreak
    simp only [hexport, Option.bind_eq_bind, Option.bind_some, hdue, Bool.false_eq_true, if_false]
    split
    next hnone => rw [eq_of_pastDecorators? hbehind (by simpa using hnone)]
    next => rw [pastDecorators_length_eq hbehind]
  next hsome =>
    -- With decorators before the word there are none behind it.
    have hbehind : g = e := by
      rcases hplaces with rfl | rfl
      · exact absurd (by simpa using (Option.ite_none_left_eq_some.mp hbefore).1) hsome
      · exact Option.some.inj (Option.ite_none_left_eq_some.mp hbehind).2
    rw [pastDecorators_length_eq hbefore, hexport, hbehind]
    rfl

theorem exists_past?_form {before behind : Nat} {breaks : Bool} {form : ExportForm}
    (h : (exporting before behind breaks form).past? r.read c = some d) :
    ∃ c d, form.past? r.read c = some d := by
  simp only [past?, Option.bind_eq_bind, Option.bind_eq_some_iff] at h
  obtain ⟨f, -, g, -, e, -, i, hform, -⟩ := h
  exact ⟨e, i, hform⟩

theorem next?_ne_none_of_past? (h : m.past? r.read c = some d) : c.next? ≠ none := by
  cases m with
  | other decorators =>
    obtain ⟨e, -, hother⟩ := Option.bind_eq_some_iff.mp h
    have hcondition := (Option.ite_none_left_eq_some.mp hother).1
    simp only [Bool.or_eq_true, not_or, Option.isNone_iff_eq_none] at hcondition
    exact hcondition.1
  | exporting before behind breaks form =>
    simp only [past?, Option.bind_eq_bind, Option.bind_eq_some_iff] at h
    obtain ⟨f, hbefore, g, hexport, -⟩ := h
    obtain ⟨ch, hnext, -⟩ := exists_next?_of_pastDecorators? hbefore
      (exists_next?_of_anyWord? ⟨_, word?_eq_some_iff.mp hexport⟩)
    rw [hnext]
    exact Option.some_ne_none ch

/-- Unless a line breaks, a statement ends where the reader of statements finds its end. -/
theorem pastStatement?_of_past? (h : m.past? r.read c = some d) (hbreaks : m.breaks = false) :
    pastStatement? r.read c = some d := by
  cases m with
  | other decorators =>
    obtain ⟨e, -, hother⟩ := Option.bind_eq_some_iff.mp h
    exact (Option.ite_none_left_eq_some.mp hother).2
  | exporting before behind breaks form =>
    obtain rfl : breaks = false := hbreaks
    simp only [past?, Option.bind_eq_bind, Option.bind_eq_some_iff] at h
    obtain ⟨f, -, g, -, e, -, i, -, hrest⟩ := h
    exact (Option.ite_none_right_eq_some.mp hrest).2

/-- What is seen at the place of a statement is what is seen of it, unless a line breaks. -/
theorem flatMap_flavoured_exportAt? (h : m.past? r.read c = some d) (hbreaks : m.breaks = false) :
    (exportAt? r.read c).toList.flatMap Exported.flavoured = m.seen := by
  cases m with
  | other decorators =>
    rw [exportAt?_other h]
    rfl
  | exporting before behind breaks form =>
    obtain rfl : breaks = false := hbreaks
    obtain ⟨e, hexported, hform⟩ := exportAt?_exporting h
    obtain ⟨f, hf⟩ := Option.isSome_iff_exists.mp hform
    rw [hexported, Option.toList_some, List.flatMap_singleton, form.flavoured_exported hf]
    rfl

end TopStatement

/-! ### What a scan sees of a module -/

/-- A scan sees the statements one by one. The induction is on them, and the fuel lasts since each
takes up text. -/
theorem flatMap_flavoured_exportStatements {fuel : Nat} (h : pastStatements? r.read ms c = some d)
    (hbreaks : ∀ m ∈ ms, m.breaks = false) (hfuel : c.ahead < fuel) :
    ((exportStatements r.read fuel c).map Prod.snd).flatMap Exported.flavoured =
      ms.flatMap TopStatement.seen := by
  induction ms generalizing c fuel with
  | nil =>
    obtain ⟨hend, -⟩ := Option.ite_none_right_eq_some.mp h
    obtain ⟨fuel, rfl⟩ : ∃ n, fuel = n + 1 := ⟨fuel - 1, by omega⟩
    rw [exportStatements, if_pos hend]
    rfl
  | cons m ms ih =>
    obtain ⟨e, hm, hms⟩ := Option.bind_eq_some_iff.mp h
    rw [List.forall_mem_cons] at hbreaks
    obtain ⟨hstatement, hlt⟩ :=
      Option.filter_eq_some_iff.mp (m.pastStatement?_of_past? hm hbreaks.1)
    have hnext : ¬c.next?.isNone = true := by simpa using m.next?_ne_none_of_past? hm
    have hlt : e.ahead < c.ahead := of_decide_eq_true hlt
    obtain ⟨fuel, rfl⟩ : ∃ n, fuel = n + 1 := ⟨fuel - 1, by omega⟩
    rw [exportStatements, if_neg hnext, hstatement, Option.getD_some, List.flatMap_cons,
      ← m.flatMap_flavoured_exportAt? hm hbreaks.1, ← ih hms hbreaks.2 (by omega : e.ahead < fuel)]
    cases exportAt? r.read c <;> simp

theorem exists_past?_of_mem (h : pastStatements? r.read ms c = some d) :
    ∀ m ∈ ms, ∃ c d, m.past? r.read c = some d := by
  induction ms generalizing c with
  | nil => nofun
  | cons m ms ih =>
    obtain ⟨e, hm, hms⟩ := Option.bind_eq_some_iff.mp h
    rw [List.forall_mem_cons]
    exact ⟨⟨c, e, hm⟩, ih hms⟩

/-- A statement shows an empty name by an item of a list with nothing but quotes. -/
theorem TopStatement.exists_empty_iff (h : m.past? r.read c = some d) :
    (∃ n ∈ m.seen, n.1 = "") ↔ ∃ i ∈ m.items, i.exported.isBlank = true := by
  cases m with
  | other decorators =>
    exact iff_of_false (fun ⟨_, hn, _⟩ => nomatch hn) (fun ⟨_, hi, _⟩ => nomatch hi)
  | exporting before behind breaks form =>
    obtain ⟨e, i, hform⟩ := exists_past?_form h
    exact form.exists_empty_iff hform

theorem TopStatement.breaks_of_isPlain (hplain : m.isPlain = true) : m.breaks = false := by
  cases m with
  | other decorators => rfl
  | exporting before behind breaks form =>
    show breaks = false
    simpa using (Bool.and_eq_true_iff.mp hplain).1

/-- Of a plain statement, a scan sees the names offered. -/
theorem TopStatement.seen_of_isPlain (h : m.past? r.read c = some d) (hplain : m.isPlain = true) :
    m.seen = m.offers.map Offer.flavoured := by
  cases m with
  | other decorators => rfl
  | exporting before behind breaks form =>
    obtain ⟨e, i, hform⟩ := exists_past?_form h
    exact form.seen_of_isPlain hform (Bool.and_eq_true_iff.mp hplain).2

theorem TopStatement.not_isBlank_of_isPlain (hplain : m.isPlain = true) :
    ∀ i ∈ m.items, i.exported.isBlank = false := by
  cases m with
  | other decorators => nofun
  | exporting before behind breaks form =>
    exact form.not_isBlank_of_isPlain (Bool.and_eq_true_iff.mp hplain).2

end Statements

theorem Exported.hasEmptyName_iff {e : Exported} :
    e.HasEmptyName ↔ ∃ n ∈ e.flavoured, n.1 = "" := by
  cases e with
  | star => simp [HasEmptyName, Exported.flavoured]
  | names found => simp [HasEmptyName, Exported.flavoured, Found.flavoured]

end Script

open Script

variable {ms : List TopStatement} {path source : String}

/-- What a scan sees in the text of the module at a path, before repeats are left out. -/
def namesSeen (path source : String) : List (String × Bool) :=
  let cs := pastInterpreter source.toList
  let statements := exportStatements (readerFor (holdsMarkup path) cs) (cs.length + 1) ⟨cs, 1⟩
  (statements.map Prod.snd).flatMap Exported.flavoured

/-- All that a scan sees of a module is what is seen of its statements. -/
theorem namesSeen_eq (h : isText ms path source = true) (hbreaks : ∀ m ∈ ms, m.breaks = false) :
    namesSeen path source = ms.flatMap TopStatement.seen := by
  let cs := pastInterpreter source.toList
  let r : OnwardReader := ⟨readerFor (holdsMarkup path) cs, readWithin_onward _ _⟩
  obtain ⟨d, hd⟩ := Option.isSome_iff_exists.mp h
  exact flatMap_flavoured_exportStatements (r := r) hd hbreaks (Nat.lt_succ_self _)

/-- Behind a line break, nothing is seen of what is exported. -/
example :
    let statement := .exporting 0 0 true (.declaration (.bindings [.name "X"]))
    isText [statement] "/p/x.ts" "export\nconst X = 1;\n" = true ∧
      statement.offers = [⟨"X", false⟩] ∧ namesSeen "/p/x.ts" "export\nconst X = 1;\n" = [] := by
  decide +kernel

theorem exists_past?_of_isText (h : isText ms path source = true) {m : TopStatement} (hm : m ∈ ms) :
    ∃ (r : OnwardReader) (c d : Cursor), m.past? r.read c = some d := by
  let cs := pastInterpreter source.toList
  obtain ⟨d, hd⟩ := Option.isSome_iff_exists.mp h
  exact ⟨⟨readerFor (holdsMarkup path) cs, readWithin_onward _ _⟩, exists_past?_of_mem hd m hm⟩

/-- Of plain statements, a scan sees the names offered. -/
theorem namesSeen_of_isPlain (h : isText ms path source = true)
    (hplain : ∀ m ∈ ms, m.isPlain = true) :
    namesSeen path source = (ms.flatMap TopStatement.offers).map Offer.flavoured := by
  rw [namesSeen_eq h fun m hm => m.breaks_of_isPlain (hplain m hm), List.map_flatMap]
  refine List.flatMap_congr fun m hm => ?_
  obtain ⟨r, c, d, hpast⟩ := exists_past?_of_isText h hm
  exact m.seen_of_isPlain hpast (hplain m hm)

/-- A module exports an empty name if such a name is in an export list, with nothing but quotes
between its quotes. -/
theorem exportsEmptyName_iff (h : isText ms path source = true)
    (hbreaks : ∀ m ∈ ms, m.breaks = false) : ExportsEmptyName path source ↔
      ∃ m ∈ ms, ∃ i ∈ m.items, i.exported.isBlank = true := by
  have hseen : ExportsEmptyName path source ↔ ∃ n ∈ namesSeen path source, n.1 = "" := by
    simp only [ExportsEmptyName, Exported.hasEmptyName_iff, namesSeen, List.mem_flatMap, List.mem_map]
    constructor
    · rintro ⟨statement, hmem, n, hn, hempty⟩
      exact ⟨n, ⟨statement.2, ⟨statement, hmem, rfl⟩, hn⟩, hempty⟩
    · rintro ⟨n, ⟨_, ⟨statement, hmem, rfl⟩, hn⟩, hempty⟩
      exact ⟨statement, hmem, n, hn, hempty⟩
  have hstatement (m : TopStatement) (hm : m ∈ ms) :
      (∃ n ∈ m.seen, n.1 = "") ↔ ∃ i ∈ m.items, i.exported.isBlank = true := by
    obtain ⟨r, c, d, hpast⟩ := exists_past?_of_isText h hm
    exact m.exists_empty_iff hpast
  rw [hseen, namesSeen_eq h hbreaks]
  simp only [List.mem_flatMap]
  constructor
  · rintro ⟨n, ⟨m, hm, hn⟩, hempty⟩
    exact ⟨m, hm, (hstatement m hm).1 ⟨n, hn, hempty⟩⟩
  · rintro ⟨m, hm, hblank⟩
    obtain ⟨n, hn, hempty⟩ := (hstatement m hm).2 hblank
    exact ⟨n, ⟨m, hm, hn⟩, hempty⟩

end Reexport
