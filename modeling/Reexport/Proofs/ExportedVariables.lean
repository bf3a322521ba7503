import Reexport.Script.Export
import Reexport.Proofs.BindingPatterns

/-!
# The names of exported variables

A statement that exports variables exports every name that their patterns bind. A scan gets these
names from it, each as often as it is bound and in the order in which they are written, and no key
and nothing of a default value besides.

Two slips leave names out. A scan takes the word `export` for a statement of its own where the line
breaks behind it, and it takes a name `undefined` that stands for a whole target inside of a pattern
for the missing value. It lists `undefined` where it is a shorthand part or a variable of its own.

## What is proved

* `declarators_eq` — each variable is read with the pattern that is written for it.
* `exportedNames_cons` — what a statement adds to a scan, exactly.
* `exportedNames_bound_iff` — hence it adds all names bound unless one of the two slips meets one.
-/

namespace Reexport.Script

open Cursor

section Exported

variable {r : OnwardReader} {c d e : Cursor}

theorem Binding.ofCursor?_eq {b : Binding} (h : b.past? r.read c = some d) :
    Pattern.ofCursor? r.read c = some (b.outer, d) := by
  have hfuel : 2 * c.ahead ≤ 2 * c.rest.length + 2 + 2 * d.ahead := by
    simp only [ahead]
    omega
  cases b with
  | name word =>
    obtain ⟨-, hfound⟩ := pastName?_eq_some_iff.mp h
    obtain ⟨ch, hnext, hch⟩ := opensWord_of_anyWord? hfound
    have hbrace : ch ≠ '\x7b' := opensWord_ne hch (by decide)
    have hbracket : ch ≠ '[' := opensWord_ne hch (by decide)
    simp [Pattern.ofCursor?, hnext, hbrace, hbracket, hfound, Binding.outer]
  | object properties =>
    obtain ⟨e, hopen, -⟩ := Option.bind_eq_some_iff.mp h
    have hnext := (char?_eq_some_iff.mp hopen).1
    simpa [Pattern.ofCursor?, hnext, Binding.outer] using Binding.read?_eq _ h hfuel
  | array elements =>
    obtain ⟨e, hopen, -⟩ := Option.bind_eq_some_iff.mp h
    have hnext := (char?_eq_some_iff.mp hopen).1
    simpa [Pattern.ofCursor?, hnext, Binding.outer] using Binding.read?_eq _ h hfuel

/-- Past variables with their annotations and initial values, if they are what is written at the
cursor. -/
def pastVariables? (read : Reader) : List Binding → Cursor → Option Cursor
  | [], _ => none
  | b :: bs, c => do
    let d ← b.past? read c
    let e ← readDeclaratorRest read .valueAtEnd d
    match e.mark? "," with
    | some f => pastVariables? read bs f
    | none => if bs.isEmpty then some e else none

theorem declarators_eq {bs : List Binding} {fuel : Nat}
    (h : pastVariables? r.read bs c = some d) (hfuel : c.ahead < fuel) :
    declarators r.read fuel c = bs.map (·.outer) := by
  induction bs generalizing c fuel with
  | nil => simp [pastVariables?] at h
  | cons b bs ih =>
    simp only [pastVariables?, Option.bind_eq_bind, Option.bind_eq_some_iff] at h
    obtain ⟨e, hb, f, hrest, hmore⟩ := h
    obtain ⟨fuel, rfl⟩ : ∃ n, fuel = n + 1 := ⟨fuel - 1, by omega⟩
    cases hcomma : f.mark? "," with
    | some g =>
      rw [hcomma] at hmore
      have := b.past?_ahead_lt hb
      have := readDeclaratorRest_onward f hrest
      have := mark?_ahead_lt hcomma rfl
      have hbs : declarators r.read fuel g = bs.map (·.outer) := ih hmore (by omega)
      simp [declarators, b.ofCursor?_eq hb, hrest, hcomma, hbs]
    | none =>
      have hlast : bs = [] := by simp_all
      simp [declarators, b.ofCursor?_eq hb, hrest, hcomma, hlast]

/-- Past a declaration of variables with its keyword, if it is what is written at the cursor. -/
def pastDeclaration? (read : Reader) (bs : List Binding) (c : Cursor) : Option Cursor := do
  let d ← (c.skip (·.word? "declare")).wordOf? ["const", "let", "var"]
  pastVariables? read bs d

theorem wordOf?_eq_some_iff {words : List String} :
    c.wordOf? words = some d ↔ ∃ word ∈ words, c.anyWord? = some (word, d) := by
  unfold wordOf?
  cases c.anyWord? with
  | none => simp
  | some found =>
    obtain ⟨word, e⟩ := found
    simp only [List.contains_iff_mem, Option.ite_none_right_eq_some, Option.some.injEq,
      Prod.mk.injEq]
    exact ⟨fun h => ⟨word, h.1, rfl, h.2⟩, fun ⟨_, h, hword, he⟩ => ⟨hword ▸ h, he⟩⟩

/-- No enumeration follows where variables do. -/
theorem word?_enum_of_pastVariables? {bs : List Binding}
    (h : pastVariables? r.read bs c = some d) : c.word? "enum" = none := by
  cases bs with
  | nil => simp [pastVariables?] at h
  | cons b bs =>
    obtain ⟨e, hb, -⟩ := Option.bind_eq_some_iff.mp h
    refine Option.eq_none_iff_forall_ne_some.mpr fun f hf => ?_
    have hfound := word?_eq_some_iff.mp hf
    cases b with
    | name word =>
      obtain ⟨hword, hfound'⟩ := pastName?_eq_some_iff.mp hb
      obtain rfl : word = "enum" := by simp_all
      exact absurd hword (by decide)
    | object properties =>
      obtain ⟨g, hopen, -⟩ := Option.bind_eq_some_iff.mp hb
      simp [anyWord?_eq_none (char?_eq_some_iff.mp hopen).1 (by decide)] at hfound
    | array elements =>
      obtain ⟨g, hopen, -⟩ := Option.bind_eq_some_iff.mp hb
      simp [anyWord?_eq_none (char?_eq_some_iff.mp hopen).1 (by decide)] at hfound

/-- The names that variables bind. -/
def boundBy (bs : List Binding) : List Occurrence :=
  bs.flatMap (·.occurrences false)

theorem foundVariables_eq {bs : List Binding} (h : pastVariables? r.read bs c = some d) :
    foundVariables r.read c = (listed (boundBy bs)).map (⟨·, false, .binding⟩) := by
  have hnames : (bs.map (·.outer)).flatMap (·.names) = listed (boundBy bs) := by
    clear h
    induction bs with
    | nil => rfl
    | cons b bs ih => simp_all [boundBy, b.names_outer, listed_append]
  have hdeclarators : declarators r.read (c.rest.length + 1) c = bs.map (·.outer) :=
    declarators_eq h (Nat.lt_succ_self c.ahead)
  rw [foundVariables, hdeclarators, hnames]

theorem foundDeclaration_eq {bs : List Binding} (h : pastDeclaration? r.read bs c = some d) :
    foundDeclaration r.read c = (listed (boundBy bs)).map (⟨·, false, .binding⟩) := by
  obtain ⟨e, hkeyword, hvariables⟩ := Option.bind_eq_some_iff.mp h
  obtain ⟨word, hword, hfound⟩ := wordOf?_eq_some_iff.mp hkeyword
  have henum := word?_enum_of_pastVariables? hvariables
  rw [← foundVariables_eq hvariables]
  simp only [List.mem_cons, List.not_mem_nil, or_false] at hword
  obtain rfl | rfl | rfl := hword <;> simp [foundDeclaration, hfound, foundIn, henum]

/-- A declaration of variables begins with one of four words. -/
theorem word_of_pastDeclaration? {bs : List Binding} (h : pastDeclaration? r.read bs c = some d) :
    ∃ word ∈ ["declare", "const", "let", "var"], ∃ e, c.anyWord? = some (word, e) := by
  obtain ⟨e, hkeyword, -⟩ := Option.bind_eq_some_iff.mp h
  cases hdeclare : c.word? "declare" with
  | some f => exact ⟨"declare", by decide, f, word?_eq_some_iff.mp hdeclare⟩
  | none =>
    rw [skip, hdeclare] at hkeyword
    obtain ⟨word, hword, hfound⟩ := wordOf?_eq_some_iff.mp hkeyword
    exact ⟨word, List.mem_cons_of_mem _ hword, e, hfound⟩

theorem exported_variables {bs : List Binding} (h : pastDeclaration? r.read bs c = some d) :
    exported r.read c = .names ((listed (boundBy bs)).map (⟨·, false, .binding⟩)) := by
  obtain ⟨word, hword, e, hfound⟩ := word_of_pastDeclaration? h
  obtain ⟨ch, hnext, hch⟩ := opensWord_of_anyWord? hfound
  have htype : c.word? "type" = none := by
    refine Option.eq_none_iff_forall_ne_some.mpr fun f hf => ?_
    have hfound' := word?_eq_some_iff.mp hf
    obtain rfl : word = "type" := by simp_all
    exact absurd hword (by decide)
  have hstar : c.mark? "*" = none := mark?_eq_none hnext rfl (opensWord_ne hch (by decide))
  have hbrace : c.char? '\x7b' = none := char?_eq_none hnext (opensWord_ne hch (by decide))
  simp [exported, htype, hstar, hbrace, foundDeclaration_eq h]

/-- In front of a declaration, a line break alone ends the statement. -/
theorem semicolonDue_eq {bs : List Binding} (h : pastDeclaration? r.read bs c = some d) :
    c.semicolonDue true = gapBreaks .blanks c.rest := by
  obtain ⟨word, hword, e, hfound⟩ := word_of_pastDeclaration? h
  have hrest := (rest_of_anyWord? hfound).1
  simp only [List.mem_cons, List.not_mem_nil, or_false] at hword
  obtain rfl | rfl | rfl | rfl := hword <;> simp [semicolonDue, hrest, opensStatement]

theorem exportAt?_variables {bs : List Binding} (hexport : c.word? "export" = some d)
    (h : pastDeclaration? r.read bs d = some e) :
    exportAt? r.read c = if gapBreaks .blanks d.rest then none else
      some (.names ((listed (boundBy bs)).map (⟨·, false, .binding⟩))) := by
  obtain ⟨ch, hnext, hch⟩ := opensWord_of_anyWord? (word?_eq_some_iff.mp hexport)
  obtain ⟨word, -, f, hfound⟩ := word_of_pastDeclaration? h
  obtain ⟨ch', hnext', hch'⟩ := opensWord_of_anyWord? hfound
  have hsign : c.char? '@' = none := char?_eq_none hnext (opensWord_ne hch (by decide))
  have hsign' : d.char? '@' = none := char?_eq_none hnext' (opensWord_ne hch' (by decide))
  simp [exportAt?, hsign, hexport, semicolonDue_eq h, hsign', exported_variables h]

/-- The names that export statements add to a scan, before repeats are left out. -/
def exportedNames (statements : List (Nat × Exported)) : List String :=
  statements.flatMap fun statement =>
    match statement.2 with
    | .star => []
    | .names found => found.map (·.text)

/-- What a statement that exports variables adds to a scan, by whether the line breaks behind its
first word: the names listed of those bound, or nothing. -/
def addedBy (breaks : Bool) (bs : List Binding) : List String :=
  if breaks then [] else listed (boundBy bs)

theorem exportedNames_cons {bs : List Binding} {fuel : Nat} (hexport : c.word? "export" = some d)
    (h : pastDeclaration? r.read bs d = some e) :
    exportedNames (exportStatements r.read (fuel + 1) c) =
      addedBy (gapBreaks .blanks d.rest) bs ++
        exportedNames (exportStatements r.read fuel ((r.read .statement c).getD (pastLine c))) := by
  obtain ⟨ch, hnext, -⟩ := opensWord_of_anyWord? (word?_eq_some_iff.mp hexport)
  rw [exportStatements, exportAt?_variables hexport h]
  by_cases hbreak : gapBreaks .blanks d.rest = true <;>
    simp [hnext, hbreak, exportedNames, addedBy, Function.comp_def]

theorem listed_eq_iff (found : List Occurrence) :
    listed found = found.map (·.word) ↔ ⟨"undefined", true⟩ ∉ found := by
  constructor
  · intro h hmem
    have hlength := congrArg List.length h
    simp only [listed, List.length_map] at hlength
    simpa using List.length_filter_eq_length_iff.mp hlength _ hmem
  · intro h
    have hall : ∀ o ∈ found, decide (o ≠ ⟨"undefined", true⟩) = true := fun o ho =>
      decide_eq_true fun heq => h (heq ▸ ho)
    rw [listed, List.filter_eq_self.mpr hall]

/-- The names that a statement which exports variables adds to a scan, before repeats are left out,
are the names that its patterns bind, each as often as it is bound and in the order in which they
are written, exactly if no line breaks behind its first word and no name `undefined` is a whole
target inside of a pattern. No other name is ever added. -/
theorem exportedNames_bound_iff {markup : Bool} {depth : Nat} {bs : List Binding} (fuel : Nat)
    (hexport : c.word? "export" = some d)
    (h : (pastDeclaration? (readWithin markup depth) bs d).isSome = true) :
    exportedNames (exportStatements (readWithin markup depth) (fuel + 1) c) =
      addedBy (gapBreaks .blanks d.rest) bs ++
        exportedNames (exportStatements (readWithin markup depth) fuel
          ((readWithin markup depth .statement c).getD (pastLine c))) ∧
    (addedBy (gapBreaks .blanks d.rest) bs).Sublist ((boundBy bs).map (·.word)) ∧
    (addedBy (gapBreaks .blanks d.rest) bs = (boundBy bs).map (·.word) ↔
      (gapBreaks .blanks d.rest = true → boundBy bs = []) ∧
        ⟨"undefined", true⟩ ∉ boundBy bs) := by
  obtain ⟨e, he⟩ := Option.isSome_iff_exists.mp h
  let r : OnwardReader := ⟨readWithin markup depth, readWithin_onward markup depth⟩
  refine ⟨exportedNames_cons (r := r) hexport he, ?_, ?_⟩
  · unfold addedBy
    split
    · exact List.nil_sublist _
    · exact List.filter_sublist.map _
  · cases gapBreaks .blanks d.rest with
    | false => simpa [addedBy] using listed_eq_iff (boundBy bs)
    | true =>
      constructor
      · intro hnil
        have hempty : boundBy bs = [] := by simpa [addedBy] using hnil.symm
        simp [hempty]
      · intro hnil
        simp [addedBy, hnil.1 rfl]

deriving instance DecidableEq for Cursor

/-- A statement with two variables, one of them with patterns, keys and default values in its
pattern. -/
def nestedStatement : String :=
  "export const \x7b a, b: [, \x7b c = f(k) \x7d], [key]: d = a, ...e \x7d = x, g: number = 1;"

/-- What is written in it. -/
def nestedBindings : List Binding :=
  let inner : Elements := .hole (.item (.object (.shorthand "c" (some " f(k)") .nil)) none .nil)
  [.object (.shorthand "a" none (.keyed "b" (.array inner) none
    (.keyed "[key]" (.name "d") (some " a") (.rest (.name "e"))))), .name "g"]

theorem exportedNames_bound_iff_nested :
    Cursor.word? "export" ⟨nestedStatement.toList, 1⟩ = some ⟨nestedStatement.toList.drop 6, 1⟩ ∧
    (pastDeclaration? (readWithin false 40) nestedBindings
      ⟨nestedStatement.toList.drop 6, 1⟩).isSome = true ∧
    exportedNames (exportStatements (readWithin false 40) 1 ⟨nestedStatement.toList, 1⟩) =
      ["a", "c", "d", "e", "g"] ∧
    (boundBy nestedBindings).map (·.word) = ["a", "c", "d", "e", "g"] := by
  have hexport : Cursor.word? "export" ⟨nestedStatement.toList, 1⟩ =
      some ⟨nestedStatement.toList.drop 6, 1⟩ := by
    decide +kernel
  have hwritten : (pastDeclaration? (readWithin false 40) nestedBindings
      ⟨nestedStatement.toList.drop 6, 1⟩).isSome = true := by
    decide +kernel
  obtain ⟨hadded, -, hall⟩ := exportedNames_bound_iff 0 hexport hwritten
  have hbound : (boundBy nestedBindings).map (·.word) = ["a", "c", "d", "e", "g"] := by
    decide +kernel
  have hlisted := hall.mpr ⟨by decide +kernel, by decide +kernel⟩
  refine ⟨hexport, hwritten, ?_, hbound⟩
  rw [hadded, hlisted, hbound]
  rfl

/-- What is written in an array pattern of two names. -/
def undefinedFirst : List Binding :=
  [.array (.item (.name "undefined") none (.item (.name "b") none .nil))]

/-- The first of two names that a pattern binds is not listed, nor is one behind a line break. -/
theorem scan_misses_bound :
    (pastDeclaration? (readWithin false 40) undefinedFirst
      ⟨" const [undefined, b] = x".toList, 1⟩).isSome = true ∧
    (boundBy undefinedFirst).map (·.word) = ["undefined", "b"] ∧
    (scan "m.ts" "export const [undefined, b] = x").toOption.map (·.exports.map (·.name)) =
      some ["b"] ∧
    (pastDeclaration? (readWithin false 40) [.name "z"] ⟨"\nconst z = 1".toList, 1⟩).isSome = true ∧
    (boundBy [.name "z"]).map (·.word) = ["z"] ∧
    (scan "m.ts" "export\nconst z = 1").toOption.map (·.exports.map (·.name)) = some [] := by
  decide +kernel

end Exported

end Reexport.Script
