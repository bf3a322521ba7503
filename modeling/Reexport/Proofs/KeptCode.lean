import Reexport.Proofs.Readback

/-!
# Code in a barrel

A barrel may hold other code than re-exports. A transformation keeps what stands before the first line
that begins with `export`, but for blank lines and `//` comments: those lines begin the new text as
they are. From that line on, nothing is copied. The statements that follow are written for the
entries, and a line that holds none, such as a declaration, an import, a statement over several lines
or the end of a block comment, is gone.

A line is `isCode` if it says something and holds no re-export. `leading` and `trailing` are the lines
before the first line with `export`, and those from it on.

## What is proved

* `prologue_eq_codeLines` — the lines that are kept are the code before the first `export`.
* `lines_barrelText_eq` — the text of a barrel has those lines, and then those of the statements.
* `process_keeps_code` — hence all code is kept exactly if there is nothing to write, or no code from
  the first `export` on.
-/

namespace Reexport

open Text

/-! ### Lines of code -/

/-- Whether a line holds other code: it says something, and no entry is read from it. The number of the
line plays no part. -/
def isCode (line : List Char) : Bool :=
  isTelling line && (lineEntries line 0).isEmpty

/-- The lines that hold other code. -/
def codeLines (rows : List (List Char)) : List (List Char) :=
  rows.filter isCode

/-- The lines of a text before the first one that begins with `export`. -/
def leading (text : String) : List (List Char) :=
  (lines text.toList).takeWhile (!isExportLine ·)

/-- The lines of a text from the first one that begins with `export`. -/
def trailing (text : String) : List (List Char) :=
  (lines text.toList).dropWhile (!isExportLine ·)

/-- The code of a text stands before its first `export`, or after that. -/
theorem codeLines_lines (text : String) :
    codeLines (lines text.toList) = codeLines (leading text) ++ codeLines (trailing text) := by
  unfold codeLines leading trailing
  rw [← List.filter_append, List.takeWhile_append_dropWhile]

/-- Before the first `export` there are no entries, so all that says something is code. -/
theorem prologue_eq_codeLines (text : String) :
    prologue text.toList = codeLines (leading text) := by
  unfold prologue codeLines leading
  apply List.filter_congr
  intro line hline
  have hexport : isExportLine line = false := by simpa using List.mem_takeWhile_imp hline
  simp [isCode, lineEntries_of_not_isExportLine hexport]

/-! ### Lines of statements -/

/-- The lines of the statements that are written for entries. -/
def statementLines (entries : List Entry) : List (List Char) :=
  lines (joinLines ((sources entries).flatMap (sourceStatements entries)) ++ ['\n'])

/-- The text of a barrel begins with the code before the first `export` of the old one; all else are
statements. -/
theorem lines_barrelText_eq (before : String) {entries : List Entry} (hne : entries ≠ []) :
    lines (barrelText before entries).toList =
      codeLines (leading before) ++ statementLines entries := by
  rw [lines_barrelText_append before hne, prologue_eq_codeLines, statementLines]

/-- A statement that is written for well-formed entries is no other code. -/
theorem not_isCode_of_mem_statementLines {entries : List Entry} (hne : entries ≠ [])
    (h : ∀ e ∈ entries, e.WellFormed) {row : List Char} (hrow : row ∈ statementLines entries) :
    isCode row = false := by
  have hspells := spells_statements h
  rw [statementLines, lines_joinLines (statements_ne_nil hne) hspells.oneLine] at hrow
  simp [isCode, hspells.lineEntries_ne_nil row hrow 0]

/-! ### Transformations -/

/-- **What is kept of a barrel.** Let a transformation with any options give a text. The code before
the first line that begins with `export` stands in it, in its order. If nothing is re-exported, the
text is the old one. Otherwise it consists of that code and of the statements for the entries; and if
the names of the entries are words, all code of the old text stands in it, in its order, exactly if
there is none from the first line with `export` on. -/
theorem process_keeps_code (t : Transformer) {source path out : String} {log log' : List Event}
    (h : Yields (t.process source path) log out log') :
    (codeLines (leading source)).Sublist (lines out.toList) ∧
    ∃ entries, Yields (t.transform source path) log (out, entries) log' ∧
      (entries = [] → out = source) ∧
      (entries ≠ [] → lines out.toList = codeLines (leading source) ++ statementLines entries ∧
        ((∀ x ∈ entries, x.isBareStar = false → IsWord x.exportedName.toList) →
          ((codeLines (lines source.toList)).Sublist (lines out.toList) ↔
            codeLines (trailing source) = []))) := by
  obtain ⟨⟨text, entries⟩, o, htransform, h⟩ := yields_bind_iff.1 h
  obtain ⟨rfl, rfl⟩ := yields_pure_iff.1 h
  obtain ⟨htext, hcollected⟩ := Transformer.barrelText_of_transform htransform
  have hlines : entries ≠ [] →
      lines out.toList = codeLines (leading source) ++ statementLines entries := by
    intro hne
    rw [htext]
    exact lines_barrelText_eq source hne
  have hsame : entries = [] → out = source := by
    rintro rfl
    exact htext
  refine ⟨?_, entries, htransform, hsame, fun hne => ⟨hlines hne, fun hwords => ?_⟩⟩
  · by_cases hne : entries = []
    · show (codeLines (leading source)).Sublist (lines out.toList)
      rw [hsame hne]
      exact List.filter_sublist.trans (List.takeWhile_sublist _)
    · show (codeLines (leading source)).Sublist (lines out.toList)
      rw [hlines hne]
      exact List.sublist_append_left _ _
  · obtain ⟨o', o'', hcollect⟩ := hcollected hne
    have hformed := Transformer.formed_of_collect hcollect
    have hread : ∀ x ∈ entries, x.WellFormed := by
      intro x hx
      apply (hformed x hx).wellFormed
      cases hbare : x.isBareStar with
      | true => exact .inl (Entry.isBareStar_iff.1 hbare).1
      | false => exact .inr (hwords x hx hbare)
    show (codeLines (lines source.toList)).Sublist (lines out.toList) ↔ _
    rw [codeLines_lines, hlines hne, List.append_sublist_append_left]
    constructor
    · intro hsub
      rw [List.eq_nil_iff_forall_not_mem]
      intro row hrow
      have hcode : isCode row = true := (List.mem_filter.1 hrow).2
      rw [not_isCode_of_mem_statementLines hne hread (hsub.subset hrow)] at hcode
      cases hcode
    · intro hnone
      rw [hnone]
      exact List.nil_sublist _

/-- A barrel with a comment, a directive and a declaration after its re-exports. -/
def annotatedText : String :=
  "/**\n * Public API\n */\n// generated\n\n\"use client\";\nexport { a } from './a';\nconst x = 1;\n"

/-- The text that takes its place. -/
def annotatedResult : String :=
  "/**\n * Public API\n */\n\"use client\";\nexport { a } from \"./a\";\n"

/-- The comment and the directive are kept, the declaration is not. -/
theorem process_keeps_code_annotated : ∃ log',
    Yields (Transformer.process ⟨({} : MemoryFiles).files, {}, ["index.ts"]⟩ annotatedText
      "/p/index.ts") [] annotatedResult log' ∧
    codeLines (leading annotatedText) =
      ["/**".toList, " * Public API".toList, " */".toList, "\"use client\";".toList] ∧
    (codeLines (leading annotatedText)).Sublist (lines annotatedResult.toList) ∧
    ¬(codeLines (lines annotatedText.toList)).Sublist (lines annotatedResult.toList) := by
  obtain ⟨⟨text, entries⟩, log', htransform, hresult⟩ := exists_yields_of_map (p := [])
    (x := Transformer.transform ⟨({} : MemoryFiles).files, {}, ["index.ts"]⟩ annotatedText
      "/p/index.ts")
    (f := fun r => (r.1, r.2.isEmpty, r.2.all fun x => decide (IsWord x.exportedName.toList)))
    (b := (annotatedResult, false, true)) (by decide +kernel)
  simp only [Prod.mk.injEq] at hresult
  obtain ⟨rfl, hsome, hwords⟩ := hresult
  have hprocess : Yields (Transformer.process ⟨({} : MemoryFiles).files, {}, ["index.ts"]⟩
      annotatedText "/p/index.ts") [] annotatedResult log' :=
    yields_bind_iff.2 ⟨_, _, htransform, rfl⟩
  obtain ⟨hkept, found, hfound, -, hcode⟩ := process_keeps_code _ hprocess
  obtain rfl : found = entries := congrArg Prod.snd (hfound.unique htransform).1
  have hne : found ≠ [] := by simpa using hsome
  have hiff := (hcode hne).2 fun x hx _ => of_decide_eq_true (List.all_eq_true.1 hwords x hx)
  refine ⟨log', hprocess, by decide +kernel, hkept, fun hall => ?_⟩
  have hdropped : codeLines (trailing annotatedText) ≠ [] := by decide +kernel
  exact hdropped (hiff.1 hall)

/-- **Code is dropped**: a declaration after a re-export is not in the new text. -/
theorem process_drops_code : ∃ log',
    Yields (Transformer.process ⟨({} : MemoryFiles).files, {}, ["index.ts"]⟩
      "export { a } from \"./a\";\nconst x = 1;\n" "/p/index.ts") []
      "export { a } from \"./a\";\n" log' ∧
    "const x = 1;".toList ∈ codeLines (lines "export { a } from \"./a\";\nconst x = 1;\n".toList) ∧
    "const x = 1;".toList ∉ lines "export { a } from \"./a\";\n".toList := by
  obtain ⟨log', h⟩ := exists_yields_of_run (p := []) (a := "export { a } from \"./a\";\n")
    (x := Transformer.process ⟨({} : MemoryFiles).files, {}, ["index.ts"]⟩
      "export { a } from \"./a\";\nconst x = 1;\n" "/p/index.ts") (by decide +kernel)
  exact ⟨log', h, by decide +kernel, by decide +kernel⟩

end Reexport
