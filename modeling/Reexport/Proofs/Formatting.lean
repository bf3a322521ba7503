import Reexport.Files.Memory
import Reexport.Proofs.RoundTrip
import Reexport.Proofs.Stages

/-!
# Formatting a barrel

Where no other barrels are followed and no namespaces are written out, a transformation looks at
nothing but the text of the barrel. The entries are read from it, duplicates are dropped and the rest
is sorted as far as the options ask for it, and what is left is written: `Options.formatted` is the
new text as a function of the old one.

Each of these steps leaves alone what it did before. The new text is read as the entries that were
written, in the order of writing, and its prologue is the old one. Those entries hold no duplicates
that are still to be dropped, and a stable sort does not move them within what is written in one
place. Entries that share an exported name under different specifiers are no exception, although
sorting does not tell them apart.

## What is proved

* `formatted_formatted` — formatting is idempotent, on every text.
* `reports_process` — a transformation with these options always ends, with the formatted text.
* `process_idempotent` — so a second transformation gives the text of the first.
-/

namespace Reexport

open Text

/-- The text of a barrel after its own entries went through the last stages. -/
def Options.formatted (o : Options) (source : String) : String :=
  barrelText source (o.staged (moduleEntries source))

theorem barrelText_nil (source : String) : barrelText source [] = source := rfl

/-- **Formatting is idempotent.** -/
theorem formatted_formatted (o : Options) (source : String) :
    o.formatted (o.formatted source) = o.formatted source := by
  by_cases hnone : o.staged (moduleEntries source) = []
  · have hsame : o.formatted source = source := by
      rw [Options.formatted, hnone, barrelText_nil]
    rw [hsame, hsame]
  · have hread : ∀ e ∈ o.staged (moduleEntries source), e.WellFormed := by
      intro e he
      exact wellFormed_of_mem_moduleEntries (Options.mem_of_mem_staged he)
    have hwritten : (moduleEntries (o.formatted source)).map Entry.unplaced =
        arranged (o.staged (moduleEntries source)) :=
      unplaced_moduleEntries_barrelText source hnone hread
    have hprologue : prologue (o.formatted source).toList = prologue source.toList :=
      prologue_barrelText source hnone hread
    have hsome : o.staged (moduleEntries (o.formatted source)) ≠ [] := by
      apply Options.staged_ne_nil
      intro hnil
      obtain ⟨e, he⟩ := List.exists_mem_of_ne_nil _ hnone
      have hmem : e.unplaced ∈ arranged (o.staged (moduleEntries source)) :=
        mem_arranged_iff.2 (List.mem_map_of_mem he)
      simp [← hwritten, hnil] at hmem
    calc o.formatted (o.formatted source)
        = barrelText source (o.staged (moduleEntries (o.formatted source))) :=
          barrelText_congr hsome hprologue
      _ = barrelText source (arranged (o.staged (moduleEntries (o.formatted source)))) :=
          (barrelText_arranged source _).symm
      _ = barrelText source (arranged (o.staged (moduleEntries source))) := by
          rw [Options.arranged_staged hwritten]
      _ = o.formatted source := barrelText_arranged source _

namespace Transformer

open Transforming

variable {t : Transformer}

/-- The entries of a barrel are those of its text. -/
theorem reports_entriesOf (hresolve : t.options.resolveBarrels = false) (source path : String) :
    Reports (t.entriesOf source path) (moduleEntries source) := by
  unfold entriesOf
  rw [hresolve]
  exact reports_pure _

/-- A transformation that looks at no other module ends, and formats the text of a barrel. -/
theorem reports_process (hresolve : t.options.resolveBarrels = false)
    (hnames : t.options.nameStars = false) (source path : String) :
    Reports (t.process source path)
      (if t.isBarrelFile path = true then t.options.formatted source else source) := by
  have htransform : Reports (t.transform source path)
      (if t.isBarrelFile path = true then (t.options.formatted source,
        t.options.staged (moduleEntries source)) else (source, [])) := by
    unfold transform
    cases t.isBarrelFile path with
    | false => exact reports_pure _
    | true =>
      refine (reports_report _).bind ?_
      refine Reports.bind ?_ (reports_written source path _)
      exact (reports_entriesOf hresolve source path).bind (reports_collected (.inl hnames) path _)
  have hpair : (if t.isBarrelFile path = true then (t.options.formatted source,
      t.options.staged (moduleEntries source)) else (source, [])).1 =
        if t.isBarrelFile path = true then t.options.formatted source else source := by
    split <;> rfl
  rw [← hpair]
  exact htransform.bind (reports_pure _)

end Transformer

/-- **Plain formatting is idempotent.** Where other barrels are not followed and namespaces are not
written out, whatever the other options, a transformation ends, and a transformation of its result
gives that result. -/
theorem process_idempotent (t : Transformer) (hresolve : t.options.resolveBarrels = false)
    (hnames : t.options.nameStars = false) (source path : String) :
    ∃ out, Transforming.Reports (t.process source path) out ∧
      Transforming.Reports (t.process out path) out := by
  have hprocess (text : String) := Transformer.reports_process hresolve hnames text path
  by_cases hname : t.isBarrelFile path = true
  · simp only [if_pos hname] at hprocess
    refine ⟨t.options.formatted source, hprocess source, ?_⟩
    have hagain := hprocess (t.options.formatted source)
    rwa [formatted_formatted] at hagain
  · simp only [if_neg hname] at hprocess
    exact ⟨source, hprocess source, hprocess source⟩

/-- A barrel with lines ended in three ways, other code, and a name exported three times. -/
def untidyText : String :=
  "// all\r\nimport \"./x\";\u2028export { b as z, a as z, type q } from './y'\u000b" ++
    "export * from \"./a\";\nconst n = 1;\nexport { z } from \"./y\"; export { default } from \"./y\";\n" ++
    "export type { q } from \"./y\""

/-- The barrel after it was formatted. -/
def tidyText : String :=
  "import \"./x\";\nexport { b as z, a as z, z } from \"./y\";\n" ++
    "export type { q } from \"./y\";\nexport * from \"./a\";\n"

/-- With duplicates kept, the entries of one exported name keep their order in the second run. -/
theorem process_idempotent_untidy :
    (⟨false, false, false, false⟩ : Options).resolveBarrels = false ∧
    (⟨false, false, false, false⟩ : Options).nameStars = false ∧ ∃ out,
      Transforming.Reports (Transformer.process ⟨({} : MemoryFiles).files,
        ⟨false, false, false, false⟩, ["index.ts"]⟩ untidyText "/p/index.ts") out ∧
      Transforming.Reports (Transformer.process ⟨({} : MemoryFiles).files,
        ⟨false, false, false, false⟩, ["index.ts"]⟩ out "/p/index.ts") out ∧
      out = tidyText ∧ out ≠ untidyText := by
  obtain ⟨out, hfirst, hsecond⟩ := process_idempotent
    ⟨({} : MemoryFiles).files, ⟨false, false, false, false⟩, ["index.ts"]⟩ rfl rfl untidyText
    "/p/index.ts"
  obtain ⟨log, hrun⟩ := hfirst []
  obtain ⟨log', hexpected⟩ := exists_yields_of_run (p := []) (a := tidyText)
    (x := Transformer.process ⟨({} : MemoryFiles).files, ⟨false, false, false, false⟩,
      ["index.ts"]⟩ untidyText "/p/index.ts") (by decide +kernel)
  obtain rfl : out = tidyText := (hrun.unique hexpected).1
  exact ⟨rfl, rfl, _, hfirst, hsecond, rfl, by decide⟩

end Reexport
