import Reexport.Proofs.Arrangement
import Reexport.Proofs.Runs
import Reexport.Transform

/-!
# The stages of a transformation

When barrels are followed, a barrel goes through three stages: its entries are found, those of one
identity are dropped but for the first, and the rest is sorted. Only the first stage looks at other
modules; the others report what they do and always end.

## What is proved

* `arranged_staged` — the last stages leave entries that went through them and were written as they
  are written.
* `staged_of_collect`, `barrelText_of_transform` — whatever the options, the entries of a barrel are
  what the last stages leave of those found, and its text is that of these entries.
* `rewrites_iff` — where barrels are followed, the new text of a file is that of the entries found,
  after the stages that are on. No other text is given, and this one is given whenever the entries are
  found.
-/

namespace Reexport

/-! ### Entries after the stages -/

namespace Options

/-- The entries without duplicates, if they are to be dropped. -/
def kept (o : Options) (entries : List Entry) : List Entry :=
  if o.removeDuplicates then distinct entries else entries

/-- The entries that are left of those found, in the order in which they are left. -/
def staged (o : Options) (entries : List Entry) : List Entry :=
  if o.sort then sorted (o.kept entries) else o.kept entries

variable {o : Options} {entries : List Entry} {x : Entry}

theorem mem_staged_iff : x ∈ o.staged entries ↔ x ∈ o.kept entries := by
  unfold staged
  split
  · exact (sorted_perm _).mem_iff
  · exact .rfl

/-- Nothing is left but what was found. -/
theorem mem_of_mem_staged (h : x ∈ o.staged entries) : x ∈ entries := by
  rw [mem_staged_iff, kept] at h
  split at h
  · exact mem_of_mem_firsts h
  · exact h

/-- An entry of every identity is left. -/
theorem exists_mem_staged (h : x ∈ entries) :
    ∃ y ∈ o.staged entries, y.identity = x.identity := by
  simp only [mem_staged_iff, kept]
  split
  · exact List.mem_map.1 (mem_map_firsts_iff.2 (List.mem_map_of_mem h))
  · exact ⟨x, h, rfl⟩

theorem staged_ne_nil (h : entries ≠ []) : o.staged entries ≠ [] := by
  obtain ⟨x, hx⟩ := List.exists_mem_of_ne_nil _ h
  obtain ⟨y, hy, -⟩ := exists_mem_staged (o := o) hx
  exact List.ne_nil_of_mem hy

theorem staged_nil (o : Options) : o.staged [] = [] := by
  by_contra h
  obtain ⟨x, hx⟩ := List.exists_mem_of_ne_nil _ h
  exact List.not_mem_nil (mem_of_mem_staged hx)

/-- Entries that were written after the stages hold no duplicate that would be dropped. -/
theorem kept_of_unplaced {written : List Entry}
    (h : written.map Entry.unplaced = arranged (o.staged entries)) : o.kept written = written := by
  unfold kept
  split
  · rename_i hon
    have hapart : ∀ x ∈ o.staged entries, ∀ y ∈ o.staged entries, x.identity = y.identity →
        x = y := by
      intro x hx y hy heq
      rw [mem_staged_iff, kept, if_pos hon] at hx hy
      exact List.inj_on_of_nodup_map (nodup_map_firsts Entry.identity entries) hx hy heq
    have hidentities : written.map Entry.identity =
        (arranged (o.staged entries)).map Entry.identity := by
      rw [← h, List.map_map]
      rfl
    refine firsts_of_nodup ?_
    rw [hidentities]
    refine (nodup_arranged _).map_on fun x hx y hy heq => ?_
    obtain ⟨e, he, rfl⟩ := List.mem_map.1 (mem_arranged_iff.1 hx)
    obtain ⟨e', he', rfl⟩ := List.mem_map.1 (mem_arranged_iff.1 hy)
    rw [hapart e he e' he' heq]
  · rfl

/-- **The stages are passed once**: entries that went through them and were written are left, and
written, as they are. -/
theorem arranged_staged {written : List Entry}
    (h : written.map Entry.unplaced = arranged (o.staged entries)) :
    arranged (o.staged written) = arranged (o.staged entries) := by
  have hkept := kept_of_unplaced h
  unfold staged at h ⊢
  rw [hkept]
  by_cases hsort : o.sort = true
  · rw [if_pos hsort] at h ⊢
    rw [if_pos hsort]
    exact arranged_sorted_of_unplaced h
  · rw [if_neg hsort] at h ⊢
    rw [if_neg hsort, ← arranged_map_unplaced, h, arranged_arranged]

end Options

/-! ### Runs that report -/

namespace Transforming

variable {α β : Type} {log log' : List Event}

theorem yields_report_iff {event : Event} {u : Unit} :
    Yields (report event) log u log' ↔ log' = log ++ [event] :=
  ⟨fun h => by cases h; rfl, fun h => by rw [h]; rfl⟩

/-- Following re-exports begins with nothing known. -/
theorem yields_resolving_iff {run : Resolving α} {a : α} :
    Yields (resolving run) log a log' ↔ ∃ q, Yields run ⟨{}, log⟩ a q ∧ log' = q.log := by
  have hrun : (resolving run).run.run log =
      (((run.run.run ⟨{}, log⟩).1).mapError .interrupted, (run.run.run ⟨{}, log⟩).2.log) := rfl
  unfold Yields
  rw [hrun]
  cases hr : run.run.run ⟨{}, log⟩ with
  | mk result q =>
    constructor
    · intro h
      cases result with
      | ok b =>
        cases h
        exact ⟨q, rfl, rfl⟩
      | error i => cases h
    · rintro ⟨q', h, rfl⟩
      cases h
      rfl

/-- The computation ends with the given result, whatever was reported before. -/
def Reports (x : Transforming α) (a : α) : Prop :=
  ∀ log, ∃ log', Yields x log a log'

theorem reports_pure (a : α) : Reports (pure a) a := fun log => ⟨log, rfl⟩

theorem reports_report (event : Event) : Reports (report event) () := fun _ => ⟨_, rfl⟩

theorem Reports.bind {x : Transforming α} {f : α → Transforming β} {a : α} {b : β}
    (hx : Reports x a) (hf : Reports (f a) b) : Reports (x >>= f) b := by
  intro log
  obtain ⟨o, ho⟩ := hx log
  obtain ⟨log', hb⟩ := hf o
  exact ⟨log', yields_bind_iff.2 ⟨a, o, ho, hb⟩⟩

/-- What comes before a computation that reports decides the result. -/
theorem exists_yields_bind_iff {x : Transforming α} {f : α → Transforming β} {g : α → β}
    (hf : ∀ a, Reports (f a) (g a)) {b : β} :
    (∃ log', Yields (x >>= f) log b log') ↔ ∃ a, (∃ o, Yields x log a o) ∧ b = g a := by
  constructor
  · rintro ⟨log', h⟩
    obtain ⟨a, o, hx, h⟩ := yields_bind_iff.1 h
    obtain ⟨log'', hg⟩ := hf a o
    exact ⟨a, ⟨o, hx⟩, (h.unique hg).1⟩
  · rintro ⟨a, ⟨o, hx⟩, rfl⟩
    obtain ⟨log', hg⟩ := hf a o
    exact ⟨log', yields_bind_iff.2 ⟨a, o, hx, hg⟩⟩

end Transforming

/-! ### Transformers -/

namespace Transformer

open Transforming

variable {t : Transformer} {path source out : String} {entries : List Entry}

/-- The new text of the file at a path is `out`. -/
def Rewrites (t : Transformer) (path out : String) : Prop :=
  ∃ log, Yields (t.processFile path) [] out log

/-- The entries found for a barrel with the text `source`, before any are dropped or sorted. -/
def Finds (t : Transformer) (source path : String) (found : List Entry) : Prop :=
  ∃ q, Yields (t.resolver.resolveSource source path) ⟨{}, [.started path]⟩ found q

theorem reports_removeDuplicates (t : Transformer) (path : String) (entries : List Entry) :
    Reports (t.removeDuplicates path entries) (t.options.kept entries) := by
  unfold removeDuplicates Options.kept
  cases t.options.removeDuplicates with
  | false => exact reports_pure _
  | true =>
    show Reports (do
      if (distinct entries).length < entries.length then
        report (.duplicatesRemoved path (entries.length - (distinct entries).length))
      return distinct entries) (distinct entries)
    split
    · exact (reports_report _).bind (reports_pure _)
    · exact reports_pure _

theorem reports_sort (t : Transformer) (path : String) (entries : List Entry) :
    Reports (t.sort path entries) (if t.options.sort then sorted entries else entries) := by
  unfold sort
  cases t.options.sort with
  | false => exact reports_pure _
  | true => exact (reports_report _).bind (reports_pure _)

theorem reports_staged (t : Transformer) (path : String) (entries : List Entry) : Reports (do
    let entries ← t.removeDuplicates path entries
    t.sort path entries) (t.options.staged entries) :=
  (reports_removeDuplicates t path entries).bind (reports_sort t path _)

/-- No namespace is written out unless that is asked for, and left to this stage. -/
theorem nameStars_eq_pure (h : t.options.nameStars = false ∨ t.options.resolveBarrels = true)
    (path : String) (entries : List Entry) : t.nameStars path entries = pure entries := by
  have hoff : (t.options.nameStars && !t.options.resolveBarrels) = false := by
    rcases h with h | h <;> simp [h]
  unfold nameStars
  rw [hoff]
  rfl

/-- What comes after the entries are found. -/
theorem reports_collected (h : t.options.nameStars = false ∨ t.options.resolveBarrels = true)
    (path : String) (found : List Entry) : Reports (do
      report (.collected path found.length (found.countP (·.isTypeOnly))
        (found.countP (·.isBareStar)))
      if found.isEmpty then return found
      let entries ← t.nameStars path found
      let entries ← t.removeDuplicates path entries
      t.sort path entries) (t.options.staged found) := by
  refine (reports_report _).bind ?_
  cases found with
  | nil =>
    rw [Options.staged_nil]
    exact reports_pure _
  | cons e rest =>
    rw [nameStars_eq_pure h, pure_bind]
    exact reports_staged t path _

/-- What comes after the entries are collected. Without entries the text of a barrel is the one
before. -/
theorem reports_written (source path : String) (left : List Entry) : Reports (do
    if left.isEmpty then
      report (.nothingFound path)
      return (source, left)
    let text := barrelText source left
    if text ≠ source then report (.transformed path text.length)
    return (text, left)) (barrelText source left, left) := by
  split
  · rename_i hempty
    rw [barrelText, if_pos hempty]
    exact (reports_report _).bind (reports_pure _)
  · show Reports (do
      if barrelText source left ≠ source then
        report (.transformed path (barrelText source left).length)
      return (barrelText source left, left)) (barrelText source left, left)
    split
    · exact (reports_report _).bind (reports_pure _)
    · exact reports_pure _

/-- The entries of a barrel are found, perhaps with their namespaces written out, and go through the
last stages. -/
theorem staged_of_collect {log log' : List Event}
    (h : Yields (t.collect source path) log entries log') : ∃ found named,
      (∃ o, Yields (t.entriesOf source path) log found o) ∧
      (named = found ∨ ∃ o o', Yields (t.nameStars path found) o named o') ∧
      entries = t.options.staged named := by
  obtain ⟨found, o, hfound, h⟩ := yields_bind_iff.1 h
  obtain ⟨_, o', -, h⟩ := yields_bind_iff.1 h
  split at h
  · rename_i hempty
    obtain ⟨rfl, -⟩ := yields_pure_iff.1 h
    refine ⟨entries, entries, ⟨o, hfound⟩, .inl rfl, ?_⟩
    rw [List.isEmpty_iff.1 hempty, Options.staged_nil]
  · obtain ⟨named, o₁, hnamed, h⟩ := yields_bind_iff.1 h
    obtain ⟨o₂, hstaged⟩ := reports_staged t path named o₁
    exact ⟨found, named, ⟨o, hfound⟩, .inr ⟨_, _, hnamed⟩, (h.unique hstaged).1⟩

/-- The text is that of the entries, and these are collected unless the file is no barrel. -/
theorem barrelText_of_transform {log log' : List Event} {text : String}
    (h : Yields (t.transform source path) log (text, entries) log') :
    text = barrelText source entries ∧
      (entries ≠ [] → ∃ o o', Yields (t.collect source path) o entries o') := by
  unfold transform at h
  split at h
  · cases (yields_pure_iff.1 h).1
    exact ⟨rfl, absurd rfl⟩
  obtain ⟨_, o, -, h⟩ := yields_bind_iff.1 h
  obtain ⟨left, o', hleft, h⟩ := yields_bind_iff.1 h
  obtain ⟨o₁, hwritten⟩ := reports_written source path left o'
  have hpair := (h.unique hwritten).1
  rw [Prod.mk.injEq] at hpair
  obtain ⟨rfl, rfl⟩ := hpair
  exact ⟨rfl, fun _ => ⟨o, o', hleft⟩⟩

/-- When barrels are followed, the entries of a barrel are those found, after the other stages. -/
theorem exists_collect_iff (hon : t.options.resolveBarrels = true) {log : List Event} :
    (∃ log', Yields (t.collect source path) log entries log') ↔ ∃ found,
      (∃ q, Yields (t.resolver.resolveSource source path) ⟨{}, log⟩ found q) ∧
        entries = t.options.staged found := by
  have hfound (found : List Entry) : (∃ o, Yields (t.entriesOf source path) log found o) ↔
      ∃ q, Yields (t.resolver.resolveSource source path) ⟨{}, log⟩ found q := by
    unfold entriesOf
    rw [if_pos hon]
    simp only [yields_resolving_iff]
    constructor
    · rintro ⟨o, q, h, -⟩
      exact ⟨q, h⟩
    · rintro ⟨q, h⟩
      exact ⟨q.log, q, h, rfl⟩
  unfold collect
  rw [exists_yields_bind_iff (reports_collected (.inr hon) path)]
  simp only [hfound]

/-- A text is there only for a file that can be read. -/
theorem yields_readFile_iff {log log' : List Event} :
    Yields (t.readFile path) log source log' ↔ t.files.read path = .ok source ∧ log' = log := by
  unfold readFile
  cases t.files.read path with
  | ok content =>
    rw [yields_pure_iff, Except.ok.injEq, eq_comm]
  | error why =>
    simp only [reduceCtorEq, false_and, iff_false]
    intro h
    cases why with
    | absent | locked | refused _ | unnamable | broken _ => cases h
    | tooLarge size limit => cases h

/-- A barrel is written with the entries that are left. -/
theorem exists_transform_iff (hon : t.options.resolveBarrels = true)
    (hname : t.isBarrelFile path = true) {r : String × List Entry} :
    (∃ log, Yields (t.transform source path) [] r log) ↔ ∃ found, t.Finds source path found ∧
      r = (barrelText source (t.options.staged found), t.options.staged found) := by
  have hstart {f : Unit → Transforming (String × List Entry)} :
      (∃ log, Yields (report (.started path) >>= f) [] r log) ↔
        ∃ log, Yields (f ()) [.started path] r log := by
    constructor
    · rintro ⟨log, h⟩
      obtain ⟨_, o, ho, h⟩ := yields_bind_iff.1 h
      rw [yields_report_iff.1 ho] at h
      exact ⟨log, h⟩
    · rintro ⟨log, h⟩
      exact ⟨log, yields_bind_iff.2 ⟨(), _, yields_report_iff.2 rfl, h⟩⟩
  unfold transform
  rw [hname]
  refine hstart.trans ((exists_yields_bind_iff (reports_written source path)).trans ?_)
  simp only [exists_collect_iff hon]
  constructor
  · rintro ⟨_, ⟨found, hfound, rfl⟩, rfl⟩
    exact ⟨found, hfound, rfl⟩
  · rintro ⟨found, hfound, rfl⟩
    exact ⟨_, ⟨found, hfound, rfl⟩, rfl⟩

/-- **The new text of a barrel** is that of the entries found, after the stages that are on. -/
theorem rewrites_iff (hon : t.options.resolveBarrels = true)
    (hname : t.isBarrelFile path = true) : t.Rewrites path out ↔ ∃ source found,
      t.files.read path = .ok source ∧ t.Finds source path found ∧
        out = barrelText source (t.options.staged found) := by
  have hprocess (source : String) : (∃ log, Yields (t.process source path) [] out log) ↔
      ∃ found, t.Finds source path found ∧ out = barrelText source (t.options.staged found) := by
    refine (exists_yields_bind_iff fun _ => reports_pure _).trans ?_
    simp only [exists_transform_iff hon hname]
    constructor
    · rintro ⟨_, ⟨found, hfound, rfl⟩, rfl⟩
      exact ⟨found, hfound, rfl⟩
    · rintro ⟨found, hfound, rfl⟩
      exact ⟨_, ⟨found, hfound, rfl⟩, rfl⟩
  constructor
  · rintro ⟨log, h⟩
    obtain ⟨source, o, hsource, h⟩ := yields_bind_iff.1 h
    obtain ⟨hread, rfl⟩ := yields_readFile_iff.1 hsource
    obtain ⟨found, hfound, rfl⟩ := (hprocess source).1 ⟨log, h⟩
    exact ⟨source, found, hread, hfound, rfl⟩
  · rintro ⟨source, found, hread, hfound, rfl⟩
    obtain ⟨log, h⟩ := (hprocess source).2 ⟨found, hfound, rfl⟩
    exact ⟨log, yields_bind_iff.2 ⟨source, [], yields_readFile_iff.2 ⟨hread, rfl⟩, h⟩⟩

end Transformer

end Reexport
