import Reexport.Proofs.WriteBack
import Mathlib.Logic.Relation
import Mathlib.Data.List.Nodup

/-!
# Workers at work

The files of a batch are handed to workers that read the disk while they work and end in any order. A
worker may break off at any time, and every module that it reads it reads at a moment of its own. When
all have ended, their outcomes are concluded one after another in the order of the files, and what is
new is written back if that is asked for. A `Pool` is a batch under way, and `Pool.Step` says what can
happen next.

The invariant is that nothing is written as long as a worker is at work (`Pool.Sound.reading`). So all
disks that a worker has seen are the disk of the beginning.

## What is proved

* `Pool.Sound.step` — one step keeps the invariant.
* `Pool.sound_of_run` — so does every run.
* `Pool.eq_processAll` — every run that comes to its end comes to the results and the disk of
  `processAll`, for workers that see the disk of the beginning.
-/

namespace Reexport

variable {write : Disk → String → String → Except DiskFault Disk} {limit : Int} {o : Options}
  {names : List String} {files : List DiscoveredFile} {writing : Bool}

/-! ### Concluding -/

/-- The disk and the result after the outcome of a worker is concluded. -/
def conclude (write : Disk → String → String → Except DiskFault Disk) (writing : Bool) (d : Disk)
    (file : DiscoveredFile) (outcome : Except String FileResult) : Disk × FileResult :=
  let result := (settle file outcome).1
  if writing then ((writeBack write d file result).1, (writeBack write d file result).2.1)
  else (d, result)

/-- The disk and the results after outcomes are concluded one after another. -/
def concludeAll (write : Disk → String → String → Except DiskFault Disk) (writing : Bool) :
    Disk → List (DiscoveredFile × Except String FileResult) → Disk × List FileResult
  | d, [] => (d, [])
  | d, (file, outcome) :: rest =>
    let one := conclude write writing d file outcome
    let more := concludeAll write writing one.1 rest
    (more.1, one.2 :: more.2)

theorem concludeAll_concat (d : Disk) (pairs : List (DiscoveredFile × Except String FileResult))
    (file : DiscoveredFile) (outcome : Except String FileResult) :
    concludeAll write writing d (pairs ++ [(file, outcome)]) =
      let before := concludeAll write writing d pairs
      let one := conclude write writing before.1 file outcome
      (one.1, before.2 ++ [one.2]) := by
  induction pairs generalizing d with
  | nil => rfl
  | cons pair pairs ih =>
    rw [List.cons_append, concludeAll, ih]
    rfl

/-- Each result is that of its outcome on the disk that the ones before leave. -/
theorem getElem?_concludeAll (write : Disk → String → String → Except DiskFault Disk)
    (writing : Bool) (d : Disk) (pairs : List (DiscoveredFile × Except String FileResult)) (i : Nat) :
    (concludeAll write writing d pairs).2[i]? = pairs[i]?.map fun pair =>
      (conclude write writing (concludeAll write writing d (pairs.take i)).1 pair.1 pair.2).2 := by
  induction pairs generalizing d i with
  | nil => simp [concludeAll]
  | cons pair pairs ih =>
    cases i with
    | zero => rfl
    | succ i =>
      rw [concludeAll, List.getElem?_cons_succ, List.getElem?_cons_succ, List.take_succ_cons, ih]
      rfl

/-- The files with the results of their workers. -/
theorem zip_settled (worker : DiscoveredFile → Except String FileResult)
    (files : List DiscoveredFile) :
    files.zip ((files.map fun file => settle file (worker file)).map (·.1)) =
      files.map fun file => (file, (settle file (worker file)).1) := by
  rw [List.map_map, List.zip_eq_zipWith, List.zipWith_map_right, List.zipWith_self]
  rfl

/-- Without writing, the results are those of the workers. -/
theorem results_processAll_false (d : Disk) (worker : DiscoveredFile → Except String FileResult)
    (root : String) (files : List DiscoveredFile) :
    (processAll write d worker root files false).results =
      files.map fun file => (settle file (worker file)).1 :=
  List.map_map

/-- With writing, the results and the disk are those of writing the results of the workers. -/
theorem results_processAll_true (write : Disk → String → String → Except DiskFault Disk) (d : Disk)
    (worker : DiscoveredFile → Except String FileResult)
    (root : String) (files : List DiscoveredFile) :
    let written := writeAll write d (files.map fun file => (file, (settle file (worker file)).1))
    (processAll write d worker root files true).disk = written.1 ∧
      (processAll write d worker root files true).results = written.2.1 := by
  rw [← zip_settled]
  exact ⟨rfl, rfl⟩

/-- Concluding all outcomes is what processing the files comes to. -/
theorem concludeAll_eq (d : Disk) (worker : DiscoveredFile → Except String FileResult)
    (root : String) (files : List DiscoveredFile) :
    concludeAll write writing d (files.map fun file => (file, worker file)) =
      ((processAll write d worker root files writing).disk,
        (processAll write d worker root files writing).results) := by
  cases writing with
  | false =>
    rw [results_processAll_false]
    show _ = (d, _)
    induction files with
    | nil => rfl
    | cons file files ih =>
      rw [List.map_cons, concludeAll]
      show ((concludeAll write false d _).1, _ :: (concludeAll write false d _).2) = _
      rw [ih]
      rfl
  | true =>
    obtain ⟨hdisk, hresults⟩ := results_processAll_true write d worker root files
    rw [hdisk, hresults]
    clear hdisk hresults
    induction files generalizing d with
    | nil => rfl
    | cons file files ih =>
      rw [List.map_cons, concludeAll, List.map_cons, writeAll_cons]
      show ((concludeAll write true _ _).1, _ :: (concludeAll write true _ _).2) = _
      rw [ih]
      rfl

/-- The disk of a batch when the turn of the file at a position comes. -/
def diskAt (write : Disk → String → String → Except DiskFault Disk) (writing : Bool) (d : Disk)
    (worker : DiscoveredFile → Except String FileResult) (files : List DiscoveredFile) (i : Nat) :
    Disk :=
  (concludeAll write writing d ((files.map fun file => (file, worker file)).take i)).1

/-- Each result of a batch is that of the outcome of its file. -/
theorem getElem?_results_processAll (d : Disk) (worker : DiscoveredFile → Except String FileResult)
    (root : String) (files : List DiscoveredFile) (i : Nat) :
    (processAll write d worker root files writing).results[i]? = files[i]?.map fun file =>
      (conclude write writing (diskAt write writing d worker files i) file (worker file)).2 := by
  have hall := getElem?_concludeAll write writing d
    (files.map fun file => (file, worker file)) i
  rw [concludeAll_eq d worker root, List.getElem?_map, Option.map_map] at hall
  exact hall

/-! ### Steps -/

/-- Whether modules are seen as they were on disks, each on one of its own. -/
structure Seen (disks : List Disk) (limit : Int) (view : Files) : Prop where
  read : ∀ path, ∃ d ∈ disks, view.read path = d.read limit path
  holds : ∀ path, ∃ d ∈ disks, view.holds path = d.isFile path
  capacity : ∀ d ∈ disks, view.capacity = (d.files limit).capacity

/-- Places are the same if the same can be seen of them. -/
theorem Files.eq_of_seen {left right : Files} (hread : left.read = right.read)
    (hholds : left.holds = right.holds) (hcapacity : left.capacity = right.capacity) :
    left = right := by
  obtain ⟨read, holds, capacity, finite⟩ := left
  subst hread hholds hcapacity
  rfl

/-- If there is but one disk, its modules are seen. -/
theorem Seen.eq {disks : List Disk} {view : Files} (h : Seen disks limit view) {d : Disk}
    (hsame : ∀ d' ∈ disks, d' = d) : view = d.files limit := by
  have hread : view.read = d.read limit := by
    funext path
    obtain ⟨d', hd', hpath⟩ := h.read path
    rw [hpath, hsame d' hd']
  have hholds : view.holds = d.isFile := by
    funext path
    obtain ⟨d', hd', hpath⟩ := h.holds path
    rw [hpath, hsame d' hd']
  have hcapacity : view.capacity = (d.files limit).capacity := by
    obtain ⟨d', hd', -⟩ := h.read ""
    rw [h.capacity d' hd', hsame d' hd']
  exact Files.eq_of_seen hread hholds hcapacity

/-- A batch under way. -/
structure Pool where
  /-- The disk. -/
  disk : Disk
  /-- The disks so far, the present one among them. -/
  past : List Disk
  /-- The outcomes of the workers in the order of their files, where they have ended. -/
  outcomes : List (Option (Except String FileResult))
  /-- The results that are concluded, in the order of their files. -/
  results : List FileResult

namespace Pool

/-- The batch at its beginning. -/
def start (d : Disk) (files : List DiscoveredFile) : Pool :=
  ⟨d, [d], files.map fun _ => none, []⟩

/-- What can happen in a batch. -/
inductive Step (write : Disk → String → String → Except DiskFault Disk) (limit : Int) (o : Options)
    (names : List String) (files : List DiscoveredFile) (writing : Bool) : Pool → Pool → Prop where
  /-- A worker ends, which has seen every module at some moment up to now. -/
  | finish {p : Pool} {i : Nat} {file : DiscoveredFile} {view : Files}
    {outcome : Except String FileResult} (hfile : files[i]? = some file)
    (hworking : p.outcomes[i]? = some none) (hview : Seen p.past limit view)
    (houtcome : IsOutcome ⟨view, o, names⟩ file outcome) :
    Step write limit o names files writing p { p with outcomes := p.outcomes.set i (some outcome) }
  /-- All workers have ended, and the next outcome is concluded. -/
  | conclude {p : Pool} {outcomes : List (Except String FileResult)} {file : DiscoveredFile}
    {outcome : Except String FileResult} (hended : p.outcomes = outcomes.map some)
    (hfile : files[p.results.length]? = some file)
    (houtcome : outcomes[p.results.length]? = some outcome) :
    Step write limit o names files writing p { p with
      disk := (Reexport.conclude write writing p.disk file outcome).1
      past := (Reexport.conclude write writing p.disk file outcome).1 :: p.past
      results := p.results ++ [(Reexport.conclude write writing p.disk file outcome).2] }

/-- What holds of a batch at any time that began with a disk. -/
structure Sound (write : Disk → String → String → Except DiskFault Disk) (limit : Int) (o : Options)
    (names : List String) (files : List DiscoveredFile) (writing : Bool) (d : Disk) (p : Pool) :
    Prop where
  length : p.outcomes.length = files.length
  /-- Workers that have ended give the results of their files on the disk of the beginning. -/
  outcome : ∀ {i : Nat} {file : DiscoveredFile} {outcome : Except String FileResult},
    files[i]? = some file → p.outcomes[i]? = some (some outcome) →
      IsOutcome ⟨d.files limit, o, names⟩ file outcome
  /-- Before the first result, nothing is written. -/
  reading : p.results = [] → p.disk = d ∧ ∀ d' ∈ p.past, d' = d
  /-- There are results only when all workers have ended. -/
  ended : p.results ≠ [] → ∃ outcomes : List (Except String FileResult),
    p.outcomes = outcomes.map some
  /-- The results are those of the first outcomes. -/
  concluded : ∀ {outcomes : List (Except String FileResult)}, p.outcomes = outcomes.map some →
    (p.disk, p.results) = concludeAll write writing d ((files.zip outcomes).take p.results.length)

theorem sound_start (d : Disk) : Sound write limit o names files writing d (start d files) where
  length := by simp [start]
  outcome _ h := by simp [start, List.getElem?_replicate] at h
  reading _ := ⟨rfl, by simp [start]⟩
  ended h := absurd rfl h
  concluded _ := rfl

/-- **One step keeps the invariant.** -/
theorem Sound.step {d : Disk} {p q : Pool} (h : Sound write limit o names files writing d p)
    (hstep : Step write limit o names files writing p q) :
    Sound write limit o names files writing d q := by
  cases hstep with
  | @finish i file view outcome hfile hworking hview houtcome =>
    -- A worker is at work, so no outcome is concluded and nothing is written.
    have hnone : p.results = [] := by
      by_contra hsome
      obtain ⟨outcomes, hended⟩ := h.ended hsome
      simp [hended] at hworking
    obtain ⟨hdisk, hpast⟩ := h.reading hnone
    obtain rfl := hview.eq hpast
    refine ⟨by simpa using h.length, fun {j other result} hother hresult => ?_, h.reading,
      fun hsome => absurd hnone hsome, fun {outcomes} _ => ?_⟩
    · by_cases hj : j = i
      · subst hj
        have hlt : j < p.outcomes.length := (List.getElem?_eq_some_iff.1 hworking).1
        obtain rfl : outcome = result := by simpa [hlt] using hresult
        obtain rfl : file = other := Option.some.inj (hfile.symm.trans hother)
        exact houtcome
      · rw [List.getElem?_set_ne (Ne.symm hj)] at hresult
        exact h.outcome hother hresult
    · show (p.disk, p.results) = _
      rw [hnone, hdisk]
      rfl
  | @conclude outcomes file outcome hended hfile houtcome =>
    refine ⟨h.length, h.outcome, fun hnone => by simp at hnone, fun _ => ⟨outcomes, hended⟩,
      fun {others} hothers => ?_⟩
    obtain rfl : others = outcomes :=
      List.map_injective_iff.2 (fun _ _ => Option.some.inj) (hothers.symm.trans hended)
    have hbefore := h.concluded hended
    have hnext : (files.zip others)[p.results.length]? = some (file, outcome) :=
      List.getElem?_zip_eq_some.2 ⟨hfile, houtcome⟩
    have hlength : (p.results ++ [(Reexport.conclude write writing p.disk file outcome).2]).length =
        p.results.length + 1 := by simp
    show (_, _) = _
    dsimp only
    rw [hlength, List.take_add_one, hnext, Option.toList_some, concludeAll_concat, ← hbefore]

/-- **Every run keeps the invariant.** -/
theorem sound_of_run {d : Disk} {p : Pool}
    (h : Relation.ReflTransGen (Step write limit o names files writing) (start d files) p) :
    Sound write limit o names files writing d p := by
  induction h with
  | refl => exact sound_start d
  | tail _ hstep ih => exact ih.step hstep

/-- All workers have ended when all results are there. -/
theorem Sound.ended_of_length {d : Disk} {p : Pool}
    (h : Sound write limit o names files writing d p) (hall : p.results.length = files.length) :
    ∃ outcomes : List (Except String FileResult), p.outcomes = outcomes.map some := by
  by_cases hnone : p.results = []
  · refine ⟨[], List.length_eq_zero_iff.1 ?_⟩
    rw [h.length, ← hall, hnone]
    rfl
  · exact h.ended hnone

/-- No file is there twice, so an outcome is found again by its file. -/
theorem exists_worker {outcomes : List (Except String FileResult)}
    (hlength : outcomes.length = files.length) (hnodup : files.Nodup) :
    ∃ worker : DiscoveredFile → Except String FileResult,
      files.zip outcomes = files.map (fun file => (file, worker file)) ∧
        ∀ file ∉ files, worker file = .error "" := by
  refine ⟨fun file => (outcomes[files.idxOf file]?).getD (.error ""), ?_, fun file hnot => ?_⟩
  · apply List.ext_getElem
    · simp [hlength]
    · intro i hi _
      have hlt : i < files.length := by
        rw [List.length_zip, hlength, Nat.min_self] at hi
        exact hi
      simp [hnodup.idxOf_getElem, hlength, hlt]
  · have hbehind : outcomes.length ≤ files.idxOf file := by
      rw [hlength, List.idxOf_of_notMem hnot]
    simp only [List.getElem?_eq_none hbehind, Option.getD_none]

/-- **Every schedule comes to the same.** A run that has come to its end leaves the results and the disk
that `processAll` gives for workers that see the disk of the beginning. -/
theorem eq_processAll {d : Disk} {p : Pool}
    (h : Relation.ReflTransGen (Step write limit o names files writing) (start d files) p)
    (hall : p.results.length = files.length) (hnodup : files.Nodup) (root : String) :
    ∃ worker : DiscoveredFile → Except String FileResult,
      (∀ file, IsOutcome ⟨d.files limit, o, names⟩ file (worker file)) ∧
        p.disk = (processAll write d worker root files writing).disk ∧
          p.results = (processAll write d worker root files writing).results := by
  have hsound := sound_of_run h
  obtain ⟨outcomes, hended⟩ := hsound.ended_of_length hall
  have hlength : outcomes.length = files.length := by
    rw [← hsound.length, hended, List.length_map]
  obtain ⟨worker, hzip, hother⟩ := exists_worker hlength hnodup
  refine ⟨worker, fun file r hr => ?_, ?_⟩
  · by_cases hmem : file ∈ files
    · obtain ⟨i, hi⟩ := List.mem_iff_getElem?.1 hmem
      have hpair : (files.zip outcomes)[i]? = some (file, worker file) := by
        rw [hzip, List.getElem?_map, hi]
        rfl
      have hout : p.outcomes[i]? = some (some (worker file)) := by
        rw [hended, List.getElem?_map, (List.getElem?_zip_eq_some.1 hpair).2]
        rfl
      exact hsound.outcome hi hout r hr
    · rw [hother file hmem] at hr
      cases hr
  · have hdone := hsound.concluded hended
    rw [hall, List.take_of_length_le (by simp), hzip, concludeAll_eq d worker root] at hdone
    exact Prod.ext_iff.1 hdone

end Pool

end Reexport
