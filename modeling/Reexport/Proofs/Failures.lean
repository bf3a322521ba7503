import Reexport.Command
import Reexport.Proofs.Snapshot

/-!
# Failures of a batch

A file of a batch fails in one of three ways: its worker breaks off, the file cannot be read, or its
new text cannot be written on the disk as it is when its turn comes. What went wrong is a text, and
whatever becomes of the other files, the result of a file holds the text with which it fails.

The command takes a text that is empty for none. Failures to read and to write always have words, but
a worker can break off without any, and then its file is passed for one that is as it should be.

## What is proved

* `conclude_error_iff` — the result of a file holds the text with which it fails.
* `error_processAll_iff` — so does every result of a batch.
* `finishDirectory_says_iff` — the command tells failures with words from all else, and so tells all
  failures exactly if no worker breaks off without words.
* `finishDirectory_hides` — a file that fails without words is said to be unchanged.
-/

namespace Reexport

variable {write : Disk → String → String → Except DiskFault Disk} {t : Transformer} {writing : Bool}
  {d : Disk}

/-! ### One file -/

/-- How a file fails whose turn comes on a disk, with what text. -/
inductive Fails (write : Disk → String → String → Except DiskFault Disk) (t : Transformer)
    (writing : Bool) (d : Disk) (file : DiscoveredFile) :
    Except String FileResult → String → Prop where
  /-- Its worker breaks off. -/
  | broken (text : String) : Fails write t writing d file (.error text) text
  /-- It cannot be read. -/
  | unreadable {r : FileResult} {path : String} {why : Unreadable}
    (hrun : ((t.transformFile file.absolutePath).run []).1 = .error (.unreadable path why)) :
    Fails write t writing d file (.ok r) (why.message path)
  /-- Its new text cannot be written. -/
  | unwritable {r : FileResult} {transformed : Transformed} {fault : DiskFault}
    (hwriting : writing = true)
    (hrun : ((t.transformFile file.absolutePath).run []).1 = .ok transformed)
    (hchanged : transformed.changed = true)
    (hrefused : write d file.absolutePath transformed.text = .error fault) :
    Fails write t writing d file (.ok r)
      ("Cannot write " ++ file.absolutePath ++ ": " ++ fault.message file.absolutePath)

/-- Only a worker that breaks off can leave no words. -/
theorem Fails.eq_error {file : DiscoveredFile} {outcome : Except String FileResult}
    (h : Fails write t writing d file outcome "") : outcome = .error "" := by
  generalize htext : "" = text at h
  cases h with
  | broken => rfl
  | unreadable => simp [Unreadable.message, ← String.toList_inj] at htext
  | unwritable => simp [← String.toList_inj] at htext

section File

variable {file : DiscoveredFile} {r : FileResult} {transformed : Transformed} {text : String}

theorem fails_error_iff {words : String} :
    Fails write t writing d file (.error words) text ↔ words = text := by
  constructor
  · rintro ⟨⟩
    rfl
  · rintro rfl
    exact .broken words

theorem fails_unreadable_iff {path : String} {why : Unreadable}
    (hrun : ((t.transformFile file.absolutePath).run []).1 = .error (.unreadable path why)) :
    Fails write t writing d file (.ok r) text ↔ why.message path = text := by
  constructor
  · intro h
    cases h with
    | unreadable hrun' =>
      obtain ⟨rfl, rfl⟩ : path = _ ∧ why = _ := by simpa [hrun] using hrun'
      rfl
    | unwritable _ hrun' => cases hrun.symm.trans hrun'
  · rintro rfl
    exact .unreadable hrun

theorem fails_transformed_iff
    (hrun : ((t.transformFile file.absolutePath).run []).1 = .ok transformed) :
    Fails write t writing d file (.ok r) text ↔ writing = true ∧ transformed.changed = true ∧
      ∃ fault, write d file.absolutePath transformed.text = .error fault ∧
        "Cannot write " ++ file.absolutePath ++ ": " ++ fault.message file.absolutePath = text := by
  constructor
  · intro h
    cases h with
    | unreadable hrun' => cases hrun.symm.trans hrun'
    | unwritable hwriting hrun' hchanged hrefused =>
      obtain rfl := Except.ok.inj (hrun.symm.trans hrun')
      exact ⟨hwriting, hchanged, _, hrefused, rfl⟩
  · rintro ⟨hwriting, hchanged, fault, hrefused, rfl⟩
    exact .unwritable hwriting hrun hchanged hrefused

theorem conclude_of_content_none {outcome : Except String FileResult}
    (h : (settle file outcome).1.content = none) :
    conclude write writing d file outcome = (d, (settle file outcome).1) := by
  cases writing with
  | false => rfl
  | true => rw [conclude, if_pos rfl, writeBack_none h]

/-- **One file.** Its result holds the text with which it fails, and none if it does not fail. -/
theorem conclude_error_iff {outcome : Except String FileResult} (hout : IsOutcome t file outcome) :
    (conclude write writing d file outcome).2.error = some text ↔
      Fails write t writing d file outcome text := by
  cases outcome with
  | error words =>
    rw [conclude_of_content_none rfl, fails_error_iff]
    exact Option.some_inj
  | ok r =>
    rcases FileResult.ofFile_cases (hout r rfl) with
      ⟨transformed, hrun, -, -, -, herror, hcontent⟩ | ⟨path, why, hrun, rfl⟩
    · rw [fails_transformed_iff hrun]
      by_cases hnew : writing = true ∧ transformed.changed = true
      · obtain ⟨rfl, hchanged⟩ := hnew
        have hsettled : (settle file (.ok r)).1.content = some transformed.text :=
          hcontent.trans (if_pos hchanged)
        rw [conclude, if_pos rfl]
        cases hwrite : write d file.absolutePath transformed.text with
        | ok d' =>
          rw [writeBack_ok hsettled hwrite]
          simp [settle, herror]
        | error fault =>
          rw [writeBack_error hsettled hwrite]
          simp [hchanged]
      · -- Nothing is to be written, so nothing is refused.
        have hidle : (conclude write writing d file (.ok r)).2 = r := by
          cases writing with
          | false => rfl
          | true =>
            have hnone : (settle file (.ok r)).1.content = none :=
              hcontent.trans (if_neg fun hchanged => hnew ⟨rfl, hchanged⟩)
            rw [conclude_of_content_none hnone]
            rfl
        exact iff_of_false (by simp [hidle, herror]) fun h => hnew ⟨h.1, h.2.1⟩
    · rw [conclude_of_content_none rfl, fails_unreadable_iff hrun]
      exact Option.some_inj

end File

/-! ### All files -/

section Batch

variable {worker : DiscoveredFile → Except String FileResult} {files : List DiscoveredFile}

/-- How a file of a batch fails, which is given by its position. It is written after those before
it. -/
def FailsAt (write : Disk → String → String → Except DiskFault Disk) (t : Transformer)
    (writing : Bool) (d : Disk) (worker : DiscoveredFile → Except String FileResult)
    (files : List DiscoveredFile) (i : Nat) (text : String) : Prop :=
  ∃ file, files[i]? = some file ∧
    Fails write t writing (diskAt write writing d worker files i) file (worker file) text

/-- **All files.** The result at a position holds the text with which the file there fails. -/
theorem error_processAll_iff (hworker : ∀ file, IsOutcome t file (worker file)) (root : String)
    {i : Nat} {text : String} :
    (∃ r, (processAll write d worker root files writing).results[i]? = some r ∧
      r.error = some text) ↔ FailsAt write t writing d worker files i text := by
  rw [getElem?_results_processAll]
  simp only [Option.map_eq_some_iff]
  constructor
  · rintro ⟨r, ⟨file, hfile, rfl⟩, herror⟩
    exact ⟨file, hfile, (conclude_error_iff (hworker file)).1 herror⟩
  · rintro ⟨file, hfile, hfails⟩
    exact ⟨_, ⟨file, hfile, rfl⟩, (conclude_error_iff (hworker file)).2 hfails⟩

theorem relativePath_conclude {file : DiscoveredFile} {outcome : Except String FileResult}
    (hout : IsOutcome t file outcome) :
    (conclude write writing d file outcome).2.relativePath = file.relativePath := by
  rw [← (settle_unwritten hout).1]
  cases hcontent : (settle file outcome).1.content with
  | none => rw [conclude_of_content_none hcontent]
  | some content =>
    cases writing with
    | false => rfl
    | true =>
      rw [conclude, if_pos rfl]
      cases hwrite : write d file.absolutePath content with
      | ok d' => rw [writeBack_ok hcontent hwrite]
      | error fault => rw [writeBack_error hcontent hwrite]

/-- There is one result for each file, in the order of the files. -/
theorem paths_processAll (hworker : ∀ file, IsOutcome t file (worker file)) (root : String) :
    (processAll write d worker root files writing).results.map (·.relativePath) =
      files.map (·.relativePath) := by
  apply List.ext_getElem?
  intro i
  rw [List.getElem?_map, getElem?_results_processAll, List.getElem?_map, Option.map_map]
  exact congrArg (Option.map · files[i]?) (funext fun file => relativePath_conclude (hworker file))

end Batch

/-! ### What the command says -/

namespace Command

/-- Only words count as an error. -/
theorem hasFailed_iff {r : FileResult} :
    hasFailed r = true ↔ ∃ text, r.error = some text ∧ text ≠ "" := by
  cases herror : r.error with
  | none => simp [hasFailed, herror]
  | some text => simp [hasFailed, herror]

/-- The words for a file say that it failed. -/
def SaysError (words : String) : Prop :=
  "error:".toList <+: words.toList

theorem saysError_statusText_iff {r : FileResult} :
    SaysError (statusText r) ↔ hasFailed r = true := by
  unfold SaysError statusText
  by_cases hfailed : hasFailed r = true
  · rw [if_pos hfailed]
    simp [hfailed]
  · rw [if_neg hfailed]
    refine iff_of_false ?_ hfailed
    split
    · decide
    · split <;> decide

/-- What a command says of a batch in which some files fail: the status is 1 if there is one of them
and 0 if there is none, and the words for a file say that it failed exactly if it did. -/
structure Says (fails : Nat → Prop) (files : List DiscoveredFile) (a : Arguments) (run : BatchRun) :
    Prop where
  failure : (finishDirectory a run).status = 1 ↔ ∃ i, fails i
  success : (finishDirectory a run).status = 0 ↔ ¬∃ i, fails i
  /-- There is one result for each file, in the order of the files, -/
  paths : run.results.map (·.relativePath) = files.map (·.relativePath)
  /-- and one line for each result. -/
  lines : a.has .json = false → (finishDirectory a run).output = String.join (run.results.map fun r =>
    r.relativePath ++ "\t" ++ toString r.exportCount ++ " exports\t" ++ statusText r ++ "\n")
  words : ∀ i r, run.results[i]? = some r → (SaysError (statusText r) ↔ fails i)

/-- **Failures are told by their words.** -/
theorem says_of_results {fails : Nat → String → Prop} {files : List DiscoveredFile}
    {run : BatchRun} (a : Arguments)
    (hpaths : run.results.map (·.relativePath) = files.map (·.relativePath))
    (hfails : ∀ i text, (∃ r, run.results[i]? = some r ∧ r.error = some text) ↔ fails i text) :
    Says (fun i => ∃ text, fails i text ∧ text ≠ "") files a run := by
  have hone (i : Nat) : (∃ r, run.results[i]? = some r ∧ hasFailed r = true) ↔
      ∃ text, fails i text ∧ text ≠ "" := by
    constructor
    · rintro ⟨r, hr, hfailed⟩
      obtain ⟨text, herror, hne⟩ := hasFailed_iff.1 hfailed
      exact ⟨text, (hfails i text).1 ⟨r, hr, herror⟩, hne⟩
    · rintro ⟨text, htext, hne⟩
      obtain ⟨r, hr, herror⟩ := (hfails i text).2 htext
      exact ⟨r, hr, hasFailed_iff.2 ⟨text, herror, hne⟩⟩
  have hany : run.results.any hasFailed = true ↔ ∃ i text, fails i text ∧ text ≠ "" := by
    rw [List.any_eq_true, ← exists_congr hone]
    constructor
    · rintro ⟨r, hr, hfailed⟩
      obtain ⟨i, hi⟩ := List.mem_iff_getElem?.1 hr
      exact ⟨i, r, hi, hfailed⟩
    · rintro ⟨i, r, hi, hfailed⟩
      exact ⟨r, List.mem_of_getElem? hi, hfailed⟩
  have hstatus : (finishDirectory a run).status = if run.results.any hasFailed then 1 else 0 := rfl
  refine ⟨?_, ?_, hpaths, fun hjson => ?_, fun i r hr => ?_⟩
  · rw [hstatus, ← hany]
    cases run.results.any hasFailed <;> decide
  · rw [hstatus, ← hany]
    cases run.results.any hasFailed <;> decide
  · show (if a.has .json = true then _ else _) = _
    rw [hjson]
    rfl
  · rw [saysError_statusText_iff, ← hone]
    constructor
    · exact fun hfailed => ⟨r, hr, hfailed⟩
    · rintro ⟨r', hr', hfailed⟩
      obtain rfl : r = r' := Option.some.inj (hr.symm.trans hr')
      exact hfailed

/-- **Failures with words are told, and failures without are not.** Let a path lead to a directory.
Workers end with the results of their files or break off with any text, and writes may fail.

The batch comes to its results exactly if its number of workers can be had. The command then tells the
files that fail with words from all others, by its status and in its lines. So it tells the files that
fail from those that do not exactly if no worker breaks off without words. -/
theorem finishDirectory_says_iff {path root : String} (hroot : directoryPath d path = .ok root)
    (workers : Int) (write : Disk → String → String → Except DiskFault Disk) (names : List String)
    {worker : DiscoveredFile → Except String FileResult}
    (hworker : ∀ file, IsOutcome t file (worker file)) (a : Arguments) :
    let files := discoverAt d root names
    let fails := FailsAt write t (a.has .write) d worker files
    let outcome := runBatch write d worker path names workers (a.has .write)
    ((∃ run, outcome = .ok run) ↔ CanWork files workers) ∧
    ∀ run, outcome = .ok run →
      Says (fun i => ∃ text, fails i text ∧ text ≠ "") files a run ∧
      (Says (fun i => ∃ text, fails i text) files a run ↔
        ∀ file ∈ files, worker file ≠ .error "") := by
  intro files fails outcome
  rcases runBatch_cases hroot workers write worker names (a.has .write) with
    ⟨hcan, run, hrun, hresults, -⟩ | ⟨hcannot, fault, hfault⟩
  case inr =>
    have hnone (run : BatchRun) : outcome ≠ .ok run := fun h => by cases hfault.symm.trans h
    exact ⟨iff_of_false (fun ⟨run, h⟩ => hnone run h) hcannot, fun run h => absurd h (hnone run)⟩
  refine ⟨iff_of_true ⟨run, hrun⟩ hcan, fun run' hrun' => ?_⟩
  obtain rfl : run = run' := Except.ok.inj (hrun.symm.trans hrun')
  have hpaths : run.results.map (·.relativePath) = files.map (·.relativePath) := by
    rw [hresults]
    exact paths_processAll hworker path
  have htold : Says (fun i => ∃ text, fails i text ∧ text ≠ "") files a run := by
    refine says_of_results a hpaths fun i text => ?_
    rw [hresults]
    exact error_processAll_iff hworker path
  refine ⟨htold, fun hall file hfile hsilent => ?_, fun hwords => ?_⟩
  · -- The file fails without words, and its words cannot say so.
    obtain ⟨i, hi⟩ := List.mem_iff_getElem?.1 hfile
    have hfails : fails i "" := ⟨file, hi, hsilent ▸ .broken ""⟩
    obtain ⟨r, hr, herror⟩ : ∃ r, run.results[i]? = some r ∧ r.error = some "" := by
      rw [hresults]
      exact (error_processAll_iff hworker path).2 hfails
    have hnamed := (hall.words i r hr).2 ⟨"", hfails⟩
    rw [saysError_statusText_iff, hasFailed_iff] at hnamed
    obtain ⟨text, htext, hne⟩ := hnamed
    rw [herror] at htext
    exact hne (Option.some.inj htext).symm
  · have hsame : (fun i => ∃ text, fails i text) = fun i => ∃ text, fails i text ∧ text ≠ "" := by
      funext i
      refine propext (exists_congr fun text => ⟨fun htext => ⟨htext, ?_⟩, And.left⟩)
      rintro rfl
      obtain ⟨file, hfile, hfails⟩ := htext
      exact hwords file (List.mem_of_getElem? hfile) hfails.eq_error
    rw [hsame]
    exact htold

/-- A worker breaks off with words, and a write is refused. The run says so. -/
theorem finishDirectory_says_iff_nested :
    let a : Arguments := ⟨".", [.write], none⟩
    let fails := FailsAt nestedWrite ⟨nestedDisk.files 1000, {}, ["index.ts"]⟩ true nestedDisk
      nestedWorker nestedFiles
    directoryPath nestedDisk "." = .ok "/r" ∧
    (∀ file, IsOutcome ⟨nestedDisk.files 1000, {}, ["index.ts"]⟩ file (nestedWorker file)) ∧
    ∃ run, runBatch nestedWrite nestedDisk nestedWorker "." ["index.ts"] 2 true = .ok run ∧
      Says (fun i => ∃ text, fails i text) nestedFiles a run ∧
      (finishDirectory a run).output = "a/index.ts\t0 exports\terror: out of memory\n" ++
        "b/index.ts\t1 exports\terror: Cannot write /r/b/index.ts: " ++
          "[Errno 13] Permission denied: '/r/b/index.ts'\n" ++
        "index.ts\t1 exports\trewritten\n" := by
  intro a fails
  have hroot : directoryPath nestedDisk "." = .ok "/r" := rfl
  obtain ⟨run, hrun, hresults, -⟩ := exists_runBatch hroot (show (1 : Int) ≤ 2 by decide)
    (by decide) nestedWrite nestedWorker ["index.ts"] true
  obtain ⟨-, htold⟩ := finishDirectory_says_iff (d := nestedDisk) hroot 2 nestedWrite ["index.ts"]
    isOutcome_nestedWorker a
  obtain ⟨-, hiff⟩ := htold run hrun
  rw [discoverAt_nestedDisk] at hiff hresults
  refine ⟨hroot, isOutcome_nestedWorker, run, hrun, hiff.2 ?_, ?_⟩
  · decide +kernel
  · show String.join (run.results.map resultLine) = _
    rw [hresults]
    decide +kernel

/-- **A failure without words is hidden.** The only worker breaks off with an empty text. The run ends
with the status 0, and the line for the file says that it is unchanged. -/
theorem finishDirectory_hides :
    let t : Transformer := ⟨nestedDisk.files 1000, {}, ["index.ts"]⟩
    let worker : DiscoveredFile → Except String FileResult := fun _ => .error ""
    (∀ file, IsOutcome t file (worker file)) ∧
    FailsAt Disk.write t false nestedDisk worker (discoverAt nestedDisk "/r/a" ["index.ts"]) 0 "" ∧
    ∃ run, runBatch Disk.write nestedDisk worker "a" ["index.ts"] 1 false = .ok run ∧
      (finishDirectory ⟨"a", [], none⟩ run).status = 0 ∧
      (finishDirectory ⟨"a", [], none⟩ run).output = "index.ts\t0 exports\tunchanged\n" := by
  intro t worker
  have hfiles : discoverAt nestedDisk "/r/a" ["index.ts"] = [⟨"index.ts", "/r/a/index.ts"⟩] := by
    have hnode : nestedDisk.node "/r/a" =
        .ok (.directory [("index.ts", .file (Text.encode "export { x } from './x'"))]) := rfl
    rw [discoverAt, hnode]
    simp only [Node.barrelsBelow, Node.barrelsAmong]
    rw [List.mergeSort_of_pairwise (by decide +kernel)]
    decide +kernel
  have hroot : directoryPath nestedDisk "a" = .ok "/r/a" := rfl
  obtain ⟨run, hrun, hresults, -⟩ := exists_runBatch hroot (show (1 : Int) ≤ 1 by decide) (by decide)
    Disk.write worker ["index.ts"] false
  rw [hfiles] at hresults ⊢
  have hrun' : run.results = [.failed "index.ts" ""] := hresults
  have hworker : ∀ file, IsOutcome t file (worker file) := by
    intro file r hr
    cases hr
  refine ⟨hworker, ⟨_, rfl, .broken ""⟩, run, hrun, ?_, ?_⟩
  · show (if run.results.any hasFailed then 1 else 0) = 0
    rw [hrun']
    decide
  · show String.join (run.results.map resultLine) = _
    rw [hrun']
    decide

end Command

end Reexport
