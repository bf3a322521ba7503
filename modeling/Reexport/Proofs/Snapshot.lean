import Reexport.Proofs.Schedules
import Mathlib.Data.List.Forall2

/-!
# A batch sees one disk

However the workers of a batch are scheduled, each of them sees the disk as it was at the beginning.
So the results of a batch are those of its files on that disk, whatever becomes of the other files:
workers may break off, and writes may fail. Writing changes the files whose results say that they are
written, to the new texts, and nothing else.

## What is proved

* `snapshot_of_processAll` — what the results say and what becomes of the disk.
* `runBatch_cases` — a batch of a directory comes to its results if its workers can be had.
* `runBatch_snapshot` — hence every batch of a directory of files and directories is a snapshot, and
  every schedule of its workers comes to the same.
* `runBatch_overflows` — too many workers are refused.
-/

namespace Reexport

open Text

variable {write : Disk → String → String → Except DiskFault Disk} {d : Disk}
  {files : List DiscoveredFile}

/-- What two batches over the same files say, of which the first one does not write and the second one
does, if the workers come to the same in both. -/
structure Snapshot (t : Transformer) (d : Disk) (worker : DiscoveredFile → Except String FileResult)
    (files : List DiscoveredFile) (dry wet : BatchRun) : Prop where
  /-- There is one result for each file, in the order of the files, with the path of the file. -/
  paths : ∀ run ∈ [dry, wet], run.results.map (·.relativePath) = files.map (·.relativePath)
  /-- A worker that does not break off gives what its file gives on the disk of the beginning. -/
  agrees : ∀ run ∈ [dry, wet], ∀ pair ∈ files.zip run.results, (worker pair.1).isOk = true →
    ∃ r, FileResult.ofFile t pair.1 = .ok r ∧ pair.2.changed = r.changed ∧
      pair.2.exportCount = r.exportCount ∧ pair.2.content = r.content
  /-- Results differ in whether they are written and in what went wrong, and in nothing else. -/
  alike : wet.results.map FileResult.unwritten = dry.results.map FileResult.unwritten
  /-- Without writing, nothing is written. -/
  idle : dry.disk = d ∧ ∀ r ∈ dry.results, r.written = false
  /-- What is written is a new text, and nothing went wrong with it. -/
  written : ∀ r ∈ wet.results, r.written = true →
    r.changed = true ∧ r.content.isSome = true ∧ r.error = none
  /-- The disk differs exactly at the files that are written. -/
  places : ∀ place, wet.disk.root.faceAt place ≠ d.root.faceAt place ↔
    ∃ pair ∈ files.zip wet.results, pair.2.written = true ∧
      d.locate false pair.1.absolutePath = .ok place
  /-- Each of them holds the bytes of its new text. -/
  contents : ∀ pair ∈ files.zip wet.results, pair.2.written = true → ∃ content,
    pair.2.content = some content ∧
      wet.disk.bytes? pair.1.absolutePath = some (encode content)

/-! ### Results -/

/-- A new text is that of a file that was read, and differs from what was read. -/
theorem exists_place_of_content {limit : Int} {o : Options} {names : List String}
    {file : DiscoveredFile} {place : List String} (hfound : d.Found file place)
    {outcome : Except String FileResult}
    (houtcome : IsOutcome ⟨d.files limit, o, names⟩ file outcome) {content : String}
    (h : (settle file outcome).1.content = some content) :
    (settle file outcome).1.changed = true ∧ (settle file outcome).1.error = none ∧
      d.locate false file.absolutePath = .ok place ∧ ∃ bytes,
        d.root.at? place = some (.file bytes) ∧ content ≠ decode bytes := by
  cases outcome with
  | error text => cases h
  | ok r =>
    obtain ⟨-, -, hcontent⟩ := FileResult.ofFile_spec (houtcome r rfl)
    obtain ⟨hchanged, herror, source, hread, hne⟩ := hcontent content h
    obtain ⟨found, bytes, hlocate, hat, rfl⟩ := Disk.exists_bytes_of_read hread
    rw [hfound.plain] at hlocate
    obtain rfl := hfound.leads hlocate
    exact ⟨hchanged, herror, hlocate, bytes, hat, hne⟩

/-- Results that differ from those of the workers in what is known after writing alone. -/
theorem unwritten_of_mem_zip {result : DiscoveredFile → FileResult} {results : List FileResult}
    (h : results.map FileResult.unwritten = files.map fun file => (result file).unwritten)
    {pair : DiscoveredFile × FileResult} (hpair : pair ∈ files.zip results) :
    pair.2.unwritten = (result pair.1).unwritten := by
  obtain ⟨i, hi, rfl⟩ := List.getElem_of_mem hpair
  have hlt : i < files.length ∧ i < results.length := by simpa using hi
  have hat := congrArg (·[i]?) h
  simpa [hlt.1, hlt.2] using hat

section

variable {t : Transformer} {worker : DiscoveredFile → Except String FileResult}
  {results : List FileResult}

/-- They have the paths of the files. -/
theorem relativePath_of_map_unwritten (hworker : ∀ file, IsOutcome t file (worker file))
    (h : results.map FileResult.unwritten =
      files.map fun file => (settle file (worker file)).1.unwritten) :
    results.map (·.relativePath) = files.map (·.relativePath) := by
  have hpaths := congrArg (List.map (·.relativePath)) h
  rw [List.map_map, List.map_map] at hpaths
  exact hpaths.trans (List.map_congr_left fun file _ => (settle_unwritten (hworker file)).1)

/-- Where a worker does not break off, they say what its file gives. -/
theorem agrees_of_map_unwritten (hworker : ∀ file, IsOutcome t file (worker file))
    (h : results.map FileResult.unwritten =
      files.map fun file => (settle file (worker file)).1.unwritten)
    {pair : DiscoveredFile × FileResult} (hpair : pair ∈ files.zip results)
    (hok : (worker pair.1).isOk = true) :
    ∃ r, FileResult.ofFile t pair.1 = .ok r ∧ pair.2.changed = r.changed ∧
      pair.2.exportCount = r.exportCount ∧ pair.2.content = r.content := by
  have hsame : pair.2.unwritten = (settle pair.1 (worker pair.1)).1.unwritten :=
    unwritten_of_mem_zip h hpair
  cases hout : worker pair.1 with
  | error text =>
    rw [hout] at hok
    cases hok
  | ok r =>
    rw [hout] at hsame
    have hfields : pair.2.relativePath = r.relativePath ∧ pair.2.changed = r.changed ∧
        pair.2.exportCount = r.exportCount ∧ pair.2.content = r.content := by
      simpa [settle, FileResult.unwritten] using hsame
    exact ⟨r, hworker pair.1 r hout, hfields.2⟩

end

/-! ### What is written -/

namespace WrittenBack

variable {limit : Int} {o : Options} {names : List String}
  {placeOf : DiscoveredFile → List String} {worker : DiscoveredFile → Except String FileResult}
  {d' : Disk} {results : List FileResult}

/-- A result that says that it is written tells of a new text and of nothing that went wrong. -/
theorem says_of_written (h : WrittenBack placeOf (fun file => (settle file (worker file)).1) d d'
      files results) (hfound : ∀ file ∈ files, d.Found file (placeOf file))
    (hworker : ∀ file, IsOutcome ⟨d.files limit, o, names⟩ file (worker file)) {r : FileResult}
    (hr : r ∈ results) (hwritten : r.written = true) :
    r.changed = true ∧ r.content.isSome = true ∧ r.error = none := by
  obtain ⟨file, hfile, hwrote⟩ := exists_of_mem_right h.wrote hr
  obtain ⟨rfl, content, hcontent⟩ :=
    hwrote.eq_of_written (settle_unwritten (hworker file)).2 hwritten
  obtain ⟨hchanged, herror, -⟩ :=
    exists_place_of_content (hfound file hfile) (hworker file) hcontent
  exact ⟨hchanged, Option.isSome_iff_exists.2 ⟨content, hcontent⟩, herror⟩

/-- A file that is written had another text, and has the new one. -/
theorem texts_of_written (h : WrittenBack placeOf (fun file => (settle file (worker file)).1) d d'
      files results) (hfound : ∀ file ∈ files, d.Found file (placeOf file))
    (hworker : ∀ file, IsOutcome ⟨d.files limit, o, names⟩ file (worker file))
    {pair : DiscoveredFile × FileResult} (hpair : pair ∈ files.zip results)
    (hwritten : pair.2.written = true) :
    d.locate false pair.1.absolutePath = .ok (placeOf pair.1) ∧ ∃ content bytes,
      pair.2.content = some content ∧ content ≠ decode bytes ∧
        d.root.faceAt (placeOf pair.1) = some (.file bytes) ∧
          d'.root.faceAt (placeOf pair.1) = some (.file (encode content)) := by
  have hwrote : Wrote (settle pair.1 (worker pair.1)).1 pair.2 :=
    (List.forall₂_iff_zip.1 h.wrote).2 hpair
  obtain ⟨hresult, -⟩ := hwrote.eq_of_written (settle_unwritten (hworker pair.1)).2 hwritten
  obtain ⟨content, hcontent, hnew⟩ := h.there pair hpair hwritten
  obtain ⟨-, -, hlocate, bytes, hat, hne⟩ := exists_place_of_content
    (hfound pair.1 (List.of_mem_zip hpair).1) (hworker pair.1) hcontent
  exact ⟨hlocate, content, bytes, by rw [hresult, hcontent], hne,
    Node.faceAt_eq_file_iff.2 hat, hnew⟩

/-- The disk differs exactly at the files that are written. -/
theorem faceAt_ne_iff (h : WrittenBack placeOf (fun file => (settle file (worker file)).1) d d'
      files results) (hfound : ∀ file ∈ files, d.Found file (placeOf file))
    (hworker : ∀ file, IsOutcome ⟨d.files limit, o, names⟩ file (worker file))
    (place : List String) : d'.root.faceAt place ≠ d.root.faceAt place ↔
      ∃ pair ∈ files.zip results, pair.2.written = true ∧
        d.locate false pair.1.absolutePath = .ok place := by
  constructor
  · intro hdiffers
    by_contra hnone
    refine hdiffers (h.others place fun pair hpair hwritten heq => hnone ⟨pair, hpair, hwritten, ?_⟩)
    rw [(h.texts_of_written hfound hworker hpair hwritten).1, heq]
  · rintro ⟨pair, hpair, hwritten, hlocate⟩ heq
    obtain ⟨hlocate', content, bytes, -, hne, hold, hnew⟩ :=
      h.texts_of_written hfound hworker hpair hwritten
    obtain rfl : placeOf pair.1 = place := Except.ok.inj (hlocate'.symm.trans hlocate)
    rw [hold, hnew] at heq
    have hbytes : encode content = bytes := by simpa using heq
    apply hne
    rw [← hbytes, decode_encode]

/-- Each of them holds the bytes of its new text. -/
theorem bytes_of_written (h : WrittenBack placeOf (fun file => (settle file (worker file)).1) d d'
      files results) (hfound : ∀ file ∈ files, d.Found file (placeOf file))
    (hworker : ∀ file, IsOutcome ⟨d.files limit, o, names⟩ file (worker file))
    {pair : DiscoveredFile × FileResult} (hpair : pair ∈ files.zip results)
    (hwritten : pair.2.written = true) : ∃ content, pair.2.content = some content ∧
      d'.bytes? pair.1.absolutePath = some (encode content) := by
  obtain ⟨hlocate, content, bytes, hcontent, -, -, hnew⟩ :=
    h.texts_of_written hfound hworker hpair hwritten
  have hnode : d'.node pair.1.absolutePath = .ok (.file (encode content)) := by
    refine Disk.node_eq_ok_iff.2 ⟨_, ?_, Node.faceAt_eq_file_iff.1 hnew⟩
    rw [Disk.locate_alike h.kept.alike h.kept.here, hlocate]
  exact ⟨content, hcontent, by rw [Disk.bytes?, hnode]⟩

end WrittenBack

/-- **What the results of a batch say and what becomes of the disk.** -/
theorem snapshot_of_processAll (hwrite : Honest write) {limit : Int} {o : Options}
    {names : List String} {placeOf : DiscoveredFile → List String}
    (hnodup : (files.map placeOf).Nodup) (hfound : ∀ file ∈ files, d.Found file (placeOf file))
    {worker : DiscoveredFile → Except String FileResult}
    (hworker : ∀ file, IsOutcome ⟨d.files limit, o, names⟩ file (worker file)) {root : String}
    {dry wet : BatchRun} (hdry : dry.results = (processAll write d worker root files false).results)
    (hdryDisk : dry.disk = (processAll write d worker root files false).disk)
    (hwet : wet.results = (processAll write d worker root files true).results)
    (hwetDisk : wet.disk = (processAll write d worker root files true).disk) :
    Snapshot ⟨d.files limit, o, names⟩ d worker files dry wet := by
  have hunwritten (file : DiscoveredFile) := (settle_unwritten (hworker file)).2
  have hspec := writeAll_spec hwrite (.refl d) hunwritten hnodup hfound
  obtain ⟨hdisk, hresults⟩ := results_processAll_true write d worker root files
  rw [← hdisk, ← hresults, ← hwet, ← hwetDisk] at hspec
  rw [results_processAll_false] at hdry
  -- Both runs have the results of the workers, but for what is known after writing.
  have hsame : ∀ run ∈ [dry, wet], run.results.map FileResult.unwritten =
      files.map fun file => (settle file (worker file)).1.unwritten := by
    rw [List.forall_mem_cons, List.forall_mem_singleton]
    refine ⟨?_, hspec.map_unwritten⟩
    rw [hdry, List.map_map]
    rfl
  exact {
    paths := fun run hrun => relativePath_of_map_unwritten hworker (hsame run hrun)
    agrees := fun run hrun pair hpair => agrees_of_map_unwritten hworker (hsame run hrun) hpair
    alike := (hsame wet (by simp)).trans (hsame dry (by simp)).symm
    idle := by
      refine ⟨hdryDisk, fun r hr => ?_⟩
      rw [hdry] at hr
      obtain ⟨file, -, rfl⟩ := List.mem_map.1 hr
      exact hunwritten file
    written := fun r hr => hspec.says_of_written hfound hworker hr
    places := hspec.faceAt_ne_iff hfound hworker
    contents := fun pair hpair => hspec.bytes_of_written hfound hworker hpair }

/-! ### Batches of a directory -/

/-- Whether there can be so many workers: without files, any number will do. -/
def CanWork (files : List DiscoveredFile) (workers : Int) : Prop :=
  files = [] ∨ 1 ≤ workers ∧ workers ≤ maxWorkers

/-- A batch comes to the results and the disk of `processAll` exactly if its number of workers can be
had. -/
theorem runBatch_cases {path root : String} (hroot : directoryPath d path = .ok root)
    (workers : Int) (write : Disk → String → String → Except DiskFault Disk)
    (worker : DiscoveredFile → Except String FileResult) (names : List String) (writing : Bool) :
    (CanWork (discoverAt d root names) workers ∧
      ∃ run, runBatch write d worker path names workers writing = .ok run ∧
        run.results =
          (processAll write d worker path (discoverAt d root names) writing).results ∧
        run.disk = (processAll write d worker path (discoverAt d root names) writing).disk) ∨
    (¬CanWork (discoverAt d root names) workers ∧
      ∃ fault, runBatch write d worker path names workers writing = .error fault) := by
  have hdiscover : discover d path names = .ok (discoverAt d root names,
      .discovered root (discoverAt d root names).length) := by
    rw [discover, hroot]
    rfl
  unfold runBatch
  rw [hdiscover]
  cases hfiles : discoverAt d root names with
  | nil =>
    refine .inl ⟨.inl rfl, _, rfl, ?_, ?_⟩
    · cases writing <;> rfl
    · cases writing <;> rfl
  | cons file files =>
    simp only [bind, Except.bind, List.isEmpty_cons, Bool.false_eq_true, if_false]
    have hcan : CanWork (file :: files) workers ↔ 1 ≤ workers ∧ workers ≤ maxWorkers := by
      simp [CanWork]
    rw [hcan]
    by_cases hnone : workers ≤ 0
    · rw [if_pos hnone]
      exact .inr ⟨by omega, _, rfl⟩
    rw [if_neg hnone]
    by_cases hmany : maxWorkers < workers
    · rw [if_pos hmany]
      exact .inr ⟨by omega, _, rfl⟩
    rw [if_neg hmany]
    exact .inl ⟨⟨by omega, by omega⟩, _, rfl, rfl, rfl⟩

/-- A batch whose number of workers can be had comes to the results and the disk of `processAll`. -/
theorem exists_runBatch {path root : String} (hroot : directoryPath d path = .ok root)
    {workers : Int} (hsome : 1 ≤ workers) (hmost : workers ≤ maxWorkers)
    (write : Disk → String → String → Except DiskFault Disk)
    (worker : DiscoveredFile → Except String FileResult) (names : List String) (writing : Bool) :
    ∃ run, runBatch write d worker path names workers writing = .ok run ∧
      run.results =
        (processAll write d worker path (discoverAt d root names) writing).results ∧
      run.disk = (processAll write d worker path (discoverAt d root names) writing).disk := by
  rcases runBatch_cases hroot workers write worker names writing with ⟨-, hrun⟩ | ⟨hnot, -⟩
  · exact hrun
  · exact absurd (.inr ⟨hsome, hmost⟩) hnot

/-- **A batch sees one disk.** Let a path lead to a directory that is a plain tree, and let there be at
least one worker and no more than the system can count.

Whatever workers break off and whatever writes fail, the batch comes to its results, with writing and
without, and these are a `Snapshot`: they are those of the files on the disk of the beginning, they
say what is written, and nothing else is.

And whatever the order in which the workers end and the moments at which they read, a run of the batch
that has come to its end has come to the results and the disk of such a batch. -/
theorem runBatch_snapshot (hwrite : Honest write)
    (hhere : ∀ name ∈ d.here, Path.IsName name.toList) {path root : String}
    (hroot : directoryPath d path = .ok root) {tree : Node} (htree : d.node root = .ok tree)
    (hplain : tree.Plain) (limit : Int) (o : Options) (names : List String) {workers : Int}
    (hsome : 1 ≤ workers) (hmost : workers ≤ maxWorkers) :
    let t : Transformer := ⟨d.files limit, o, names⟩
    let files := discoverAt d root names
    (∀ worker : DiscoveredFile → Except String FileResult,
      (∀ file, IsOutcome t file (worker file)) → ∃ dry wet,
        runBatch write d worker path names workers false = .ok dry ∧
        runBatch write d worker path names workers true = .ok wet ∧
        Snapshot t d worker files dry wet) ∧
    ∀ (writing : Bool) (p : Pool),
      Relation.ReflTransGen (Pool.Step write limit o names files writing) (Pool.start d files) p →
        p.results.length = files.length →
          ∃ worker run, (∀ file, IsOutcome t file (worker file)) ∧
            runBatch write d worker path names workers writing = .ok run ∧
            p.results = run.results ∧ p.disk = run.disk := by
  intro t files
  obtain ⟨placeOf, hnodup, hfound⟩ := exists_places hhere hroot htree hplain names
  constructor
  · intro worker hworker
    obtain ⟨dry, hdry, hdryResults, hdryDisk⟩ :=
      exists_runBatch hroot hsome hmost write worker names false
    obtain ⟨wet, hwet, hwetResults, hwetDisk⟩ :=
      exists_runBatch hroot hsome hmost write worker names true
    exact ⟨dry, wet, hdry, hwet, snapshot_of_processAll hwrite hnodup hfound hworker hdryResults
      hdryDisk hwetResults hwetDisk⟩
  · intro writing p hrun hall
    obtain ⟨worker, hworker, hdisk, hresults⟩ :=
      Pool.eq_processAll hrun hall (List.Nodup.of_map _ hnodup) path
    obtain ⟨run, hok, hrunResults, hrunDisk⟩ :=
      exists_runBatch hroot hsome hmost write worker names writing
    exact ⟨worker, run, hworker, hok, hresults.trans hrunResults.symm, hdisk.trans hrunDisk.symm⟩

/-- What is in a directory with barrels in it and in its directories. -/
def nestedTree : Node :=
  .directory [("a", .directory [("index.ts", .file (encode "export { x } from './x'"))]),
    ("b", .directory [("index.ts", .file (encode "export { y } from './y'"))]),
    ("index.ts", .file (encode "export * from './a'"))]

theorem plain_nestedTree : nestedTree.Plain := by
  simp only [nestedTree, Node.plain_directory_iff, Node.plain_file, List.forall_mem_cons,
    List.map_cons, List.map_nil, List.not_mem_nil, false_implies, implies_true, and_true]
  decide +kernel

/-- A disk with the directory, which is the current one. -/
def nestedDisk : Disk where
  root := .directory [("r", nestedTree)]
  here := ["r"]

/-- The barrels of the directory. -/
def nestedFiles : List DiscoveredFile :=
  [⟨"a/index.ts", "/r/a/index.ts"⟩, ⟨"b/index.ts", "/r/b/index.ts"⟩, ⟨"index.ts", "/r/index.ts"⟩]

/-- Workers of which the first one breaks off. -/
def nestedWorker (file : DiscoveredFile) : Except String FileResult :=
  if file.relativePath = "a/index.ts" then .error "out of memory"
  else (FileResult.ofFile ⟨nestedDisk.files 1000, {}, ["index.ts"]⟩ file).mapError (·.message)

theorem isOutcome_nestedWorker (file : DiscoveredFile) :
    IsOutcome ⟨nestedDisk.files 1000, {}, ["index.ts"]⟩ file (nestedWorker file) := by
  intro r hr
  unfold nestedWorker at hr
  split at hr
  · cases hr
  · exact isOutcome_ofFile _ file _ r hr

/-- Writing where one file may not be written. -/
def nestedWrite (d : Disk) (path content : String) : Except DiskFault Disk :=
  if path = "/r/b/index.ts" then .error .denied else d.write path content

theorem discoverAt_nestedDisk : discoverAt nestedDisk "/r" ["index.ts"] = nestedFiles := by
  have hnode : nestedDisk.node "/r" = .ok nestedTree := rfl
  rw [discoverAt, hnode]
  simp only [nestedTree, Node.barrelsBelow, Node.barrelsAmong]
  rw [List.mergeSort_of_pairwise (by decide +kernel)]
  decide +kernel

/-- One worker breaks off and one write is refused; the third file is written all the same. -/
theorem runBatch_snapshot_nested : ∃ dry wet,
    runBatch nestedWrite nestedDisk nestedWorker "." ["index.ts"] 2 false = .ok dry ∧
    runBatch nestedWrite nestedDisk nestedWorker "." ["index.ts"] 2 true = .ok wet ∧
    Snapshot ⟨nestedDisk.files 1000, {}, ["index.ts"]⟩ nestedDisk nestedWorker nestedFiles dry wet ∧
    wet.results.map (fun r => (r.written, r.error)) = [(false, some "out of memory"),
      (false, some "Cannot write /r/b/index.ts: [Errno 13] Permission denied: '/r/b/index.ts'"),
      (true, none)] ∧
    wet.disk.bytes? "/r/index.ts" = some (encode "export * from \"./a\";\n") := by
  have hwrite : Honest nestedWrite := by
    intro d d' path content h
    unfold nestedWrite at h
    split at h
    · cases h
    · exact h
  have hroot : directoryPath nestedDisk "." = .ok "/r" := rfl
  have htree : nestedDisk.node "/r" = .ok nestedTree := rfl
  have hsome : (1 : Int) ≤ 2 := by decide
  have hmost : (2 : Int) ≤ maxWorkers := by decide
  obtain ⟨dry, wet, hdry, hwet, hsnapshot⟩ := (runBatch_snapshot hwrite (d := nestedDisk)
    (by decide +kernel) hroot htree plain_nestedTree 1000 {} ["index.ts"] hsome hmost).1 nestedWorker
    isOutcome_nestedWorker
  obtain ⟨run, hrun, hresults, hdisk⟩ := exists_runBatch hroot hsome hmost nestedWrite nestedWorker
    ["index.ts"] true
  obtain rfl : wet = run := Except.ok.inj (hwet.symm.trans hrun)
  rw [discoverAt_nestedDisk] at hsnapshot hresults hdisk
  refine ⟨dry, wet, hdry, hwet, hsnapshot, ?_, ?_⟩
  · rw [hresults]
    decide +kernel
  · rw [hdisk]
    decide +kernel

/-- **Too many workers are refused**, so not every number of them gives results. -/
theorem runBatch_overflows : (1 : Int) ≤ 2147483647 ∧
    discoverAt nestedDisk "/r" ["index.ts"] = nestedFiles ∧
      ∃ fault, runBatch Disk.write nestedDisk nestedWorker "." ["index.ts"] 2147483647 false =
        .error fault := by
  have hdiscover : discover nestedDisk "." ["index.ts"] =
      .ok (nestedFiles, .discovered "/r" nestedFiles.length) := by
    rw [discover, ← discoverAt_nestedDisk]
    rfl
  refine ⟨by decide, discoverAt_nestedDisk, .tooManyWorkers, ?_⟩
  rw [runBatch, hdiscover]
  rfl

end Reexport
