import Reexport.Command
import Reexport.Proofs.PlainDisk
import Reexport.Proofs.Snapshot

/-!
# A barrel by itself and in its directory

A barrel can be transformed by itself, or with the others of a directory around it. Both ways lead
over different code: by itself it is transformed and written at once; in a directory it is found,
transformed by a worker and written when all are done, and others that it reads are written as well.
As all are transformed on the disk as it was, the new text of a barrel is the same either way
(`Transformer.newText?`).

What differs is when it is written. A run for a file that prints its entries as JSON leaves the file as
it is, even if it is asked to write; a run for a directory prints JSON and writes.

## What is proved

* `faceAt_processAll` — a batch leaves the new texts of its files.
* `Command.faceAt_runFile` — so does the run for a file, unless it prints JSON.
* `Command.faceAt_runDirectory` — so does the run for a directory, whatever it prints.
* `Command.diskAfter_agree_iff` — when both runs leave the same of a barrel.
* `Command.diskAfter_json_differs` — with JSON they do not.
-/

namespace Reexport

open Text

/-! ### The new text -/

/-- The new text of the file at a path, if it has one. -/
def Transformer.newText? (t : Transformer) (path : String) : Option String :=
  match ((t.transformFile path).run []).1 with
  | .ok r => if r.changed then some r.text else none
  | .error _ => none

/-- It is the content of the result of the file. -/
theorem content_settle_ofFile (t : Transformer) (file : DiscoveredFile)
    (message : Interruption → String) :
    (settle file ((FileResult.ofFile t file).mapError message)).1.content =
      t.newText? file.absolutePath := by
  rw [FileResult.ofFile, Transformer.newText?]
  cases ((t.transformFile file.absolutePath).run []).1 with
  | ok r => rfl
  | error fault => cases fault <;> rfl

section Disk

variable {d : Disk} {file : DiscoveredFile} {place : List String}

/-- Only a file that can be read has a new text, and that is not the text that it has. -/
theorem Disk.Found.of_newText? {limit : Int} {o : Options} {names : List String}
    (hfound : d.Found file place) {text : String}
    (h : Transformer.newText? ⟨d.files limit, o, names⟩ file.absolutePath = some text) :
    d.locate false file.absolutePath = .ok place ∧ ∃ bytes,
      d.root.at? place = some (.file bytes) ∧ text ≠ decode bytes := by
  rw [← content_settle_ofFile _ file (·.message)] at h
  exact (exists_place_of_content hfound (isOutcome_ofFile _ file _) h).2.2

/-- **A batch leaves the new texts of its files**, each at the place of its file. -/
theorem faceAt_processAll (limit : Int) (o : Options) (names : List String)
    {placeOf : DiscoveredFile → List String} {files : List DiscoveredFile}
    (hnodup : (files.map placeOf).Nodup) (hfound : ∀ file ∈ files, d.Found file (placeOf file))
    (message : Interruption → String) (root : String) (hfile : file ∈ files) :
    let t : Transformer := ⟨d.files limit, o, names⟩
    (processAll Disk.write d (fun file => (FileResult.ofFile t file).mapError message) root files
      true).disk.root.faceAt (placeOf file) =
        (t.newText? file.absolutePath).elim (d.root.faceAt (placeOf file)) fun text =>
          some (.file (encode text)) := by
  intro t
  have hworker (file : DiscoveredFile) := isOutcome_ofFile t file message
  rw [(results_processAll_true Disk.write d _ root files).1, ← content_settle_ofFile t file message]
  refine faceAt_writeAll (.refl d) (fun file => (settle_unwritten (hworker file)).2) hnodup hfound
    (fun file hfile hsome => ?_) hfile
  obtain ⟨text, htext⟩ := Option.isSome_iff_exists.1 hsome
  rw [content_settle_ofFile] at htext
  exact ((hfound file hfile).of_newText? htext).1

/-- Where none of its files stands, a batch leaves what was there. -/
theorem faceAt_processAll_other (limit : Int) (o : Options) (names : List String)
    {placeOf : DiscoveredFile → List String} {files : List DiscoveredFile}
    (hnodup : (files.map placeOf).Nodup) (hfound : ∀ file ∈ files, d.Found file (placeOf file))
    (message : Interruption → String) (root : String) (hother : ∀ file ∈ files, placeOf file ≠ place) :
    let t : Transformer := ⟨d.files limit, o, names⟩
    (processAll Disk.write d (fun file => (FileResult.ofFile t file).mapError message) root files
      true).disk.root.faceAt place = d.root.faceAt place := by
  intro t
  have hworker (file : DiscoveredFile) := isOutcome_ofFile t file message
  have hwrite : Honest Disk.write := id
  have hspec := writeAll_spec hwrite (.refl d) (fun file => (settle_unwritten (hworker file)).2) hnodup
    hfound
  rw [(results_processAll_true Disk.write d _ root files).1]
  exact hspec.others place fun pair hpair _ => hother pair.1 (List.of_mem_zip hpair).1

end Disk

/-! ### Runs -/

namespace Command

variable {h : Host} {settings : Settings} {a : Arguments}

/-- The disk that a run leaves. One that breaks off has written nothing. -/
def diskOf (before : Disk) : Except Fault Outcome → Disk
  | .ok outcome => outcome.disk
  | .error _ => before

/-- The disk that is left after a command line. -/
def diskAfter (h : Host) (words : List String) : Disk :=
  match run h words with
  | .ok (.finished _ outcome) => outcome.disk
  | _ => h.disk

/-- A command line is run for a directory or for a file. -/
theorem diskAfter_eq {words : List String} (hsettings : h.settings = .ok settings)
    (hwords : Request.read words = .ok (.run a)) : diskAfter h words =
      diskOf h.disk (if h.disk.isDirectory (h.disk.absolute a.path) then
        runDirectory h settings (a.stages settings.options) a (h.disk.absolute a.path)
      else runFile h (h.transformer settings (a.stages settings.options)) a
        (h.disk.absolute a.path)) := by
  unfold diskAfter run
  rw [hwords]
  simp only [runArguments, hsettings, Except.mapError, bind, Except.bind]
  by_cases hdirectory : h.disk.isDirectory (h.disk.absolute a.path) = true
  · rw [if_pos hdirectory, if_pos hdirectory]
    cases runDirectory h settings (a.stages settings.options) a (h.disk.absolute a.path) <;>
      simp only [Except.map, diskOf, pure, Except.pure]
  · rw [if_neg hdirectory, if_neg hdirectory]
    cases runFile h (h.transformer settings (a.stages settings.options)) a
      (h.disk.absolute a.path) <;>
      simp only [Except.map, diskOf, pure, Except.pure]

/-- **The run for a file** leaves the new text of the file if it is to write, unless it prints JSON. -/
theorem faceAt_runFile (settings : Settings) (options : Options) {file : DiscoveredFile}
    {place : List String} {bytes : List UInt8}
    (hfound : h.disk.Found file place) (hbytes : h.disk.root.at? place = some (.file bytes))
    (hwrite : a.has .write = true) :
    let t := h.transformer settings options
    (diskOf h.disk (runFile h t a file.absolutePath)).root.faceAt place =
      some (.file (if a.has .json then bytes else (t.newText? file.absolutePath).elim bytes encode)) := by
  intro t
  have hsame : h.disk.root.faceAt place = some (.file bytes) := Node.faceAt_eq_file_iff.2 hbytes
  cases hrun : (t.transformFile file.absolutePath).run [] with
  | mk outcome log =>
    cases outcome with
    | error fault =>
      have hnone : t.newText? file.absolutePath = none := by rw [Transformer.newText?, hrun]
      have hdisk : diskOf h.disk (runFile h t a file.absolutePath) = h.disk := by
        rw [runFile, hrun]
        cases fault <;> rfl
      rw [hnone, hdisk, hsame, Option.elim_none, ite_self]
    | ok r =>
      have hnew : t.newText? file.absolutePath = if r.changed then some r.text else none := by
        rw [Transformer.newText?, hrun]
      have hfinish : runFile h t a file.absolutePath =
          finishFile h.disk a file.absolutePath r log := by
        rw [runFile, hrun]
      rw [hfinish, finishFile]
      by_cases hjson : a.has .json = true
      · rw [if_pos hjson, if_pos hjson]
        exact hsame
      rw [if_neg hjson, if_neg hjson, if_pos hwrite, hnew]
      by_cases hchanged : r.changed = true
      · rw [if_pos hchanged] at hnew ⊢
        obtain ⟨d', hd'⟩ := hfound.exists_write (.refl _) (hfound.of_newText? hnew).1 r.text
        rw [if_pos hchanged, hd', Option.elim_some]
        exact ((hfound.write (.refl _) hd').2 place).trans (if_pos rfl)
      · rw [if_neg hchanged, if_neg hchanged]
        exact hsame

section Directory

variable {place below : List String} {tree : Node} (hreaches : h.disk.Reaches place tree)
  (hbarrel : tree.IsBarrel settings.barrelNames (h.disk.isDirectoryBelow (Disk.pathOf place)) below)

include hreaches hbarrel

/-- A barrel in a directory that is not listed has no new text: its path is too long to be read. -/
theorem newText?_eq_none_of_not_listed
    (hhidden : ¬Node.Listed (Rights.all.listsBelow (Disk.pathOf place)) below) (options : Options) :
    (h.transformer settings options).newText? (Disk.pathOf (place ++ below)) = none := by
  rw [← hreaches.absolutePath_below hbarrel, Option.eq_none_iff_forall_ne_some]
  intro text htext
  exact hhidden (hreaches.listed_of_locate hbarrel
    ((hreaches.found_below hbarrel).of_newText? htext).1)

/-- What a batch of the barrels of a directory leaves of one of them. -/
theorem faceAt_batch {bytes : List UInt8}
    (hbytes : h.disk.root.at? (place ++ below) = some (.file bytes)) (options : Options) :
    let t := h.transformer settings options
    (processAll Disk.write h.disk (fun file => (FileResult.ofFile t file).mapError (·.message))
      (Disk.pathOf place) (discoverAt h.disk (Disk.pathOf place) settings.barrelNames)
        true).disk.root.faceAt (place ++ below) =
      some (.file ((t.newText? (Disk.pathOf (place ++ below))).elim bytes encode)) := by
  intro t
  have hsame : h.disk.root.faceAt (place ++ below) = some (.file bytes) :=
    Node.faceAt_eq_file_iff.2 hbytes
  obtain ⟨hnodup, hfound⟩ := hreaches.found settings.barrelNames
  by_cases hlisted : Node.Listed (Rights.all.listsBelow (Disk.pathOf place)) below
  · have hface := faceAt_processAll settings.maxFileSize options settings.barrelNames hnodup hfound
      (·.message) (Disk.pathOf place) (hreaches.mem_discoverAt hbarrel hlisted)
    rw [hreaches.placeBelow_below hbarrel, hreaches.absolutePath_below hbarrel, hsame] at hface
    have helim (new? : Option String) :
        (new?.elim (some (Node.file bytes)) fun text => some (.file (encode text))) =
          some (.file (new?.elim bytes encode)) := by
      cases new? <;> rfl
    exact hface.trans (helim _)
  · rw [newText?_eq_none_of_not_listed hreaches hbarrel hlisted options]
    refine (faceAt_processAll_other settings.maxFileSize options settings.barrelNames hnodup hfound
      (·.message) (Disk.pathOf place) fun file hfile heq =>
        hlisted (hreaches.listed_of_mem_discoverAt hfile heq)).trans hsame

/-- **The run for a directory** leaves the new texts of its barrels if it is to write, and if its number
of workers can be had. -/
theorem faceAt_runDirectory {bytes : List UInt8}
    (hbytes : h.disk.root.at? (place ++ below) = some (.file bytes))
    (hwrite : a.has .write = true) (options : Options) :
    let t := h.transformer settings options
    let workers := Host.workers settings a.workers
    (diskOf h.disk (runDirectory h settings options a (Disk.pathOf place))).root.faceAt
        (place ++ below) =
      some (.file (if 1 ≤ workers ∧ workers ≤ maxWorkers then
        (t.newText? (Disk.pathOf (place ++ below))).elim bytes encode else bytes)) := by
  intro t workers
  have hsame : h.disk.root.faceAt (place ++ below) = some (.file bytes) :=
    Node.faceAt_eq_file_iff.2 hbytes
  have hface := faceAt_batch hreaches hbarrel hbytes options
  unfold runDirectory Host.batch
  rw [hwrite]
  rcases runBatch_cases hreaches.directoryPath workers Disk.write
      (fun file => (FileResult.ofFile t file).mapError (·.message)) settings.barrelNames true with
    ⟨hyes, run, hrun, -, hdisk⟩ | ⟨hno, fault, hfault⟩
  · rw [hrun]
    show run.disk.root.faceAt _ = _
    rw [hdisk, hface]
    rcases hyes with hempty | hcan
    · have hhidden : ¬Node.Listed (Rights.all.listsBelow (Disk.pathOf place)) below := fun hlisted =>
        List.ne_nil_of_mem (hreaches.mem_discoverAt hbarrel hlisted) hempty
      rw [newText?_eq_none_of_not_listed hreaches hbarrel hhidden options, Option.elim_none, ite_self]
    · rw [if_pos hcan]
  · rw [hfault, if_neg fun hcan => hno (.inr hcan)]
    exact hsame

end Directory

section Barrel

variable {place below : List String} {tree : Node} (hsettings : h.settings = .ok settings)
  (hreaches : h.disk.Reaches place tree) (hbarrel : tree.IsBarrel settings.barrelNames
    (h.disk.isDirectoryBelow (Disk.pathOf place)) below)

include hsettings hreaches hbarrel

/-- A command line for the barrel itself. -/
theorem at?_diskAfter_file {bytes : List UInt8}
    (hbytes : h.disk.root.at? (place ++ below) = some (.file bytes)) {words : List String}
    (hwords : Request.read words = .ok (.run a))
    (hpath : h.disk.absolute a.path = Disk.pathOf (place ++ below))
    (hwrite : a.has .write = true) : (diskAfter h words).root.at? (place ++ below) =
      some (.file (if a.has .json then bytes else
        ((h.transformer settings (a.stages settings.options)).newText?
          (Disk.pathOf (place ++ below))).elim bytes encode)) := by
  have hfound := hreaches.found_below hbarrel
  have habsolute := hreaches.absolutePath_below hbarrel
  have hnot : ¬h.disk.isDirectory (Disk.pathOf (place ++ below)) = true := by
    rw [← habsolute]
    exact hfound.not_isDirectory
  have hface := faceAt_runFile settings (a.stages settings.options) hfound hbytes hwrite
  rw [habsolute] at hface
  rw [diskAfter_eq hsettings hwords, hpath, if_neg hnot]
  exact Node.faceAt_eq_file_iff.1 hface

/-- A command line for the directory. -/
theorem at?_diskAfter_directory {bytes : List UInt8}
    (hbytes : h.disk.root.at? (place ++ below) = some (.file bytes)) {words : List String}
    (hwords : Request.read words = .ok (.run a))
    (hpath : h.disk.absolute a.path = Disk.pathOf place) (hwrite : a.has .write = true) :
    let workers := Host.workers settings a.workers
    (diskAfter h words).root.at? (place ++ below) =
      some (.file (if 1 ≤ workers ∧ workers ≤ maxWorkers then
        ((h.transformer settings (a.stages settings.options)).newText?
          (Disk.pathOf (place ++ below))).elim bytes encode else bytes)) := by
  have hface := faceAt_runDirectory hreaches hbarrel hbytes hwrite (a.stages settings.options)
  rw [diskAfter_eq hsettings hwords, hpath, if_pos hreaches.leads]
  exact Node.faceAt_eq_file_iff.1 hface

/-- **A barrel comes out the same by itself and in its directory**, but for when it is written. On a
disk of files and directories, let a command line that is to write name the path of a barrel, and
another one with the same options that of a directory around it.

The run for the file leaves the new text of the barrel, if it has one, unless it prints JSON. The run
for the directory leaves the same new text, whether it prints JSON or not, if its number of workers can
be had. So both leave the same bytes exactly if there is no new text, or both or none of them writes. -/
theorem diskAfter_agree_iff {root : String} {fileWords directoryWords : List String}
    (hfileWords : Request.read fileWords = .ok (.run a))
    (hfile : h.disk.absolute a.path = Disk.pathOf (place ++ below))
    (hdirectoryWords : Request.read directoryWords = .ok (.run { a with path := root }))
    (hdirectory : h.disk.absolute root = Disk.pathOf place) (hwrite : a.has .write = true) :
    let new? := (h.transformer settings (a.stages settings.options)).newText?
      (Disk.pathOf (place ++ below))
    let workers := Host.workers settings a.workers
    let left (words : List String) := (diskAfter h words).root.at? (place ++ below)
    ∃ bytes, h.disk.root.at? (place ++ below) = some (.file bytes) ∧
      left fileWords = some (.file (if a.has .json then bytes else new?.elim bytes encode)) ∧
      left directoryWords = some (.file
        (if 1 ≤ workers ∧ workers ≤ maxWorkers then new?.elim bytes encode else bytes)) ∧
      (left fileWords = left directoryWords ↔
        new? = none ∨ (a.has .json = false ↔ 1 ≤ workers ∧ workers ≤ maxWorkers)) := by
  intro new? workers left
  have hfound := hreaches.found_below hbarrel
  obtain ⟨bytes, hbytes⟩ := hfound.isFile
  have hfileLeft : left fileWords =
      some (.file (if a.has .json then bytes else new?.elim bytes encode)) :=
    at?_diskAfter_file hsettings hreaches hbarrel hbytes hfileWords hfile hwrite
  have hdirectoryLeft : left directoryWords = some (.file
      (if 1 ≤ workers ∧ workers ≤ maxWorkers then new?.elim bytes encode else bytes)) :=
    at?_diskAfter_directory (a := { a with path := root }) hsettings hreaches hbarrel hbytes
      hdirectoryWords hdirectory hwrite
  refine ⟨bytes, hbytes, hfileLeft, hdirectoryLeft, ?_⟩
  have hchanges : new?.elim bytes encode = bytes ↔ new? = none := by
    cases hnew : new? with
    | none => simp
    | some text =>
      refine iff_of_false (fun hsame => ?_) nofun
      -- The bytes of the new text are those that are there, so it is the text that is there.
      obtain ⟨-, old, hold, htext⟩ :=
        hfound.of_newText? ((congrArg _ (hreaches.absolutePath_below hbarrel)).trans hnew)
      obtain rfl : bytes = old := by simpa [hbytes] using hold
      rw [← hsame] at htext
      exact htext (decode_encode text).symm
  rw [hfileLeft, hdirectoryLeft, Option.some_inj, Node.file.injEq, ← hchanges]
  by_cases hjson : a.has .json = true <;> by_cases hcan : 1 ≤ workers ∧ workers ≤ maxWorkers <;>
    simp [hjson, hcan, eq_comm]

end Barrel

/-- The program on the disk with the nested barrels. -/
def nestedHost : Host := ⟨nestedDisk, []⟩

theorem settings_nestedHost : nestedHost.settings = .ok {} := by decide +kernel

theorem reaches_nestedHost : nestedHost.disk.Reaches ["r"] nestedTree := by
  refine ⟨?_, rfl, by decide +kernel⟩
  show (Node.directory [("r", nestedTree)]).Plain
  rw [Node.plain_directory_iff]
  simpa using ⟨by decide +kernel, plain_nestedTree⟩

theorem isBarrel_nestedHost : nestedTree.IsBarrel (Settings.barrelNames {})
    (nestedHost.disk.isDirectoryBelow (Disk.pathOf ["r"])) ["index.ts"] :=
  ⟨⟨"index.ts", by decide, rfl⟩, nofun, .inl ⟨_, rfl⟩⟩

theorem newText?_nestedHost : (nestedHost.transformer {} {}).newText? "/r/index.ts" =
    some "export * from \"./a\";\n" := by
  decide +kernel

/-- A barrel is written by itself and with the others. -/
theorem diskAfter_agree_iff_nested :
    let left (words : List String) := (diskAfter nestedHost words).root.at? ["r", "index.ts"]
    nestedHost.settings = .ok {} ∧ nestedHost.disk.Reaches ["r"] nestedTree ∧
    nestedTree.IsBarrel (Settings.barrelNames {})
      (nestedHost.disk.isDirectoryBelow (Disk.pathOf ["r"])) ["index.ts"] ∧
    Request.read ["--write", "index.ts"] = .ok (.run ⟨"index.ts", [.write], none⟩) ∧
    nestedHost.disk.absolute "index.ts" = Disk.pathOf (["r"] ++ ["index.ts"]) ∧
    Request.read ["--write", "."] = .ok (.run ⟨".", [.write], none⟩) ∧
    nestedHost.disk.absolute "." = Disk.pathOf ["r"] ∧
    left ["--write", "index.ts"] = left ["--write", "."] ∧
    left ["--write", "."] = some (.file (encode "export * from \"./a\";\n")) := by
  intro left
  have hfileWords : Request.read ["--write", "index.ts"] =
      .ok (.run ⟨"index.ts", [.write], none⟩) := by decide +kernel
  have hfile : nestedHost.disk.absolute "index.ts" = Disk.pathOf (["r"] ++ ["index.ts"]) := by
    decide +kernel
  have hdirectoryWords : Request.read ["--write", "."] = .ok (.run ⟨".", [.write], none⟩) := by
    decide +kernel
  have hdirectory : nestedHost.disk.absolute "." = Disk.pathOf ["r"] := by decide +kernel
  obtain ⟨bytes, hbytes, -, hleft, hagree⟩ := diskAfter_agree_iff settings_nestedHost
    reaches_nestedHost isBarrel_nestedHost hfileWords hfile hdirectoryWords hdirectory (by decide)
  refine ⟨settings_nestedHost, reaches_nestedHost, isBarrel_nestedHost, hfileWords, hfile,
    hdirectoryWords, hdirectory, hagree.2 (.inr (by decide)), hleft.trans ?_⟩
  rw [if_pos (by decide)]
  exact congrArg (fun new? => some (Node.file (new?.elim bytes encode))) newText?_nestedHost

/-- **A run for a file that prints JSON does not write.** The run for the directory around the file
does. -/
theorem diskAfter_json_differs :
    (diskAfter nestedHost ["--json", "--write", "index.ts"]).root.at? ["r", "index.ts"] =
      some (.file (encode "export * from './a'")) ∧
    (diskAfter nestedHost ["--json", "--write", "."]).root.at? ["r", "index.ts"] =
      some (.file (encode "export * from \"./a\";\n")) ∧
    encode "export * from './a'" ≠ encode "export * from \"./a\";\n" := by
  have hbytes : nestedHost.disk.root.at? (["r"] ++ ["index.ts"]) =
      some (.file (encode "export * from './a'")) := rfl
  have hfileWords : Request.read ["--json", "--write", "index.ts"] =
      .ok (.run ⟨"index.ts", [.json, .write], none⟩) := by decide +kernel
  have hfile : nestedHost.disk.absolute "index.ts" = Disk.pathOf (["r"] ++ ["index.ts"]) := by
    decide +kernel
  have hdirectoryWords : Request.read ["--json", "--write", "."] =
      .ok (.run ⟨".", [.json, .write], none⟩) := by decide +kernel
  have hdirectory : nestedHost.disk.absolute "." = Disk.pathOf ["r"] := by decide +kernel
  refine ⟨?_, ?_, by decide⟩
  · exact at?_diskAfter_file settings_nestedHost reaches_nestedHost isBarrel_nestedHost hbytes
      hfileWords hfile (by decide)
  · refine (at?_diskAfter_directory settings_nestedHost reaches_nestedHost isBarrel_nestedHost hbytes
      hdirectoryWords hdirectory (by decide)).trans ?_
    rw [if_pos (by decide)]
    exact congrArg (fun new? => some (Node.file (new?.elim (encode "export * from './a'") encode)))
      newText?_nestedHost

end Command

end Reexport
