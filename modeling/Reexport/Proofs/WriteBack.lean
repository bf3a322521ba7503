import Reexport.Proofs.Discovery
import Reexport.Proofs.Encoding
import Reexport.Proofs.Stages

/-!
# Writing back

The new texts of barrels are written one after another, each to a place of its own. A write that
succeeds changes the file at its place and nothing else, and one that fails changes nothing; either
way the paths of the other barrels lead where they led. So after all writes, the files whose results
say that they are written hold their new texts, and everything else is as it was.

## What is proved

* `Disk.Found.write` — what one write does to the disk.
* `writeBack_cases` — what one write does to the disk and to the result.
* `writeAll_spec` — what all writes together do.
* `faceAt_writeAll` — where none is refused, they leave the new texts of all files that have one.
* `FileResult.ofFile_spec` — what the result of a file says about it.
-/

namespace Reexport

open Text

/-! ### The result of one file -/

/-- A result as it is before writing, without what went wrong. -/
def FileResult.unwritten (r : FileResult) : FileResult :=
  { r with written := false, error := none }

/-- A result tells of a file that was transformed, or of one that cannot be read. -/
theorem FileResult.ofFile_cases {t : Transformer} {file : DiscoveredFile} {r : FileResult}
    (h : FileResult.ofFile t file = .ok r) :
    (∃ transformed, ((t.transformFile file.absolutePath).run []).1 = .ok transformed ∧
      r.relativePath = file.relativePath ∧ r.changed = transformed.changed ∧ r.written = false ∧
        r.error = none ∧
          r.content = if transformed.changed then some transformed.text else none) ∨
    ∃ path why, ((t.transformFile file.absolutePath).run []).1 = .error (.unreadable path why) ∧
      r = .failed file.relativePath (why.message path) := by
  unfold FileResult.ofFile at h
  cases hrun : ((t.transformFile file.absolutePath).run []).1 with
  | error fault =>
    rw [hrun] at h
    cases fault with
    | unreadable path why => exact .inr ⟨path, why, rfl, (Except.ok.inj h).symm⟩
    | interrupted interruption => cases h
  | ok transformed =>
    rw [hrun] at h
    obtain rfl := Except.ok.inj h
    exact .inl ⟨transformed, rfl, rfl, rfl, rfl, rfl, rfl⟩

/-- What the result of a file says about it: a new text is there only for a file that was read, and
differs from what was read. -/
theorem FileResult.ofFile_spec {t : Transformer} {file : DiscoveredFile} {r : FileResult}
    (h : FileResult.ofFile t file = .ok r) : r.relativePath = file.relativePath ∧
      r.written = false ∧ ∀ content, r.content = some content → r.changed = true ∧ r.error = none ∧
        ∃ source, t.files.read file.absolutePath = .ok source ∧ content ≠ source := by
  rcases FileResult.ofFile_cases h with
    ⟨transformed, hrun, hpath, hsame, hwritten, herror, hnew⟩ | ⟨path, why, -, rfl⟩
  · refine ⟨hpath, hwritten, fun content hcontent => ?_⟩
    rw [hcontent] at hnew
    have hchanged : transformed.changed = true := by
      by_contra hsame
      simp [hsame] at hnew
    have htext : transformed.text = content := by simpa [hchanged] using hnew.symm
    obtain ⟨log, hyields⟩ := exists_yields_of_run hrun
    obtain ⟨source, o, hsource, hrest⟩ := yields_bind_iff.1 hyields
    obtain ⟨⟨text, entries⟩, o', -, hpure⟩ := yields_bind_iff.1 hrest
    obtain ⟨rfl, -⟩ := yields_pure_iff.1 hpure
    obtain ⟨hread, -⟩ := Transformer.yields_readFile_iff.1 hsource
    refine ⟨hsame.trans hchanged, herror, source, hread, ?_⟩
    rw [← htext]
    simpa [Transformed.changed] using hchanged
  · exact ⟨rfl, rfl, nofun⟩

/-- Whether a worker can end so: it breaks off, whatever for, or it gives the result of its file. -/
def IsOutcome (t : Transformer) (file : DiscoveredFile) (outcome : Except String FileResult) : Prop :=
  ∀ r, outcome = .ok r → FileResult.ofFile t file = .ok r

/-- A worker that ends with the result of its file, or breaks off where that is interrupted. -/
theorem isOutcome_ofFile (t : Transformer) (file : DiscoveredFile)
    (message : Interruption → String) :
    IsOutcome t file ((FileResult.ofFile t file).mapError message) := by
  intro r hr
  cases hout : FileResult.ofFile t file with
  | error interruption =>
    rw [hout] at hr
    cases hr
  | ok result =>
    rw [hout] at hr
    exact congrArg Except.ok (Except.ok.inj hr)

/-- The outcome of a worker says nothing of writing. -/
theorem settle_unwritten {t : Transformer} {file : DiscoveredFile}
    {outcome : Except String FileResult} (h : IsOutcome t file outcome) :
    (settle file outcome).1.relativePath = file.relativePath ∧
      (settle file outcome).1.written = false := by
  cases outcome with
  | ok r =>
    obtain ⟨hpath, hwritten, -⟩ := FileResult.ofFile_spec (h r rfl)
    exact ⟨hpath, hwritten⟩
  | error text => exact ⟨rfl, rfl⟩

namespace Disk

/-- The text that is read is that of the file at the place of the path. -/
theorem exists_bytes_of_read {d : Disk} {limit : Int} {path source : String}
    (h : d.read limit path = .ok source) : ∃ place bytes,
      d.locate false (Path.plain path) = .ok place ∧ d.root.at? place = some (.file bytes) ∧
        source = decode bytes := by
  unfold read at h
  cases hnode : d.node (Path.plain path) with
  | error fault =>
    rw [hnode] at h
    cases fault <;> cases h
  | ok node =>
    obtain ⟨place, hplace, hat⟩ := node_eq_ok_iff.1 hnode
    rw [hnode] at h
    cases node with
    | file bytes =>
      have hsource : (if limit < bytes.length then .error (.tooLarge bytes.length limit)
          else .ok (decode bytes) : Except Unreadable String) = .ok source := h
      split at hsource
      · cases hsource
      · exact ⟨place, bytes, hplace, hat, (Except.ok.inj hsource).symm⟩
    | link _ | directory _ =>
      have hnone : (if limit < directorySize then .error (.tooLarge directorySize limit)
          else .error (.refused DiskFault.isDirectory.reason) : Except Unreadable String) =
            .ok source := h
      split at hnone <;> cases hnone

/-! ### One write -/

/-- What writing leaves of a disk: paths lead where they led, and only the given places may have other
files. -/
structure Kept (d d' : Disk) : Prop where
  here : d'.here = d.here
  alike : Node.Alike d.root d'.root

theorem Kept.refl (d : Disk) : d.Kept d := ⟨rfl, .refl _⟩

theorem Kept.trans {d d' d'' : Disk} (h : d.Kept d') (h' : d'.Kept d'') : d.Kept d'' :=
  ⟨h'.here.trans h.here, h.alike.trans h'.alike⟩

/-- **One write.** A text that is written to a file that was found stands at the place of the file, and
nothing else is changed. -/
theorem Found.write {d₀ d d' : Disk} {file : DiscoveredFile} {place : List String}
    (hfound : d₀.Found file place) (hkept : d₀.Kept d) {content : String}
    (h : d.write file.absolutePath content = .ok d') : d.Kept d' ∧ ∀ other,
      d'.root.faceAt other =
        if other = place then some (.file (encode content)) else d.root.faceAt other := by
  unfold Disk.write at h
  rw [hfound.plain, locate_alike hkept.alike hkept.here] at h
  cases hlocate : d₀.locate true file.absolutePath with
  | error fault =>
    rw [hlocate] at h
    cases h
  | ok found =>
    obtain rfl := hfound.leads hlocate
    obtain ⟨bytes₀, hfile₀⟩ := hfound.isFile
    obtain ⟨bytes, hfile⟩ := hkept.alike.at?_file hfile₀
    rw [hlocate] at h
    have hdirectory : d.root.isDirectoryAt found = false := by simp [Node.isDirectoryAt, hfile]
    simp only [bind, Except.bind, hdirectory] at h
    obtain rfl := Except.ok.inj h
    exact ⟨⟨rfl, Node.alike_put hfile _⟩, Node.faceAt_put hfile _⟩

/-- Where a file can be read, it can be written. -/
theorem Found.exists_write {d₀ d : Disk} {file : DiscoveredFile} {place : List String}
    (hfound : d₀.Found file place) (hkept : d₀.Kept d)
    (hread : d₀.locate false file.absolutePath = .ok place) (content : String) :
    ∃ d', d.write file.absolutePath content = .ok d' := by
  obtain ⟨bytes₀, hfile₀⟩ := hfound.isFile
  obtain ⟨bytes, hfile⟩ := hkept.alike.at?_file hfile₀
  have hdirectory : d.root.isDirectoryAt place = false := by simp [Node.isDirectoryAt, hfile]
  unfold Disk.write
  rw [hfound.plain, locate_alike hkept.alike hkept.here, locate_true_of_false hread]
  simp only [bind, Except.bind, hdirectory]
  exact ⟨_, rfl⟩

end Disk

section

variable {write : Disk → String → String → Except DiskFault Disk} {d : Disk} {file : DiscoveredFile}
  {r : FileResult} {content : String}

theorem writeBack_none (h : r.content = none) : writeBack write d file r = (d, r, []) := by
  rw [writeBack, h]

theorem writeBack_ok {d' : Disk} (h : r.content = some content)
    (hd : write d file.absolutePath content = .ok d') : writeBack write d file r =
      (d', { r with written := true }, [.written file.relativePath]) := by
  rw [writeBack, h]
  simp only [hd]

theorem writeBack_error {fault : DiskFault} (h : r.content = some content)
    (hd : write d file.absolutePath content = .error fault) : writeBack write d file r =
      (d, { r with error := some ("Cannot write " ++ file.absolutePath ++ ": " ++
        fault.message file.absolutePath) }, []) := by
  rw [writeBack, h]
  simp only [hd]

end

/-- Whether a write that succeeds does what writing to the disk does. -/
def Honest (write : Disk → String → String → Except DiskFault Disk) : Prop :=
  ∀ {d d' : Disk} {path content : String}, write d path content = .ok d' →
    d.write path content = .ok d'

/-- What becomes of a result when its text is to be written. -/
inductive Wrote : FileResult → FileResult → Prop where
  /-- There is nothing to write. -/
  | idle {r : FileResult} (hnone : r.content = none) : Wrote r r
  /-- The text is not written. -/
  | refused {r : FileResult} (text : String) : Wrote r { r with error := some text }
  /-- The text is written. -/
  | written {r : FileResult} {content : String} (hsome : r.content = some content) :
    Wrote r { r with written := true }

theorem Wrote.unwritten {r r' : FileResult} (h : Wrote r r') : r'.unwritten = r.unwritten := by
  cases h <;> rfl

/-- A result that comes to say that it is written has a text, and is the one before but for that. -/
theorem Wrote.eq_of_written {r r' : FileResult} (h : Wrote r r') (hr : r.written = false)
    (hr' : r'.written = true) :
    r' = { r with written := true } ∧ ∃ content, r.content = some content := by
  cases h with
  | idle | refused => exact absurd hr' (by simp [hr])
  | written hsome => exact ⟨rfl, _, hsome⟩

/-- **One file.** Either nothing is written and the result does not say so, or the text is written and
the result says so. -/
theorem writeBack_cases {write : Disk → String → String → Except DiskFault Disk}
    (hwrite : Honest write) (d : Disk) (file : DiscoveredFile) {r : FileResult}
    (hr : r.written = false) : Wrote r (writeBack write d file r).2.1 ∧
      (((writeBack write d file r).2.1.written = false ∧ (writeBack write d file r).1 = d) ∨
        ∃ content, r.content = some content ∧ (writeBack write d file r).2.1.written = true ∧
          d.write file.absolutePath content = .ok (writeBack write d file r).1) := by
  cases hcontent : r.content with
  | none =>
    rw [writeBack_none hcontent]
    exact ⟨.idle hcontent, .inl ⟨hr, rfl⟩⟩
  | some content =>
    cases hd : write d file.absolutePath content with
    | ok d' =>
      rw [writeBack_ok hcontent hd]
      exact ⟨.written hcontent, .inr ⟨content, rfl, rfl, hwrite hd⟩⟩
    | error fault =>
      rw [writeBack_error hcontent hd]
      exact ⟨.refused _, .inl ⟨hr, rfl⟩⟩

/-! ### All writes -/

/-- What the disk and the results are when the new texts of files are written back. -/
structure WrittenBack (placeOf : DiscoveredFile → List String) (result : DiscoveredFile → FileResult)
    (d d' : Disk) (files : List DiscoveredFile) (results : List FileResult) : Prop where
  kept : d.Kept d'
  wrote : List.Forall₂ (fun file r => Wrote (result file) r) files results
  /-- Where nothing is written, everything is as it was. -/
  others : ∀ place, (∀ pair ∈ files.zip results, pair.2.written = true → placeOf pair.1 ≠ place) →
    d'.root.faceAt place = d.root.faceAt place
  /-- Where something is written, the new text is there. -/
  there : ∀ pair ∈ files.zip results, pair.2.written = true → ∃ content,
    (result pair.1).content = some content ∧
      d'.root.faceAt (placeOf pair.1) = some (.file (encode content))

/-- Results differ from those before in what is known after writing alone. -/
theorem WrittenBack.map_unwritten {placeOf : DiscoveredFile → List String}
    {result : DiscoveredFile → FileResult} {d d' : Disk} {files : List DiscoveredFile}
    {results : List FileResult} (h : WrittenBack placeOf result d d' files results) :
    results.map FileResult.unwritten = files.map fun file => (result file).unwritten := by
  have hall : List.Forall₂ (· = ·) (results.map FileResult.unwritten)
      (files.map fun file => (result file).unwritten) :=
    List.forall₂_map_left_iff.2 (List.forall₂_map_right_iff.2
      (h.wrote.flip.imp fun _ _ hwrote => hwrote.unwritten))
  rwa [List.forall₂_eq_eq_eq] at hall

theorem writeAll_cons (write : Disk → String → String → Except DiskFault Disk) (d : Disk)
    (file : DiscoveredFile) (r : FileResult) (rest : List (DiscoveredFile × FileResult)) :
    writeAll write d ((file, r) :: rest) =
      ((writeAll write (writeBack write d file r).1 rest).1,
        (writeBack write d file r).2.1 :: (writeAll write (writeBack write d file r).1 rest).2.1,
        (writeBack write d file r).2.2 ++ (writeAll write (writeBack write d file r).1 rest).2.2) :=
  rfl

/-- **All writes.** Files that were found at places of their own are written one after another. -/
theorem writeAll_spec {write : Disk → String → String → Except DiskFault Disk}
    (hwrite : Honest write) {d₀ d : Disk} (hkept : d₀.Kept d)
    {placeOf : DiscoveredFile → List String} {result : DiscoveredFile → FileResult}
    (hresult : ∀ file, (result file).written = false) {files : List DiscoveredFile}
    (hnodup : (files.map placeOf).Nodup) (hfound : ∀ file ∈ files, d₀.Found file (placeOf file)) :
    WrittenBack placeOf result d (writeAll write d (files.map fun file => (file, result file))).1
      files (writeAll write d (files.map fun file => (file, result file))).2.1 := by
  induction files generalizing d with
  | nil => exact ⟨.refl d, .nil, fun _ _ => rfl, nofun⟩
  | cons file files ih =>
    rw [List.map_cons, List.nodup_cons] at hnodup
    rw [List.forall_mem_cons] at hfound
    obtain ⟨hwrote, hcases⟩ := writeBack_cases hwrite d file (hresult file)
    rw [List.map_cons, writeAll_cons]
    generalize writeBack write d file (result file) = one at hwrote hcases ⊢
    have hone : d.Kept one.1 ∧ ∀ place, (one.2.1.written = true → placeOf file ≠ place) →
        one.1.root.faceAt place = d.root.faceAt place := by
      rcases hcases with ⟨-, hsame⟩ | ⟨content, -, hwritten, hd⟩
      · rw [hsame]
        exact ⟨.refl d, fun _ _ => rfl⟩
      · obtain ⟨hkept', hface⟩ := hfound.1.write hkept hd
        refine ⟨hkept', fun place hne => ?_⟩
        rw [hface, if_neg (Ne.symm (hne hwritten))]
    have hrest := ih (hkept.trans hone.1) hnodup.2 hfound.2
    generalize writeAll write one.1 (files.map fun file => (file, result file)) = more at hrest ⊢
    refine ⟨hone.1.trans hrest.kept, .cons hwrote hrest.wrote, fun place hnone => ?_,
      fun pair hpair hwritten => ?_⟩
    · rw [List.zip_cons_cons, List.forall_mem_cons] at hnone
      exact (hrest.others place hnone.2).trans (hone.2 place hnone.1)
    · rw [List.zip_cons_cons] at hpair
      rcases List.mem_cons.1 hpair with rfl | hpair
      · rcases hcases with ⟨hnone, -⟩ | ⟨content, hcontent, -, hd⟩
        · rw [hnone] at hwritten
          cases hwritten
        · refine ⟨content, hcontent, ?_⟩
          -- No later file stands at the place of the first one.
          have hlater := hrest.others (placeOf file) fun later hlater _ heq =>
            hnodup.1 (heq ▸ List.mem_map_of_mem (List.of_mem_zip hlater).1)
          rw [hlater, (hfound.1.write hkept hd).2, if_pos rfl]
      · exact hrest.there pair hpair hwritten

/-- **One write to the disk.** The new text of a file that can be read, if it has one, stands at the
place of the file. -/
theorem faceAt_writeBack {d₀ d : Disk} (hkept : d₀.Kept d) {file : DiscoveredFile}
    {place : List String} (hfound : d₀.Found file place) {r : FileResult}
    (hread : r.content.isSome = true → d₀.locate false file.absolutePath = .ok place) :
    d₀.Kept (writeBack Disk.write d file r).1 ∧ ∀ other,
      (writeBack Disk.write d file r).1.root.faceAt other =
        if other = place then
          r.content.elim (d.root.faceAt place) fun content => some (.file (encode content))
        else d.root.faceAt other := by
  cases hcontent : r.content with
  | none =>
    rw [writeBack_none hcontent]
    refine ⟨hkept, fun other => ?_⟩
    split
    · rename_i heq
      rw [heq]
      rfl
    · rfl
  | some content =>
    obtain ⟨d', hd'⟩ := hfound.exists_write hkept (hread (by rw [hcontent]; rfl)) content
    obtain ⟨hkept', hface⟩ := hfound.write hkept hd'
    rw [writeBack_ok hcontent hd']
    exact ⟨hkept.trans hkept', hface⟩

/-- **All writes to the disk.** The new texts of files that can be read stand at their places. -/
theorem faceAt_writeAll {d₀ d : Disk} (hkept : d₀.Kept d)
    {placeOf : DiscoveredFile → List String} {result : DiscoveredFile → FileResult}
    (hresult : ∀ file, (result file).written = false) {files : List DiscoveredFile}
    (hnodup : (files.map placeOf).Nodup) (hfound : ∀ file ∈ files, d₀.Found file (placeOf file))
    (hread : ∀ file ∈ files, (result file).content.isSome = true →
      d₀.locate false file.absolutePath = .ok (placeOf file))
    {file : DiscoveredFile} (hfile : file ∈ files) :
    (writeAll Disk.write d (files.map fun file => (file, result file))).1.root.faceAt (placeOf file) =
      (result file).content.elim (d.root.faceAt (placeOf file)) fun content =>
        some (.file (encode content)) := by
  induction files generalizing d with
  | nil => cases hfile
  | cons first files ih =>
    rw [List.map_cons, List.nodup_cons] at hnodup
    rw [List.forall_mem_cons] at hfound hread
    obtain ⟨hkept', hface⟩ := faceAt_writeBack hkept hfound.1 hread.1
    rw [List.map_cons, writeAll_cons]
    rcases List.mem_cons.1 hfile with rfl | hfile
    · -- No later file stands at the place of the first one.
      have hwrite : Honest Disk.write := id
      have hspec := writeAll_spec hwrite hkept' hresult hnodup.2 hfound.2
      rw [hspec.others (placeOf file) fun later hlater _ heq =>
        hnodup.1 (heq ▸ List.mem_map_of_mem (List.of_mem_zip hlater).1), hface, if_pos rfl]
    · have hne : placeOf file ≠ placeOf first := fun heq =>
        hnodup.1 (heq ▸ List.mem_map_of_mem hfile)
      rw [ih hkept' hnodup.2 hfound.2 hread.2 hfile, hface, if_neg hne]

end Reexport
