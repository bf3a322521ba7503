import Reexport.Command.Arguments
import Reexport.Host
import Reexport.Json.Writer
import Reexport.Log

/-!
# The command

`Command.run` transforms the file or the directory named on a command line. The new text of a file
is printed, or written back where that is asked for; of a directory, a line is printed for each
barrel. The status is 1 if something could not be read or written, and 2 if the command line makes
no sense.
-/

namespace Reexport.Command

/-- What ends a run for good. -/
inductive Fault where
  /-- There are no settings. -/
  | settings (fault : SettingsFault)
  /-- The directory cannot be processed. -/
  | batch (fault : BatchFault)
  /-- Following re-exports was interrupted. -/
  | interrupted (interruption : Interruption)
  /-- The file cannot be written. -/
  | unwritable (path : String) (fault : DiskFault)
  deriving DecidableEq, Repr

/-- The wording of a fault. -/
def Fault.message : Fault → String
  | settings fault => fault.message
  | batch fault => fault.message
  | interrupted interruption => interruption.message
  | unwritable path fault => fault.message path

/-- What a run leaves behind. -/
structure Outcome where
  /-- The status: 0 if all went well. -/
  status : Nat := 0
  /-- The text printed. -/
  output : String := ""
  /-- The text said besides. -/
  messages : String := ""
  /-- The disk afterwards. -/
  disk : Disk
  /-- The events reported. -/
  log : List Event := []

/-! ### A file -/

/-- An entry as it is printed. -/
def entryJson (e : Entry) : Json :=
  .object [("specifier", .string e.specifier), ("source", .string e.source),
    ("kind", .string e.kind.label), ("alias", .ofString? e.asName),
    ("is_type_only", .bool e.isTypeOnly), ("line", .ofNat e.originLine)]

/-- A list of values as it is printed, with its length. -/
def listing (name : String) (items : List Json) : String :=
  Json.renderIndented (.object [("count", .ofNat items.length), (name, .array items)]) ++ "\n"

/-- What is done with a file that was transformed. -/
def finishFile (d : Disk) (a : Arguments) (path : String) (r : Transformed) (log : List Event) :
    Except Fault Outcome :=
  if a.has .json then .ok { output := listing "exports" (r.entries.map entryJson), disk := d, log }
  else if a.has .write then
    if r.changed then
      match d.write path r.text with
      | .ok disk => .ok { messages := "Rewrote " ++ path ++ "\n", disk, log }
      | .error fault => .error (.unwritable path fault)
    else .ok { disk := d, log }
  else .ok { output := r.text, disk := d, log }

/-- The run for a file. -/
def runFile (h : Host) (t : Transformer) (a : Arguments) (path : String) : Except Fault Outcome :=
  match (t.transformFile path).run [] with
  | (.ok r, log) => finishFile h.disk a path r log
  | (.error (.unreadable path why), log) =>
    .ok { status := 1, messages := "Error: " ++ why.message path ++ "\n", disk := h.disk, log }
  | (.error (.interrupted interruption), _) => .error (.interrupted interruption)

/-! ### A directory -/

/-- The result of a barrel as it is printed. -/
def resultJson (r : FileResult) : Json :=
  .object [("path", .string r.relativePath), ("changed", .bool r.changed),
    ("exports", .ofNat r.exportCount), ("written", .bool r.written), ("error", .ofString? r.error)]

/-- Whether a barrel failed. An error without words counts as none. -/
def hasFailed (r : FileResult) : Bool :=
  r.error.getD "" ≠ ""

/-- What became of a barrel, in words. -/
def statusText (r : FileResult) : String :=
  if hasFailed r then "error: " ++ r.error.getD ""
  else if r.written then "rewritten"
  else if r.changed then "would change"
  else "unchanged"

/-- The line for a barrel. -/
def resultLine (r : FileResult) : String :=
  r.relativePath ++ "\t" ++ toString r.exportCount ++ " exports\t" ++ statusText r ++ "\n"

/-- What is done with a batch. -/
def finishDirectory (a : Arguments) (run : BatchRun) : Outcome where
  status := if run.results.any hasFailed then 1 else 0
  output :=
    if a.has .json then listing "files" (run.results.map resultJson)
    else String.join (run.results.map resultLine)
  disk := run.disk
  log := run.log

/-- The run for a directory. -/
def runDirectory (h : Host) (settings : Settings) (options : Options) (a : Arguments)
    (path : String) : Except Fault Outcome :=
  match h.batch settings options a.workers path (a.has .write) with
  | .error fault => .error (.batch fault)
  | .ok run => .ok (finishDirectory a run)

/-! ### All -/

/-- The stages to go through: those of the settings, changed by the options of the command. -/
def Arguments.stages (a : Arguments) (own : Options) : Options where
  removeDuplicates := own.removeDuplicates && !a.has .keepDuplicates
  sort := own.sort || a.has .sort
  resolveBarrels := own.resolveBarrels || a.has .resolveBarrels
  nameStars := own.nameStars || a.has .nameStars

/-- How events are shown. -/
def Arguments.logSetup (a : Arguments) (settings : Settings) : LogSetup :=
  .configured settings (if a.has .verbose then some .debug else none)

/-- The run of a command line that makes sense, with the events that are shown. -/
def runArguments (h : Host) (a : Arguments) : Except Fault (LogSetup × Outcome) := do
  let settings ← h.settings.mapError .settings
  let setup := a.logSetup settings
  let options := a.stages settings.options
  let path := h.disk.absolute a.path
  let outcome ←
    if h.disk.isDirectory path then runDirectory h settings options a path
    else runFile h (h.transformer settings options) a path
  let log := .commandStarted path options.listing :: outcome.log
  return (setup, { outcome with log := setup.shown log })

/-- What comes of a command line. -/
inductive Answer where
  /-- How the command is used. -/
  | help
  /-- The command line makes no sense. -/
  | refused (fault : ArgumentFault)
  /-- A run came to its end. -/
  | finished (setup : LogSetup) (outcome : Outcome)

/-- The name of the command. -/
def programName : String := "barrel-resolver"

/-- What is said of a command line that makes no sense. -/
def refusal (fault : ArgumentFault) : String :=
  programName ++ ": error: " ++ fault.message

/-- How the command is used. -/
def usage : String :=
  "usage: " ++ programName ++ " [" ++ String.intercalate "] [" (spellings.map fun s =>
    if s.2.takesValue then s.1 ++ " NUMBER" else s.1) ++ "] path"

/-- The status after a command line that makes no sense. -/
def refusalStatus : Nat := 2

/-- Runs the command. -/
def run (h : Host) (words : List String) : Except Fault Answer :=
  match Request.read words with
  | .error fault => .ok (.refused fault)
  | .ok .help => .ok .help
  | .ok (.run a) => (runArguments h a).map fun (setup, outcome) => .finished setup outcome

end Reexport.Command
