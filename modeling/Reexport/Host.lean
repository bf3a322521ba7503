import Reexport.Batch
import Reexport.Settings

/-!
# Where the program runs

The disk and the environment that the program finds, and what follows from them: the settings, and
the transformer and the workers for the files on the disk.
-/

namespace Reexport

/-- What the program finds where it runs. -/
structure Host where
  /-- The disk. -/
  disk : Disk
  /-- The variables of the environment. -/
  environment : List (String × String) := []

namespace Host

/-- The path of the environment file. -/
def environmentFile : String := ".env"

/-- The text of the environment file, if there is one. -/
def environmentText (h : Host) : Except SettingsFault (Option String) :=
  match h.disk.bytes? environmentFile with
  | none => .ok none
  | some bytes =>
    match Text.undecodable? bytes with
    | none => .ok (some (Text.decode bytes))
    | some fault => .error (.notText fault)

/-- The settings. -/
def settings (h : Host) : Except SettingsFault Settings := do
  Settings.load [] h.environment (← h.environmentText)

/-- The transformer for the files on the disk. -/
def transformer (h : Host) (settings : Settings) (options : Options) : Transformer :=
  ⟨h.disk.files settings.maxFileSize, options, settings.barrelNames⟩

/-- The number of workers: as many as asked for, or as the settings say if none or zero are asked
for. -/
def workers (settings : Settings) (asked : Option Int) : Int :=
  if asked.getD 0 = 0 then settings.workerCount else asked.getD 0

/-- Processes the barrel files below a directory. -/
def batch (h : Host) (settings : Settings) (options : Options) (asked : Option Int) (path : String)
    (writing : Bool) : Except BatchFault BatchRun :=
  runBatch Disk.write h.disk
    (fun file => (FileResult.ofFile (h.transformer settings options) file).mapError (·.message))
    path settings.barrelNames (workers settings asked) writing

end Host

end Reexport
