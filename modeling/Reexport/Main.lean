import Reexport.Command

/-!
# The program

Takes up the files around the current directory, runs the command on them, and carries out what
comes of it: files are written, texts printed, and the events shown one on a line.
-/

namespace Reexport

/-- What stands at an entry of a directory. What cannot be read is left out; a link is taken up as
the place that it leads to. -/
partial def readEntry (entry : IO.FS.DirEntry) : IO (Option (String × Node)) := do
  try
    match (← entry.path.symlinkMetadata).type with
    | .dir =>
      let inner ← (← entry.path.readDir).toList.filterMapM readEntry
      return some (entry.fileName, .directory inner)
    | .file => return some (entry.fileName, .file (← IO.FS.readBinFile entry.path).toList)
    | .symlink => return some (entry.fileName, .link (← IO.FS.realPath entry.path).toString)
    | .other => return none
  catch _ => return none

/-- Adds what stands below a directory to a tree; nothing if the directory cannot be read. -/
def readBelow (root : Node) (directory : String) : IO Node := do
  try
    let inner ← (← (← IO.FS.realPath directory).readDir).toList.filterMapM readEntry
    return Node.put (.directory inner) ((Disk.segments directory).filter (· ≠ "")) root
  catch _ => return root

/-- The directories to take up: the current one, and that of the path to work on if it lies
elsewhere. -/
def directoriesFor (here : String) (words : List String) : List String :=
  match Command.Request.read words with
  | .ok (.run a) =>
    let path := Path.normalize (Path.join here a.path)
    if (here ++ "/").toList.isPrefixOf (path ++ "/").toList then [here]
    else [here, Path.directory path]
  | _ => [here]

/-- The values of the settings in the environment. -/
def readEnvironment : IO (List (String × String)) := do
  let names := Settings.names.map (Settings.environmentStem ++ ·)
  (names ++ names.map Text.upperAscii).filterMapM fun name => do
    return (← IO.getEnv name).map fun value => (name, value)

/-- Carries out what comes of a run. -/
def finish (before : Disk) (setup : LogSetup) (o : Command.Outcome) : IO UInt32 := do
  for (place, bytes) in Disk.changedFiles before o.disk do
    IO.FS.writeBinFile (Disk.pathOf place) (ByteArray.mk bytes.toArray)
  for event in o.log do
    match setup.form with
    | .records => IO.eprintln (event.report.record event.reporter).render
    | _ => IO.eprint event.report.plainLine
  IO.eprint o.messages
  IO.print o.output
  return UInt32.ofNat o.status

end Reexport

open Reexport in
/-- Runs the command. -/
def main (words : List String) : IO UInt32 := do
  let here := (← IO.currentDir).toString
  let root ← (directoriesFor here words).foldlM readBelow (.directory [])
  let host : Host := ⟨⟨root, (Disk.segments here).filter (· ≠ "")⟩, ← readEnvironment⟩
  match Command.run host words with
  | .ok .help =>
    IO.println Command.usage
    return 0
  | .ok (.refused fault) =>
    IO.eprintln Command.usage
    IO.eprintln (Command.refusal fault)
    return UInt32.ofNat Command.refusalStatus
  | .ok (.finished setup outcome) => finish host.disk setup outcome
  | .error fault =>
    IO.eprintln fault.message
    return 1
