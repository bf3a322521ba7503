import Reexport.Event
import Reexport.Json.Reader
import Reexport.Options
import Reexport.Settings.Dotenv
import Reexport.Text.Case
import Reexport.Text.Utf8
import Reexport.Validation

/-!
# Settings

The settings of the program, from three places: values given outright, the environment, and an
environment file. The first of them that has a setting decides it. In the environment a setting is
named by its own name after `BARREL_RESOLVER_`, in small or capital letters.
-/

namespace Reexport

/-- How a process for workers is started. -/
inductive StartMethod where
  | fork
  | forkserver
  | spawn
  deriving DecidableEq, Repr

/-- The word for a start method. -/
def StartMethod.label : StartMethod → String
  | fork => "fork"
  | forkserver => "forkserver"
  | spawn => "spawn"

/-- All start methods. -/
def StartMethod.all : List StartMethod :=
  [fork, forkserver, spawn]

/-- The start method of a word. -/
def StartMethod.ofLabel? (label : String) : Option StartMethod :=
  StartMethod.all.find? (·.label == label)

/-- The level of a word in small or capital letters. -/
def Level.ofWord? (word : String) : Option Level :=
  Level.all.find? fun l =>
    Text.upperAscii l.label == Text.upperAscii word

/-- The settings of the program. -/
structure Settings where
  /-- The name of the program. -/
  appName : String := "barrel-resolver"
  /-- Whether the program shows its work to a developer. -/
  debug : Bool := false
  /-- The level from which on events are shown. -/
  logLevel : Level := .info
  /-- How many workers process a directory. -/
  workerCount : Nat := 4
  /-- How workers are started; the system's way if none is given. -/
  startMethod : Option StartMethod := none
  /-- The size from which on a file is not read. -/
  maxFileSize : Int := 1000000
  /-- The names of barrel files. -/
  barrelNames : List String := ["index.js", "index.jsx", "index.ts", "index.tsx"]
  /-- The stages that are on. -/
  options : Options := {}
  deriving DecidableEq, Repr

/-- Why there are no settings. -/
inductive SettingsFault where
  /-- Values do not fit. -/
  | invalid (complaints : List Complaint)
  /-- The text of a list is no JSON; `place` names where it was found. -/
  | undecodable (setting place : String)
  /-- The environment file is no text. -/
  | notText (fault : Text.Undecodable)
  deriving DecidableEq, Repr

/-- The wording of a list that cannot be decoded. -/
def SettingsFault.undecodableMessage (setting place : String) : String :=
  "error parsing value for field \"" ++ setting ++ "\" from source \"" ++ place ++ "\""

/-- The wording of a fault, with one complaint on a line. -/
def SettingsFault.message : SettingsFault → String
  | invalid complaints => String.intercalate "\n" (complaints.map (·.message))
  | undecodable setting place => undecodableMessage setting place
  | notText fault => fault.message

namespace Settings

/-- The names of the settings, in the order in which complaints are made. -/
def names : List String :=
  ["app_name", "debug", "log_level", "worker_count", "worker_start_method", "max_file_size_bytes",
    "barrel_file_names", "remove_duplicates", "sort", "resolve_barrel_exports",
    "convert_namespace_to_named"]

/-- The setting that is a list, written as JSON. -/
def listName : String := "barrel_file_names"

/-- The beginning of the names of settings in the environment. -/
def environmentStem : String := "barrel_resolver_"

/-! ### Places -/

/-- The value of a setting as a place gives it: the text, or for a list, what the text encodes. -/
def decode (place name text : String) : Except SettingsFault (List (String × Json)) :=
  if name = listName then
    match Json.read? text with
    | some .null => .ok []
    | some value => .ok [(name, value)]
    | none => .error (.undecodable name place)
  else .ok [(name, .string text)]

/-- The settings among variables, whose names are in small letters. The last value of a name
counts. -/
def ofVariables (place : String) (definitions : List (String × Option String)) :
    Except SettingsFault (List (String × Json)) := do
  let found ← names.mapM fun name =>
    match (Dotenv.valueOf? definitions (environmentStem ++ name)).join with
    | some text => decode place name text
    | none => .ok []
  return found.flatten

/-- Whether a variable of an environment file means something that a file may not set: it names no
setting, and has a value. -/
def isUnknown (name : String) (value : Option String) : Bool :=
  value.getD "" ≠ "" && !names.contains name && !names.any fun n => environmentStem ++ n == name

/-- Variables with their names in small letters. -/
def lowerNames {α : Type} (definitions : List (String × α)) : List (String × α) :=
  definitions.map fun (name, value) => (Text.lower name, value)

/-- Values with those of less weight added for names that have none. -/
def override (strong weak : List (String × Json)) : List (String × Json) :=
  strong ++ weak.filter fun w => !strong.any (·.1 == w.1)

/-- Names, each once and in the order of their first use, with their last values. -/
def lastValues {α : Type} (definitions : List (String × α)) : List (String × α) :=
  definitions.foldl (fun done v =>
    if done.any (·.1 == v.1) then done.map fun d => if d.1 == v.1 then v else d
    else done ++ [v]) []

/-! ### Checks -/

open Checked

/-- The rule of a setting whose value is one of a few words. -/
def choiceText (name : String) (words : List String) : String :=
  name ++ " must be one of " ++ String.intercalate ", " words

/-- The level of a text. -/
def checkLevel (value : Json) : Checked Level := do
  match Level.ofWord? (← value.checkText) with
  | some level => .ok level
  | none => fail (.rule (choiceText "log_level" (Level.all.map fun l => Text.upperAscii l.label)))

/-- A number of workers. -/
def checkWorkers (value : Json) : Checked Nat := do
  let n ← value.checkInteger
  if n < 1 then fail (.rule "worker_count must be >= 1") else .ok n.toNat

/-- A start method, or none. -/
def checkStart : Json → Checked (Option StartMethod)
  | .null => .ok none
  | value => do
    match StartMethod.ofLabel? (← value.checkText) with
    | some method => .ok (some method)
    | none => fail (.rule (choiceText "worker_start_method" (StartMethod.all.map (·.label))))

/-- The check of the value given for a setting, or the setting's own value if none is given. -/
def checkValue {α : Type} (given : List (String × Json)) (name : String) (check : Json → Checked α)
    (own : α) : Checked α :=
  match given.lookup name with
  | some value => within (.member name) (check value)
  | none => .ok own

/-- Complaints about values for which there is no setting. -/
def checkNames (given : List (String × Json)) : Checked Unit :=
  (all ((given.filter fun g => !names.contains g.1).map fun g =>
    within (.member g.1) (fail (α := Unit) .unknown))).map fun _ => ()

/-- The options of given values. -/
def checkOptions (given : List (String × Json)) (own : Options) : Checked Options :=
  (both (checkValue given "remove_duplicates" Json.checkTruth own.removeDuplicates)
    (both (checkValue given "sort" Json.checkTruth own.sort)
      (both (checkValue given "resolve_barrel_exports" Json.checkTruth own.resolveBarrels)
        (checkValue given "convert_namespace_to_named" Json.checkTruth own.nameStars)))).map
    fun (removeDuplicates, sort, resolveBarrels, nameStars) =>
      ⟨removeDuplicates, sort, resolveBarrels, nameStars⟩

/-- The settings of given values. -/
def ofValues (given : List (String × Json)) : Checked Settings :=
  let own : Settings := {}
  (both (checkValue given "app_name" Json.checkText own.appName)
    (both (checkValue given "debug" Json.checkTruth own.debug)
      (both (checkValue given "log_level" checkLevel own.logLevel)
        (both (checkValue given "worker_count" checkWorkers own.workerCount)
          (both (checkValue given "worker_start_method" checkStart own.startMethod)
            (both (checkValue given "max_file_size_bytes" Json.checkInteger own.maxFileSize)
              (both (checkValue given listName Json.checkTextSet own.barrelNames)
                (both (checkOptions given own.options) (checkNames given))))))))).map
    fun (appName, debug, logLevel, workerCount, startMethod, maxFileSize, barrelNames, options,
        _) =>
      ⟨appName, debug, logLevel, workerCount, startMethod, maxFileSize, barrelNames, options⟩

/-- The settings for values given outright, an environment, and the text of an environment file. -/
def load (given : List (String × Json)) (environment : List (String × String))
    (file : Option String) : Except SettingsFault Settings := do
  let definitions := lowerNames (environment.map fun (name, value) => (name, some value))
  let fromEnvironment ← ofVariables "EnvSettingsSource" definitions
  let lines := lowerNames (lastValues (Dotenv.read environment (file.getD "")))
  let fromFile ← ofVariables "DotEnvSettingsSource" lines
  let unknown := (lastValues lines).filterMap fun (name, value) =>
    if isUnknown name value then some (name, .string (value.getD "")) else none
  match ofValues (override given (override fromEnvironment (fromFile ++ unknown))) with
  | .ok settings => .ok settings
  | .error complaints => .error (.invalid complaints)

end Settings

end Reexport
