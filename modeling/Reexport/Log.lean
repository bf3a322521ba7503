import Reexport.Json.Writer
import Reexport.Settings
import Reexport.Text.Line
import Reexport.Text.Quoted

/-!
# Log lines

What is shown of the events of a run. A `LogSetup` says from which level on events are shown, and in
which form: a program that is set up shows each as a JSON object, a program that is not shows only
warnings and worse, as plain names and values.
-/

namespace Reexport

/-- What a log line tells of an event. -/
structure Report where
  /-- How important the event is. -/
  level : Level
  /-- The name of the event. -/
  name : String
  /-- Its named values. -/
  fields : List (String × Json)

/-- The report of an event. -/
def Event.report (e : Event) : Report :=
  ⟨e.level, e.name, e.fields⟩

/-! ### Forms -/

/-- The word for what is no number, as a plain line shows it. -/
def NonNumber.shown : NonNumber → String
  | undefined => "nan"
  | infinity => "inf"
  | negativeInfinity => "-inf"

/-- A number with a fraction as a plain line shows it: with a point, or from ten thousand million
million on and below a ten thousandth, with a power of ten. -/
def Json.shownDecimal (digits exponent : Int) : String :=
  if digits = 0 then "0.0"
  else
    let all := (toString digits.natAbs).toList
    let significant := (all.reverse.dropWhile (· = '0')).reverse
    let power := exponent + all.length - 1
    let sign := if digits < 0 then "-" else ""
    let written (whole fraction : List Char) : String :=
      sign ++ String.ofList whole ++
        if fraction.isEmpty then "" else "." ++ String.ofList fraction
    if power < -4 ∨ 16 ≤ power then
      written (significant.take 1) (significant.drop 1) ++ (if power < 0 then "e-" else "e+") ++
        (if power.natAbs < 10 then "0" else "") ++ toString power.natAbs
    else if power < 0 then
      written ['0'] (List.replicate (power.natAbs - 1) '0' ++ significant)
    else
      let places := power.toNat + 1
      let filled := significant ++ List.replicate (places - significant.length) '0'
      let fraction := filled.drop places
      written (filled.take places) (if fraction.isEmpty then ['0'] else fraction)

mutual

/-- A value as a plain line shows it. -/
def Json.shown : Json → String
  | .null => "None"
  | .bool b => if b then "True" else "False"
  | .int n => toString n
  | .decimal d e => Json.shownDecimal d e
  | .nonNumber n => n.shown
  | .string s => Text.quoted s
  | .array items => "[" ++ Json.shownItems items ++ "]"
  | .object members => "\x7b" ++ Json.shownMembers members ++ "\x7d"

/-- The items of a list as a plain line shows them. -/
def Json.shownItems : List Json → String
  | [] => ""
  | [item] => item.shown
  | item :: next :: rest => item.shown ++ ", " ++ Json.shownItems (next :: rest)

/-- The members of an object as a plain line shows them. -/
def Json.shownMembers : List (String × Json) → String
  | [] => ""
  | [(name, value)] => Text.quoted name ++ ": " ++ value.shown
  | (name, value) :: next :: rest =>
    Text.quoted name ++ ": " ++ value.shown ++ ", " ++ Json.shownMembers (next :: rest)

end

namespace Report

/-- The names of values that are no more than requests: to tell of an error that is being dealt
with, or of the calls that led here. There is nothing of either kind to tell. -/
def requests : List String :=
  ["exc_info", "stack_info"]

/-- The values of a report, with its name and level among them. -/
def members (r : Report) : List (String × Json) :=
  Json.setMember (Json.setMember r.fields "event" (.string r.name)) "level" (.string r.level.label)

/-- A report as a JSON object that names who made it. Whoever shows it tells the time. -/
def record (r : Report) (reporter : String) : Json :=
  let told := r.members.filter fun m => !requests.contains m.1 && m.1 ≠ "timestamp"
  .object (Json.setMember told "logger" (.string reporter))

/-- A report as a plain line: the name, then the other values. Only the calls may be told here. -/
def plainLine (r : Report) : String :=
  let others := r.members.filter fun m => m.1 ≠ "event" && m.1 ≠ "exc_info"
  String.intercalate " " ((("event", Json.string r.name) :: others).map fun (name, value) =>
    name ++ "=" ++ value.shown) ++ "\n"

/-- The number of line breaks in a text. -/
def countBreaks (s : String) : Nat :=
  (Text.lines (s.toList ++ ['.'])).length - 1

/-- Whether a text among the values stands between quotes before the eyes of a developer, where no
character in it breaks a line. -/
def needsQuotes (s : String) : Bool :=
  s.toList.any [' ', '\t', '=', '\r', '\n', '"', '\x27'].contains

/-- The number of line breaks in a value before the eyes of a developer. -/
def valueBreaks : Json → Nat
  | .string s => if needsQuotes s then 0 else countBreaks s
  | _ => 0

/-- The number of lines that a report takes before the eyes of a developer. The name of the report
and the names of its values are shown as they are. -/
def consoleHeight (r : Report) : Nat :=
  let apart := requests ++ ["event", "level", "logger", "timestamp"]
  let others := r.fields.filter fun m => !apart.contains m.1
  others.foldl (fun n m => n + countBreaks m.1 + valueBreaks m.2) (1 + countBreaks r.name)

end Report

/-! ### Setup -/

/-- The form in which events are shown. -/
inductive LogForm where
  /-- A JSON object on each line. -/
  | records
  /-- Lines for the eyes of a developer. -/
  | console
  /-- Plain names and values. -/
  | plain
  deriving DecidableEq, Repr

/-- Why a word is no threshold. -/
inductive ThresholdFault where
  /-- The word is that of a template for lines. -/
  | text (template : String)
  /-- The word is that of a table of templates: by a sign, their styles and texts. -/
  | table (templates : List (String × String × String))
  deriving DecidableEq, Repr

/-- The wording of a fault. -/
def ThresholdFault.message : ThresholdFault → String
  | text template => "Unknown level: " ++ Text.quoted template
  | table templates =>
    let shown := templates.map fun (sign, style, template) =>
      Text.quoted sign ++ ": (<class 'logging." ++ style ++ "'>, " ++ Text.quoted template ++ ")"
    "Level not an integer or a valid string: \x7b" ++ String.intercalate ", " shown ++ "\x7d"

/-- Which events are shown, and how. -/
structure LogSetup where
  /-- The form of a line. -/
  form : LogForm
  /-- The least rank of an event that is shown. -/
  threshold : Nat
  deriving DecidableEq, Repr

namespace LogSetup

/-- The words for thresholds. -/
def thresholds : List (String × Nat) :=
  [("CRITICAL", 50), ("FATAL", 50), ("ERROR", 40), ("WARNING", 30), ("WARN", 30), ("INFO", 20),
    ("DEBUG", 10), ("NOTSET", 0)]

/-- The words for something else than a threshold. -/
def otherWords : List (String × ThresholdFault) :=
  let line := "%(levelname)s:%(name)s:%(message)s"
  let braced := "\x7blevelname\x7d:\x7bname\x7d:\x7bmessage\x7d"
  let dollars := "$\x7blevelname\x7d:$\x7bname\x7d:$\x7bmessage\x7d"
  [("BASIC_FORMAT", .text line),
    ("_STYLES", .table [("%", "PercentStyle", line), ("\x7b", "StrFormatStyle", braced),
      ("$", "StringTemplateStyle", dollars)])]

/-- The threshold of a word in small or capital letters; that of `info` for a word that means
nothing. -/
def thresholdOf (word : String) : Except ThresholdFault Nat :=
  let word := Text.upperAscii word
  match otherWords.lookup word with
  | some fault => .error fault
  | none => .ok ((thresholds.lookup word).getD Level.info.rank)

/-- The form for a program with the given settings. -/
def formOf (settings : Settings) : LogForm :=
  if settings.debug then .console else .records

/-- The setup of a program with the given settings. A level that is given counts in place of the one
among the settings. -/
def configured (settings : Settings) (level : Option Level) : LogSetup :=
  ⟨formOf settings, (level.getD settings.logLevel).rank⟩

/-- The setup of a program with the given settings. A word that is not empty counts in place of the
level among the settings. -/
def ofWord (settings : Settings) (word : Option String) : Except ThresholdFault LogSetup :=
  if word.getD "" = "" then .ok (configured settings none)
  else (thresholdOf (word.getD "")).map fun threshold => ⟨formOf settings, threshold⟩

/-- The setup of a program that has not been set up. -/
def quiet : LogSetup :=
  ⟨.plain, Level.warning.rank⟩

/-- Whether events of a level are shown. -/
def shows (setup : LogSetup) (level : Level) : Bool :=
  setup.threshold ≤ level.rank

/-- The events that are shown. -/
def shown (setup : LogSetup) (events : List Event) : List Event :=
  events.filter fun e => setup.shows e.level

end LogSetup

end Reexport
