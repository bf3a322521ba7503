import Reexport.Text.Integer
import Reexport.Text.Quoted

/-!
# Arguments of the command

`Request.read` reads the words of a command line. Each word is first told to be an option, a value,
or the divider `--`, after which all words are values; then the options and values take effect one
after another. A long option may be shortened as far as no other begins in the same way, and options
of one letter may be joined in one word. The first value is the path; a word that has no use is an
error, but only where nothing else is wrong.
-/

namespace Reexport.Command

/-! ### Options -/

/-- An option of the command. -/
inductive Flag where
  /-- Say how the command is used. -/
  | help
  /-- Sort entries. -/
  | sort
  /-- Keep duplicates. -/
  | keepDuplicates
  /-- Follow other barrels. -/
  | resolveBarrels
  /-- Write out namespaces. -/
  | nameStars
  /-- Print what is found as JSON. -/
  | json
  /-- Write files back. -/
  | write
  /-- The number of workers, which is the option's value. -/
  | workers
  /-- Show all events. -/
  | verbose
  deriving DecidableEq, Repr

/-- The written forms of the options. -/
def spellings : List (String × Flag) :=
  [("-h", .help), ("--help", .help), ("--sort", .sort), ("--no-remove-duplicates", .keepDuplicates),
    ("--resolve-barrel", .resolveBarrels), ("--convert-namespace", .nameStars), ("--json", .json),
    ("--write", .write), ("--workers", .workers), ("--verbose", .verbose), ("-v", .verbose)]

/-- The name of an option in messages: its written forms. -/
def Flag.title (flag : Flag) : String :=
  String.intercalate "/" ((spellings.filter (·.2 = flag)).map (·.1))

/-- Whether an option has a value. No option of one letter has. -/
def Flag.takesValue (flag : Flag) : Bool :=
  flag = .workers

/-- What can be wrong with the words of a command line. -/
inductive ArgumentFault where
  /-- A shortened option can mean several. -/
  | ambiguous (word : String) (options : List String)
  /-- An option is given a value that it does not have. -/
  | needlessValue (flag : Flag) (value : String)
  /-- An option is not given its value. -/
  | missingValue (flag : Flag)
  /-- The value of an option is no number. -/
  | notNumber (flag : Flag) (value : String)
  /-- There is no path. -/
  | noPath
  /-- Some words have no use. -/
  | unused (words : List String)
  deriving DecidableEq, Repr

/-- The wording of a fault. -/
def ArgumentFault.message : ArgumentFault → String
  | ambiguous word options =>
    "ambiguous option: " ++ word ++ " could match " ++ String.intercalate ", " options
  | needlessValue flag value =>
    "argument " ++ flag.title ++ ": ignored explicit argument " ++ Text.quoted value
  | missingValue flag => "argument " ++ flag.title ++ ": expected one argument"
  | notNumber flag value =>
    "argument " ++ flag.title ++ ": invalid int value: " ++ Text.quoted value
  | noPath => "the following arguments are required: path"
  | unused words => "unrecognized arguments: " ++ String.intercalate " " words

/-! ### Words -/

/-- What a word of a command line is. -/
inductive Word where
  /-- An option, which may be one letter after one dash, and what is written to it in the same
  word. -/
  | option (flag : Flag) (short : Bool) (value : Option (List Char))
  /-- Something that looks like an option and is none. -/
  | unknown (text : String)
  /-- A value. -/
  | value (text : String)
  /-- The mark after which all words are values. -/
  | divider
  deriving DecidableEq, Repr

/-- A text before and after its first equals sign, if it has one. -/
def splitValue (cs : List Char) : List Char × Option (List Char) :=
  match cs.dropWhile (· ≠ '=') with
  | _ :: value => (cs.takeWhile (· ≠ '='), some value)
  | [] => (cs, none)

/-- Whether a text that begins with a dash is a negative number, and a value therefore: a dash and
digits, or a dash and digits after a point, with or without digits before it. A line break may
follow. -/
def isNegative (cs : List Char) : Bool :=
  let cs := if cs.getLast? = some '\n' then cs.dropLast else cs
  match cs with
  | '-' :: ds =>
    match ds.dropWhile Text.isDecimal with
    | [] => !ds.isEmpty
    | '.' :: fraction => !fraction.isEmpty && fraction.all Text.isDecimal
    | _ => false
  | _ => false

/-- The options that a shortened word can mean, with what is written to them. A word of one dash
means the option of its first letter. -/
def meanings (cs : List Char) : List (String × Flag × Option (List Char)) :=
  match cs with
  | '-' :: '-' :: _ =>
    let (stem, value) := splitValue cs
    (spellings.filter fun s => stem.isPrefixOf s.1.toList).map fun s => (s.1, s.2, value)
  | '-' :: c :: rest =>
    (spellings.filter fun s => s.1.toList = ['-', c]).map fun s => (s.1, s.2, some rest)
  | _ => []

/-- What a word of at least two characters is that begins with a dash. -/
def Word.ofDashed (word : String) (short : Bool) : Except ArgumentFault Word :=
  let cs := word.toList
  let (stem, written) := splitValue cs
  match spellings.lookup (String.ofList stem) with
  | some flag => .ok (.option flag short written)
  | none =>
    match meanings cs with
    | [] => .ok (if isNegative cs || cs.contains ' ' then .value word else .unknown word)
    | [(_, flag, written)] => .ok (.option flag short written)
    | several => .error (.ambiguous word (several.map (·.1)))

/-- What a word is before the divider. -/
def Word.ofText (word : String) : Except ArgumentFault Word :=
  match word.toList with
  | '-' :: c :: _ => Word.ofDashed word (c ≠ '-')
  | _ => .ok (.value word)

/-- What the words of a command line are. -/
def classify : List String → Except ArgumentFault (List Word)
  | [] => .ok []
  | word :: rest =>
    if word = "--" then .ok (.divider :: rest.map .value)
    else do return (← Word.ofText word) :: (← classify rest)

/-! ### Effects -/

/-- What is known of a command line after some of its words. -/
structure Reading where
  /-- The path. -/
  path : Option String := none
  /-- Whether the word read last is the path. -/
  atPath : Bool := false
  /-- The options given. -/
  flags : List Flag := []
  /-- The number of workers. -/
  workers : Option Int := none
  /-- The words that have no use. -/
  unused : List String := []

namespace Reading

/-- After a value. -/
def value (r : Reading) (text : String) : Reading :=
  if r.path.isNone then { r with path := some text, atPath := true }
  else { r with atPath := false, unused := r.unused ++ [text] }

/-- After a word that has no use. -/
def unknown (r : Reading) (text : String) : Reading :=
  { r with atPath := false, unused := r.unused ++ [text] }

/-- After the divider, which goes with the path if it stands beside it. -/
def divider (r : Reading) : Reading :=
  if r.path.isNone || r.atPath then { r with atPath := false } else r.unknown "--"

/-- After options without a value. -/
def options (r : Reading) (flags : List Flag) : Reading :=
  { r with atPath := false, flags := r.flags ++ flags }

/-- After the number of workers. The divider in its place takes back a number given before. -/
def number (r : Reading) (text : String) : Except ArgumentFault Reading :=
  if text = "--" then .ok { r with atPath := false, workers := none }
  else match Text.integer? text with
    | some n => .ok { r with atPath := false, workers := some n }
    | none => .error (.notNumber .workers text)

end Reading

/-- The options joined in one word: the first one, and those of the letters that follow. -/
def joined (flag : Flag) : List Char → Except ArgumentFault (List Flag)
  | [] => .ok [flag]
  | c :: rest =>
    match spellings.lookup (String.ofList ['-', c]) with
    | some next => (joined next rest).map (flag :: ·)
    | none => .error (.needlessValue flag (String.ofList (c :: rest)))

/-- The options without a value of one word, and what is written to them. -/
def optionsOf (flag : Flag) (short : Bool) : Option (List Char) → Except ArgumentFault (List Flag)
  | none => .ok [flag]
  | some (c :: rest) =>
    if short then joined flag (c :: rest)
    else .error (.needlessValue flag (String.ofList (c :: rest)))
  | some [] => .error (.needlessValue flag "")

/-- What is known after all words; nothing if one of them asks for help. -/
def follow : List Word → Reading → Except ArgumentFault (Option Reading)
  | [], r => .ok (some r)
  | .value text :: rest, r => follow rest (r.value text)
  | .unknown text :: rest, r => follow rest (r.unknown text)
  | .divider :: rest, r => follow rest r.divider
  | .option flag short value :: rest, r => do
    if flag.takesValue then
      match value, rest with
      | some text, rest => follow rest (← r.number (String.ofList text))
      | none, .value text :: rest => follow rest (← r.number text)
      | none, _ => throw (.missingValue flag)
    else
      let flags ← optionsOf flag short value
      if .help ∈ flags then return none
      follow rest (r.options flags)

/-! ### Requests -/

/-- The arguments of a run. -/
structure Arguments where
  /-- The file or directory to work on. -/
  path : String
  /-- The options given. -/
  flags : List Flag := []
  /-- The number of workers. -/
  workers : Option Int := none
  deriving DecidableEq, Repr

/-- Whether an option is given. -/
def Arguments.has (a : Arguments) (flag : Flag) : Bool :=
  a.flags.contains flag

/-- What a command line asks for. -/
inductive Request where
  /-- How the command is used. -/
  | help
  /-- A run. -/
  | run (arguments : Arguments)
  deriving DecidableEq, Repr

/-- What the words of a command line ask for. -/
def Request.read (words : List String) : Except ArgumentFault Request := do
  match ← follow (← classify words) {} with
  | none => return .help
  | some r =>
    match r.path with
    | none => throw .noPath
    | some path =>
      if r.unused.isEmpty then return .run ⟨path, r.flags, r.workers⟩
      else throw (.unused r.unused)

end Reexport.Command
