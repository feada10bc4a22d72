import DirWatch.Number.Integer
import DirWatch.Path
import DirWatch.Text.Quoted

/-!
# Arguments

The words of a command line are first told apart (`Word.ofTexts`): options by their full name or by the start of it, with
a value behind an equals sign or in the next word; everything else, negative numbers among it, is an argument, and so is
every word behind the separator. Then they are taken in order (`Arguments.read`). The paths stand together in one place;
what stands elsewhere is not recognized.
-/

namespace DirWatch

/-- The options. -/
inductive CommandOption where
  | help
  | interval
  | ignore
  deriving DecidableEq, Repr, Inhabited

namespace CommandOption

/-- The names of the options, in the order in which they are compared with the start of a name. -/
def names : List (String × CommandOption) :=
  [("-h", help), ("--help", help), ("--interval-ms", interval), ("--ignore", ignore)]

/-- All names of an option, as messages show them. -/
def title : CommandOption → String
  | help => "-h/--help"
  | interval => "--interval-ms"
  | ignore => "--ignore"

end CommandOption

/-- Why a command line is refused. -/
inductive ArgumentError where
  | ambiguous (word : String) (names : List String)
  | valueMissing (option : CommandOption)
  | valueUnexpected (option : CommandOption) (value : String)
  | notAnInteger (option : CommandOption) (value : String)
  | pathsMissing
  | unrecognized (words : List String)
  deriving DecidableEq, Repr, Inhabited

namespace ArgumentError

/-- A message about one option. -/
def about (option : CommandOption) (message : String) : String :=
  "argument " ++ option.title ++ ": " ++ message

def message : ArgumentError → String
  | ambiguous word names => "ambiguous option: " ++ word ++ " could match " ++ ", ".intercalate names
  | valueMissing option => about option "expected one argument"
  | valueUnexpected option value => about option ("ignored explicit argument " ++ Text.quoted value)
  | notAnInteger option value => about option ("invalid int value: " ++ Text.quoted value)
  | pathsMissing => "the following arguments are required: paths"
  | unrecognized words => "unrecognized arguments: " ++ " ".intercalate words

end ArgumentError

/-- A value that is part of the word of its option. -/
inductive AttachedValue where
  /-- It stands behind an equals sign. -/
  | assigned (value : String)
  /-- It follows the one letter of the option. -/
  | appended (value : String)
  deriving DecidableEq, Repr, Inhabited

/-- A word of a command line. -/
inductive Word where
  | argument (text : String)
  | separator
  | option (option : CommandOption) (attached : Option AttachedValue)
  | unknownOption (text : String)
  deriving DecidableEq, Repr, Inhabited

namespace Word

/-- The text of a word that is no option. -/
def text : Word → String
  | argument text | unknownOption text => text
  | separator => "--"
  | option .. => ""

/-- Cuts a text at the first equals sign. -/
def cutAssigned (s : String) : String × Option String :=
  let chars := s.toList
  match chars.dropWhile (· != '=') with
  | [] => (s, none)
  | _ :: value => (String.ofList (chars.takeWhile (· != '=')), some (String.ofList value))

/-- The options that a word may mean without naming one in full, each with the name that it starts. -/
def candidates (s : String) : List (String × Word) :=
  let (start, value) := cutAssigned s
  match s.toList with
  | '-' :: '-' :: _ =>
    (CommandOption.names.filter fun n => start.toList.isPrefixOf n.1.toList).map fun n =>
      (n.1, .option n.2 (value.map .assigned))
  | '-' :: letter :: rest =>
    CommandOption.names.filterMap fun n =>
      if n.1.toList = ['-', letter] then some (n.1, .option n.2 (some (.appended (String.ofList rest))))
      else if s.toList.isPrefixOf n.1.toList then some (n.1, .option n.2 none)
      else none
  | _ => []

/-- Whether a text is a negative number: digits with at most one point, and a digit behind the point. A line feed at the
end does not count. -/
def isNegativeNumber (s : String) : Bool :=
  let isDigit (c : Char) : Bool := (Text.digitValue? c).isSome
  let spelled (s : List Char) : Bool :=
    match s with
    | '-' :: rest =>
      match rest.dropWhile isDigit with
      | [] => !rest.isEmpty
      | '.' :: decimals => !decimals.isEmpty && decimals.all isDigit
      | _ => false
    | _ => false
  let chars := s.toList
  spelled chars || chars.getLast? = some '\n' && spelled chars.dropLast

/-- Tells what a word is, the separator apart. -/
def ofText (s : String) : Except ArgumentError Word :=
  match s.toList with
  | '-' :: _ :: _ =>
    match CommandOption.names.lookup s, cutAssigned s with
    | some o, _ => .ok (.option o none)
    | none, (name, value) =>
      match value, CommandOption.names.lookup name with
      | some value, some o => .ok (.option o (some (.assigned value)))
      | _, _ =>
        match candidates s with
        | [(_, word)] => .ok word
        | [] => .ok (if isNegativeNumber s || s.toList.contains ' ' then .argument s else .unknownOption s)
        | several => .error (.ambiguous s (several.map (·.1)))
  | _ => .ok (.argument s)

/-- Tells what the words of a command line are. Behind the separator there are arguments only. -/
def ofTexts : List String → Except ArgumentError (List Word)
  | [] => .ok []
  | s :: rest =>
    if s = "--" then .ok (.separator :: rest.map .argument)
    else
      match ofText s with
      | .error e => .error e
      | .ok word => (ofTexts rest).map (word :: ·)

end Word

/-- What a command line asks for. -/
structure Arguments where
  paths : List String := []
  intervalMs : Option Int := none
  /-- The patterns given, if any were. -/
  ignored : Option (List String) := none
  deriving DecidableEq, Repr, Inhabited

namespace Arguments

/-- What has been taken from a command line so far. -/
structure Progress where
  taken : Arguments := {}
  /-- The arguments and separators since the last option. -/
  held : List Word := []
  unrecognized : List String := []
  deriving Inhabited

/-- Ends a run of arguments. The first run that has any holds the paths. -/
def Progress.settle (p : Progress) : Progress :=
  let texts := p.held.filterMap fun word =>
    match word with
    | .argument text => some text
    | _ => none
  if p.taken.paths.isEmpty && !texts.isEmpty then { p with taken := { p.taken with paths := texts }, held := [] }
  else { p with held := [], unrecognized := p.unrecognized ++ p.held.map Word.text }

/-- Takes the value of an option. -/
def Progress.give (p : Progress) (option : CommandOption) (value : String) : Except ArgumentError Progress :=
  match option with
  | .help => .error (.valueUnexpected .help value)
  | .interval =>
    match Integer.readArgument? value with
    | some n => .ok { p with taken := { p.taken with intervalMs := some n } }
    | none => .error (.notAnInteger .interval value)
  | .ignore => .ok { p with taken := { p.taken with ignored := some (p.taken.ignored.getD [] ++ [value]) } }

/-- Checks the letters that follow the one that asks for help. More of the same may follow, and anything that is neither a
value nor an option does not matter. -/
def checkAppended : List Char → Except ArgumentError Unit
  | [] => .ok ()
  | '-' :: rest => .error (.valueUnexpected .help (String.ofList ('-' :: rest)))
  | 'h' :: '=' :: value => .error (.valueUnexpected .help (String.ofList value))
  | 'h' :: rest => checkAppended rest
  | _ :: _ => .ok ()

/-- Checks that nothing is given to the option that asks for help. -/
def checkHelp : Option AttachedValue → Except ArgumentError Unit
  | none => .ok ()
  | some (.assigned value) => .error (.valueUnexpected .help value)
  | some (.appended value) => checkAppended value.toList

/-- The end of a command line. -/
def Progress.finish (p : Progress) : Except ArgumentError Arguments :=
  let p := p.settle
  if p.taken.paths.isEmpty then .error .pathsMissing
  else if p.unrecognized.isEmpty then .ok p.taken
  else .error (.unrecognized p.unrecognized)

/-- Takes the words in order. A command line that asks for help asks for nothing else. -/
def take (p : Progress) : List Word → Except ArgumentError (Option Arguments)
  | [] => p.finish.map some
  | .option .help attached :: _ => (checkHelp attached).map fun _ => none
  | .option option (some (.assigned value)) :: rest | .option option (some (.appended value)) :: rest =>
    match p.settle.give option value with
    | .error e => .error e
    | .ok p => take p rest
  | .option option none :: .argument value :: rest =>
    match p.settle.give option value with
    | .error e => .error e
    | .ok p => take p rest
  | .option option none :: _ => .error (.valueMissing option)
  | .unknownOption text :: rest =>
    let p := p.settle
    take { p with unrecognized := p.unrecognized ++ [text] } rest
  | word :: rest => take { p with held := p.held ++ [word] } rest

/-- Reads a command line. There are no arguments in one that asks for help. -/
def read (texts : List String) : Except ArgumentError (Option Arguments) :=
  match Word.ofTexts texts with
  | .error e => .error e
  | .ok words => take {} words

end Arguments

/-! ## What is said about the command line -/

namespace CommandLine

def program : String := "watch_tree.py"

def usage : String :=
  "usage: " ++ program ++ " [-h] [--interval-ms INTERVAL_MS] [--ignore IGNORE]\n" ++
  "                     paths [paths ...]\n"

def help : String :=
  usage ++ "\n" ++
  "Poll directories for changes and print them\n" ++ "\n" ++
  "positional arguments:\n" ++
  "  paths                 Directories to watch\n" ++ "\n" ++
  "options:\n" ++
  "  -h, --help            show this help message and exit\n" ++
  "  --interval-ms INTERVAL_MS\n" ++
  "                        Milliseconds between polls\n" ++
  "  --ignore IGNORE       Glob pattern to exclude (repeatable)\n"

/-- What is said about a command line that is refused. -/
def complaint (e : ArgumentError) : String :=
  usage ++ program ++ ": error: " ++ e.message ++ "\n"

end CommandLine

end DirWatch
