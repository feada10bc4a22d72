import DirWatch.Json
import DirWatch.Number.Integer
import DirWatch.Path
import DirWatch.Text.Split

/-!
# Settings

The settings of the watcher and of its log come from three places: values given by name, the environment, and defaults,
the first that has a value winning. The names of variables do not depend on case. Every value is checked, and all values
that are refused are reported together, in the order of the fields and then the unknown names.

The two groups also have a variable of their own with a JSON object, whose fields count as given by name.

`Patterns.ofText` reads the list of patterns of a variable.
-/

namespace DirWatch

/-- The variables of a process. -/
abbrev Environment := List (String × String)

namespace Environment

/-- A variable, whatever the case of its name. Of several spellings the last one counts. -/
def get? (env : Environment) (name : String) : Option String :=
  (env.reverse.find? fun v => v.1.toLower == name.toLower).map (·.2)

end Environment

namespace Patterns

/-- Reads patterns separated by commas. Blanks around a pattern do not count, and nothing between two commas is no
pattern. -/
def ofText (s : String) : List String :=
  (((Text.split ',' s.toList).map (Text.trim Text.isBlank)).filter (!·.isEmpty)).map String.ofList

end Patterns

/-- Settings of the watcher. -/
structure WatcherSettings where
  pollIntervalMs : Int := 1000
  dispatchWorkers : Int := 4
  threadName : String := "pollwatch"
  ignorePatterns : List String := []
  deriving DecidableEq, Repr, Inhabited

/-- Settings of the log. -/
structure LogSettings where
  level : String := "INFO"
  format : String := "json"
  filePath : Option Path := none
  deriving DecidableEq, Repr, Inhabited

/-- All settings. -/
structure Settings where
  appName : String := "PollWatch"
  appVersion : String := "0.1.0"
  environment : String := "development"
  watcher : WatcherSettings := {}
  logging : LogSettings := {}
  deriving DecidableEq, Repr, Inhabited

namespace Settings

/-- The groups of settings that can be read on their own. -/
inductive Group where
  | all
  | watcher
  | logging
  deriving DecidableEq, Repr, Inhabited

/-- The name of a group in reports. -/
def Group.title : Group → String
  | all => "Settings"
  | watcher => "WatcherSettings"
  | logging => "LoggingSettings"

/-- Why a value is refused. -/
inductive Problem where
  | intParsing
  | intFromFloat
  | intSize
  | intType
  | finiteNumber
  | greaterThan (bound : Int)
  | greaterThanEqual (bound : Int)
  | lessThanEqual (bound : Int)
  | stringType
  | listType
  | pathType
  | groupType (group : Group)
  | extraForbidden
  deriving DecidableEq, Repr, Inhabited

namespace Problem

/-- The short name of a problem. -/
def code : Problem → String
  | intParsing => "int_parsing"
  | intFromFloat => "int_from_float"
  | intSize => "int_parsing_size"
  | intType => "int_type"
  | finiteNumber => "finite_number"
  | greaterThan _ => "greater_than"
  | greaterThanEqual _ => "greater_than_equal"
  | lessThanEqual _ => "less_than_equal"
  | stringType => "string_type"
  | listType => "list_type"
  | pathType => "path_type"
  | groupType _ => "model_type"
  | extraForbidden => "extra_forbidden"

def message : Problem → String
  | intParsing => "Input should be a valid integer, unable to parse string as an integer"
  | intFromFloat => "Input should be a valid integer, got a number with a fractional part"
  | intSize => "Unable to parse input string as an integer, exceeded maximum size"
  | intType => "Input should be a valid integer"
  | finiteNumber => "Input should be a finite number"
  | greaterThan bound => "Input should be greater than " ++ toString bound
  | greaterThanEqual bound => "Input should be greater than or equal to " ++ toString bound
  | lessThanEqual bound => "Input should be less than or equal to " ++ toString bound
  | stringType => "Input should be a valid string"
  | listType => "Input should be a valid list"
  | pathType => "Input is not a valid path for <class 'pathlib.Path'>"
  | groupType group => "Input should be a valid dictionary or instance of " ++ group.title
  | extraForbidden => "Extra inputs are not permitted"

end Problem

/-- A refused value: the problem, and the names and positions that lead to the value. -/
structure Complaint where
  problem : Problem
  location : List Value
  deriving Inhabited, Repr

/-- Why settings cannot be read. -/
inductive Error where
  /-- Values of a group are refused. -/
  | invalid (group : Group) (complaints : List Complaint)
  /-- The variable of a group does not hold JSON. -/
  | unreadable (field : String)
  deriving Inhabited, Repr

/-- Complaints, or a value. -/
abbrev Checked (α : Type) := Except (List Complaint) α

/-- Puts a name in front of the location of every complaint. -/
def below (name : Value) : List Complaint → List Complaint :=
  List.map fun c => { c with location := name :: c.location }

def refuse {α : Type} (problem : Problem) : Checked α :=
  .error [⟨problem, []⟩]

/-! ## Checking values -/

/-- A double that is an integer counts as one if it is not too large. -/
def checkFloat (x : Binary64) : Checked Int :=
  match x with
  | .finite .. =>
    match x.toInt? with
    | none => refuse .intFromFloat
    | some n => if -Int.pow 2 63 < n ∧ n < Int.pow 2 63 then .ok n else refuse .intSize
  | _ => refuse .finiteNumber

def checkInt (v : Value) : Checked Int :=
  match v with
  | .int n => .ok n
  | .bool b => .ok (if b then 1 else 0)
  | .float x => checkFloat x
  | .text s =>
    match Integer.readSetting? s with
    | some n => .ok n
    | none => refuse .intParsing
  | _ => refuse .intType

def checkInterval (v : Value) : Checked Int := do
  let n ← checkInt v
  if n > 0 then .ok n else refuse (.greaterThan 0)

def checkWorkers (v : Value) : Checked Int := do
  let n ← checkInt v
  if n < 1 then refuse (.greaterThanEqual 1)
  else if n > 32 then refuse (.lessThanEqual 32)
  else .ok n

def checkString (v : Value) : Checked String :=
  match v with
  | .text s => .ok s
  | _ => refuse .stringType

/-- Checks the items of a list from a position on and reports all that are refused. -/
def checkStrings : Nat → List Value → Checked (List String)
  | _, [] => .ok []
  | i, v :: rest =>
    match checkString v, checkStrings (i + 1) rest with
    | .ok s, .ok rest => .ok (s :: rest)
    | .error cs, .ok _ => .error (below (.int i) cs)
    | .ok _, .error ds => .error ds
    | .error cs, .error ds => .error (below (.int i) cs ++ ds)

/-- Patterns are given as a list, or as a text with commas. -/
def checkPatterns (v : Value) : Checked (List String) :=
  match v with
  | .text s => .ok (Patterns.ofText s)
  | .list items => checkStrings 0 items
  | _ => refuse .listType

def checkPath (v : Value) : Checked (Option Path) :=
  match v with
  | .null => .ok none
  | .text s => .ok (some (Path.ofString s))
  | _ => refuse .pathType

/-! ## Reading groups -/

/-- The value of a field: given by name, or else the variable, or else none. -/
def source? (env : Environment) (given : List (String × Value)) (group field : String) : Option Value :=
  match given.lookup field with
  | some v => some v
  | none => (env.get? (group ++ field)).map .text

/-- Checks a field, or takes its default. -/
def field {α : Type} (name : String) (source : Option Value) (default : α) (check : Value → Checked α) : Checked α :=
  match source with
  | none => .ok default
  | some v =>
    match check v with
    | .ok a => .ok a
    | .error cs => .error (below (.text name) cs)

/-- The complaints of a check. -/
def complaints {α : Type} : Checked α → List Complaint
  | .ok _ => []
  | .error cs => cs

/-- The complaints about names that are no fields. -/
def unknownNames (given : List (String × Value)) (known : List String) : List Complaint :=
  (given.filter fun g => !known.contains g.1).map fun g => ⟨.extraForbidden, [.text g.1]⟩

/-- Reads the settings of the watcher. -/
def checkWatcher (env : Environment) (given : List (String × Value)) : Checked WatcherSettings :=
  let source := source? env given "WATCHER_"
  let interval := field "poll_interval_ms" (source "poll_interval_ms") 1000 checkInterval
  let workers := field "dispatch_workers" (source "dispatch_workers") 4 checkWorkers
  let name := field "thread_name" (source "thread_name") "pollwatch" checkString
  let patterns := field "ignore_patterns" (source "ignore_patterns") [] checkPatterns
  let unknown := unknownNames given ["poll_interval_ms", "dispatch_workers", "thread_name", "ignore_patterns"]
  match interval, workers, name, patterns, unknown with
  | .ok pollIntervalMs, .ok dispatchWorkers, .ok threadName, .ok ignorePatterns, [] =>
    .ok { pollIntervalMs, dispatchWorkers, threadName, ignorePatterns }
  | _, _, _, _, _ =>
    .error (complaints interval ++ complaints workers ++ complaints name ++ complaints patterns ++ unknown)

/-- Reads the settings of the log. -/
def checkLogging (env : Environment) (given : List (String × Value)) : Checked LogSettings :=
  let source := source? env given "LOG_"
  let level := field "level" (source "level") "INFO" checkString
  let format := field "format" (source "format") "json" checkString
  let filePath := field "file_path" (source "file_path") none checkPath
  let unknown := unknownNames given ["level", "format", "file_path"]
  match level, format, filePath, unknown with
  | .ok level, .ok format, .ok filePath, [] => .ok { level, format, filePath }
  | _, _, _, _ => .error (complaints level ++ complaints format ++ complaints filePath ++ unknown)

/-- Reads a group on its own. -/
def readGroup {α : Type} (group : Group) (checked : Checked α) : Except Error α :=
  match checked with
  | .ok a => .ok a
  | .error cs => .error (.invalid group cs)

def readWatcher (env : Environment) (given : List (String × Value)) : Except Error WatcherSettings :=
  readGroup .watcher (checkWatcher env given)

def readLogging (env : Environment) (given : List (String × Value)) : Except Error LogSettings :=
  readGroup .logging (checkLogging env given)

/-- The value of the variable of a group. An explicit null counts as no variable. -/
def groupVariable (env : Environment) (name : String) : Except Error (Option Value) :=
  match env.get? name with
  | none => .ok none
  | some text =>
    match Json.read? text with
    | none => .error (.unreadable name)
    | some .null => .ok none
    | some v => .ok (some v)

/-- The value of a group: given by name, over the fields of its variable. -/
def groupValue (given stored : Option Value) : Option Value :=
  match given, stored with
  | some (.record fields), some (.record others) =>
    some (.record (fields.foldl (fun all f => Json.putField all f.1 f.2) others))
  | some v, _ => some v
  | none, v => v

/-- Checks a group within all settings. Without a value of its own it is read from its own variables, and then what is
refused is an error of the group. -/
def checkGroup {α : Type} (name : String) (group : Group) (value : Option Value)
    (check : List (String × Value) → Checked α) : Except Error (Checked α) :=
  match value with
  | none =>
    match check [] with
    | .ok a => .ok (.ok a)
    | .error cs => .error (.invalid group cs)
  | some (.record fields) =>
    match check fields with
    | .ok a => .ok (.ok a)
    | .error cs => .ok (.error (below (.text name) cs))
  | some _ => .ok (.error [⟨.groupType group, [.text name]⟩])

/-- Reads all settings. Names that are no fields are ignored here. -/
def read (env : Environment) (given : List (String × Value)) : Except Error Settings := do
  let watcherVariable ← groupVariable env "watcher"
  let loggingVariable ← groupVariable env "logging"
  let source := source? env given ""
  let appName := field "app_name" (source "app_name") "PollWatch" checkString
  let appVersion := field "app_version" (source "app_version") "0.1.0" checkString
  let environment := field "environment" (source "environment") "development" checkString
  let watcher ← checkGroup "watcher" .watcher (groupValue (given.lookup "watcher") watcherVariable) (checkWatcher env)
  let logging ← checkGroup "logging" .logging (groupValue (given.lookup "logging") loggingVariable) (checkLogging env)
  match appName, appVersion, environment, watcher, logging with
  | .ok appName, .ok appVersion, .ok environment, .ok watcher, .ok logging =>
    .ok { appName, appVersion, environment, watcher, logging }
  | _, _, _, _, _ =>
    .error (.invalid .all (complaints appName ++ complaints appVersion ++ complaints environment ++
      complaints watcher ++ complaints logging))

/-- The settings that a process reads once and then keeps. -/
structure Cache where
  kept : Option Settings := none
  deriving Inhabited

/-- The kept settings; without any they are read, and kept if that succeeds. -/
def Cache.get (cache : Cache) (env : Environment) : Except Error Settings × Cache :=
  match cache.kept with
  | some settings => (.ok settings, cache)
  | none =>
    match read env [] with
    | .ok settings => (.ok settings, ⟨some settings⟩)
    | .error e => (.error e, cache)

end Settings

namespace Settings.Error

def message : Settings.Error → String
  | invalid .. => ""
  | unreadable name => "error parsing value for field \"" ++ name ++ "\" from source \"EnvSettingsSource\""

end Settings.Error

end DirWatch
