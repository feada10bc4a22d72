import DirWatch.Log.File
import DirWatch.Log.Line
import DirWatch.Settings
import DirWatch.Text.Capital

/-!
# The log

A log is configured from the settings: a threshold, a layout, and a destination, which is the standard output or a file.
A configuration that fails leaves the last one in force, although the file of that one may have been closed by then.

A log shows the entries whose level weighs at least its threshold. The settings name the threshold, in letters of any case.
Two levels have a second name, and the name without a weight shows everything. Some names stand for no number: what a filter
makes of those is not settled here (`Filtering`).

Entries are written under the configuration in force. A logger that has a name keeps the configuration that was in force
when it was first used, for good.
-/

namespace DirWatch

/-- The weight of a level. -/
def Level.weight : Level → Nat
  | debug => 10
  | info => 20
  | warning => 30
  | error => 40
  | critical => 50

/-- The least weight of an entry that is shown. -/
abbrev Threshold := Nat

namespace Threshold

/-- What a name in the settings stands for. -/
inductive Named where
  | threshold (t : Threshold)
  /-- The name is taken, but by the default format of messages. -/
  | format
  /-- The name is taken, but by the table of formatting styles. -/
  | styles
  deriving DecidableEq, Repr

/-- Looks up a name in capital letters. -/
def named? : String → Option Named
  | "DEBUG" => some (.threshold 10)
  | "INFO" => some (.threshold 20)
  | "WARNING" | "WARN" => some (.threshold 30)
  | "ERROR" => some (.threshold 40)
  | "CRITICAL" | "FATAL" => some (.threshold 50)
  | "NOTSET" => some (.threshold 0)
  | "BASIC_FORMAT" => some .format
  | "_STYLES" => some .styles
  | _ => none

/-- Whether entries of a level are shown. -/
def shows (t : Threshold) (level : Level) : Bool :=
  t ≤ level.weight

end Threshold

/-- Where lines go. -/
inductive LogDestination where
  | standardOutput
  | file (id : LogFileId)
  deriving DecidableEq, Repr, Inhabited

structure LogConfiguration where
  threshold : Threshold
  layout : LogLayout
  destination : LogDestination
  deriving DecidableEq, Repr, Inhabited

structure Log where
  /-- The settings, once they have been read. -/
  settings : Settings.Cache := {}
  files : LogFiles := {}
  configuration : Option LogConfiguration := none
  /-- The configurations that loggers with a name have kept. -/
  kept : List (String × LogConfiguration) := []
  deriving Inhabited

namespace Log

/-- Why a log cannot be configured, or an entry not be written. -/
inductive Error where
  | settings (e : Settings.Error)
  | unknownLevel (name : String)
  /-- The level is the name of something else. -/
  | formatAsLevel
  | stylesAsLevel
  | unopenable (e : CallError)
  | fileClosed
  deriving Inhabited, Repr

def Error.message : Error → String
  | settings e => e.message
  | unknownLevel name => "module 'logging' has no attribute '" ++ name ++ "'"
  | formatAsLevel => Text.quoted "%(levelname)s:%(name)s:%(message)s"
  | stylesAsLevel => "unhashable type: 'dict'"
  | unopenable (.system e) => e.message
  | unopenable .nulCharacter => "embedded null byte"
  | unopenable .injected => "injected fault"
  | fileClosed => "I/O operation on closed file."

/-- What the level of the settings stands for. -/
def namedLevel (level : String) : Except Error Threshold.Named :=
  let name := Text.capital level
  match Threshold.named? name with
  | some named => .ok named
  | none => .error (.unknownLevel name)

/-- Turns to the destination that the settings name. -/
def turnTo (files : LogFiles) (refusal : Path → Option CallError) (path : Option Path) :
    Except CallError LogDestination × LogFiles :=
  match path with
  | none => (.ok .standardOutput, files.close)
  | some path =>
    let (r, files) := files.use (toString path) (refusal path)
    (r.map .file, files)

/-- How a filter is made of what a level stands for: with a threshold, or not at all. -/
abbrev Filtering := Threshold.Named → Except Error Threshold

/-- Configures a log. An unknown level is noticed before the destination changes, and a level of which no filter can be made
only after that; `refusal` is what the system says about opening a file. -/
def configureWith (log : Log) (filtering : Filtering) (settings : LogSettings) (refusal : Path → Option CallError) :
    Except Error Unit × Log :=
  match namedLevel settings.level with
  | .error e => (.error e, log)
  | .ok named =>
    match turnTo log.files refusal settings.filePath with
    | (.error e, files) => (.error (.unopenable e), { log with files })
    | (.ok destination, files) =>
      match filtering named with
      | .error e => (.error e, { log with files })
      | .ok threshold =>
        (.ok (), { log with files, configuration := some ⟨threshold, .ofName settings.format, destination⟩ })

/-- The settings, read from the environment if they have not been read yet. -/
def readSettings (log : Log) (env : Environment) : Except Settings.Error Settings × Log :=
  let (r, settings) := log.settings.get env
  (r, { log with settings })

/-- Configures a log by the settings. -/
def configure (log : Log) (filtering : Filtering) (env : Environment) (refusal : Path → Option CallError) :
    Except Error Unit × Log :=
  match log.readSettings env with
  | (.error e, log) => (.error (.settings e), log)
  | (.ok settings, log) => log.configureWith filtering settings.logging refusal

/-- Closes the file of the log. The configuration in force stays. -/
def close (log : Log) : Log :=
  { log with files := log.files.close }

/-- The configuration for a logger, which a logger with a name keeps from now on. -/
def configurationFor (log : Log) (logger : Option String) : Option LogConfiguration × Log :=
  match logger, log.configuration with
  | none, configuration => (configuration, log)
  | some name, configuration =>
    match log.kept.lookup name, configuration with
    | some kept, _ => (some kept, log)
    | none, some configuration => (some configuration, { log with kept := (name, configuration) :: log.kept })
    | none, none => (none, log)

/-- Whether a destination takes lines. -/
def accepts (log : Log) : LogDestination → Bool
  | .standardOutput => true
  | .file id => log.files.isOpen id

/-- The line that a configuration makes of an entry. -/
def lineOf (configuration : LogConfiguration) (settings : Settings) (timestamp : String) (entry : LogEntry) : String :=
  entry.line configuration.layout (configuration.destination = .standardOutput)
    { timestamp, application := settings.appName, version := settings.appVersion, environment := settings.environment }

/-- Writes an entry: the destination and the line, or nothing if the entry is below the threshold. The application is the
one of the settings at the time of writing. -/
def write (log : Log) (env : Environment) (logger : Option String) (entry : LogEntry) (timestamp : String) :
    Except Error (Option (LogDestination × String)) × Log :=
  match log.configurationFor logger with
  | (none, log) => (.ok none, log)
  | (some configuration, log) =>
    if configuration.threshold.shows entry.level then
      match log.readSettings env with
      | (.error e, log) => (.error (.settings e), log)
      | (.ok settings, log) =>
        if log.accepts configuration.destination then
          (.ok (some (configuration.destination, lineOf configuration settings timestamp entry)), log)
        else (.error .fileClosed, log)
    else (.ok none, log)

end Log

end DirWatch
