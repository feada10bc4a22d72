import DirWatch.Json
import DirWatch.Notice

/-!
# Entries and lines of a log

An entry is an event with its level and with fields of its own. Before it is written it is completed by the event and the
level themselves, the time, the application and the thread: these follow the fields of the entry, and where the entry has
a field of the same name they stand in its place.

An entry is written on a line of its own: as a record of the data format, or for people, with the time, the level and the
event in columns and the other fields behind them by name. Lines for people have colours when they go to a terminal.
-/

namespace DirWatch

/-- An event to be written to the log. -/
structure LogEntry where
  level : Level
  event : String
  fields : List (String × Value) := []
  deriving Inhabited, Repr

/-- The entry for a notice. -/
def Notice.entry (n : Notice) : LogEntry :=
  ⟨n.level, n.event, n.fields⟩

/-- The circumstances of an entry. -/
structure LogContext where
  timestamp : String
  application : String
  version : String
  environment : String
  thread : String := "MainThread"
  deriving Inhabited, Repr

namespace LogEntry

/-- The fields that ask for the state of the program. They are not written, and what they ask for is left out. -/
def requests : List String := ["exc_info", "stack_info"]

/-- The fields that complete an entry, in their order. -/
def circumstances (e : LogEntry) (c : LogContext) : List (String × String) :=
  [("event", e.event), ("level", e.level.text), ("timestamp", c.timestamp), ("app", c.application),
    ("version", c.version), ("environment", c.environment), ("thread", c.thread)]

/-- All fields of an entry as it is written. -/
def complete (e : LogEntry) (c : LogContext) : List (String × Value) :=
  (e.circumstances c).foldl (fun fields f => Json.putField fields f.1 (.text f.2))
    (e.fields.filter fun f => !requests.contains f.1)

end LogEntry

/-- How entries are written. -/
inductive LogLayout where
  | json
  | console
  deriving DecidableEq, Repr, Inhabited

/-- The layout that the settings name: everything but the exact name of the data format is for people. -/
def LogLayout.ofName (name : String) : LogLayout :=
  if name = "json" then json else console

/-- The colours of a terminal, and the ways to stress a text. -/
inductive TerminalStyle where
  | bright
  | dim
  | red
  | green
  | yellow
  | magenta
  | cyan
  deriving DecidableEq, Repr

namespace TerminalStyle

def code : TerminalStyle → String
  | bright => "1"
  | dim => "2"
  | red => "31"
  | green => "32"
  | yellow => "33"
  | magenta => "35"
  | cyan => "36"

/-- A text in some styles. -/
def apply (styles : List TerminalStyle) (s : String) : String :=
  String.join (styles.map fun style => "\x1b[" ++ style.code ++ "m") ++ s ++ "\x1b[0m"

end TerminalStyle

/-- The colour of a level. -/
def Level.colour : Level → TerminalStyle
  | debug | info => .green
  | warning => .yellow
  | error | critical => .red

namespace LogEntry

/-- A text filled up with spaces. -/
def padded (width : Nat) (s : String) : String :=
  s ++ String.ofList (List.replicate (width - s.length) ' ')

/-- The characters that make a text stand between quotes on a line for people. -/
def needsQuotes (c : Char) : Bool :=
  c = ' ' || c = '\t' || c = '\r' || c = '\n' || c = '=' || c = '"' || c = '\''

/-- A value on a line for people. -/
def plainValue (v : Value) : String :=
  match v with
  | .text s => if s.toList.any needsQuotes then v.shown else s
  | v => v.shown

/-- The fields that a line for people shows behind its columns, by name. -/
def trailing (fields : List (String × Value)) : List (String × Value) :=
  Listing.sorted (fields.filter fun f => !(["timestamp", "level", "event"].contains f.1))

/-- The line for people; `style` puts a part into styles. -/
def consoleLine (style : List TerminalStyle → String → String) (e : LogEntry) (c : LogContext) : String :=
  let columns := [style [.dim] c.timestamp,
    "[" ++ style [e.level.colour, .bright] (padded 9 e.level.text) ++ "]", style [.bright] (padded 30 e.event)]
  let others := (trailing (e.complete c)).map fun f => style [.cyan] f.1 ++ "=" ++ style [.magenta] (plainValue f.2)
  " ".intercalate (columns ++ others)

/-- The line of an entry. -/
def line (layout : LogLayout) (hasColours : Bool) (e : LogEntry) (c : LogContext) : String :=
  match layout with
  | .json => (Value.record (e.complete c)).json
  | .console => e.consoleLine (fun styles s => if hasColours then TerminalStyle.apply styles s else s) c

end LogEntry

end DirWatch
