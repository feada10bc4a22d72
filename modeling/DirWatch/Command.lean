import DirWatch.Arguments
import DirWatch.Log.Journal
import DirWatch.Session.Create

/-!
# The command

The command watches the directories that its command line names, and prints every change under the last name of its
directory, until it is interrupted. It begins by configuring the log and reading the command line (`Command.start`), polls
round by round (`Command.round`), and in the end closes the watcher, whatever the reason (`Command.leave`).

`Command.run` is a whole run: what happens between the polls is given as rounds of actions, and an interruption follows the
last of them.
-/

namespace DirWatch

/-- How a command ends. -/
inductive Ending where
  | exit (code : Nat)
  /-- The log cannot be configured. -/
  | logFailed (e : Log.Error)
  /-- A failure that is no wrong use of the watcher. -/
  | watcherFailed (f : Failure)
  deriving Inhabited, Repr

/-- The outcome of a command. -/
structure Outcome where
  ending : Ending
  /-- The state of the watcher, if there is one. -/
  state : Option WatcherState := none
  stdout : String := ""
  stderr : String := ""
  deriving Inhabited

/-- A command at work. -/
structure Command where
  session : Session
  journal : Journal
  environment : Environment
  /-- What has been printed, the latest first. -/
  printed : List String := []
  deriving Inhabited

namespace Command

/-- Where a command works: the world of its watcher and the folder of its log. -/
structure Surroundings where
  world : Session.World
  folder : Folder
  deriving Inhabited

def print (c : Command) (line : String) : Command :=
  { c with printed := (line ++ "\n") :: c.printed }

/-- The line for a change. -/
def changeLine (title : String) (change : Change) : String :=
  "[" ++ title ++ "] " ++ LogEntry.padded 8 change.kind.text ++ " " ++ toString change.path

/-- Prints what there is to see of one event of the session. -/
def relay (timestamp : String) (c : Command) : Trace → Command
  | .notice n =>
    match c.journal.write c.environment none n.entry timestamp with
    | (.ok lines, journal) => lines.foldl print { c with journal }
    | (.error _, journal) => { c with journal }
  | .call (.printer _ title) changes => (changes.map (changeLine title)).foldl print c
  | .call _ _ | .did .. => c

/-- Prints what has happened in the session since it was last looked at. -/
def flush (c : Command) (timestamp : String) : Command :=
  c.session.trace.reverse.foldl (relay timestamp) { c with session := { c.session with trace := [] } }

/-- Performs an action and prints what happens. -/
def perform (c : Command) (timestamp : String) (action : Action) : Option Reply × Command :=
  let (reply, session) := c.session.execute action
  (reply, { c with session }.flush timestamp)

/-- Performs an action whose failure ends the command. -/
def attempt (c : Command) (timestamp : String) (action : Action) : Except Failure Answer × Command :=
  match c.perform timestamp action with
  | (some reply, c) => (reply, c)
  | (none, c) => (.ok .nothing, c)

/-- Watches one path, with the printer of a number. The title is the last name of the resolved path. -/
def watchPath (c : Command) (timestamp : String) (number : Nat) (path : Path) : Except Failure Unit × Command :=
  match c.attempt timestamp (.resolve path) with
  | (.error f, c) => (.error f, c)
  | (.ok answer, c) =>
    let title := match answer with
      | .path resolved => resolved.name
      | _ => ""
    let labels := c.session.labels
    let (r, c) := c.attempt timestamp (.watch (.path path) (.printer number title) "")
    (r.map fun _ => (), { c with session := { c.session with labels } })

/-- Watches paths one after another; the first failure ends it. -/
def watchAll (timestamp : String) : Nat → List Path → Command → Except Failure Unit × Command
  | _, [], c => (.ok (), c)
  | number, path :: rest, c =>
    match c.watchPath timestamp number path with
    | (.ok (), c) => watchAll timestamp (number + 1) rest c
    | (.error f, c) => (.error f, c)

/-- One round: first what happens in it, then a poll. -/
def round (c : Command) (timestamp : String) (actions : List Action) : Except Failure Unit × Command :=
  let c := actions.foldl (fun c action => (c.perform timestamp action).2) c
  let (r, c) := c.attempt timestamp .pollNow
  (r.map fun _ => (), c)

def rounds (timestamp : String) : List (List Action) → Command → Except Failure Unit × Command
  | [], c => (.ok (), c)
  | actions :: rest, c =>
    match c.round timestamp actions with
    | (.ok (), c) => rounds timestamp rest c
    | (.error f, c) => (.error f, c)

/-- What has been printed. -/
def stdout (c : Command) : String :=
  String.join c.printed.reverse

/-- A wrong use of the watcher is reported in a line, and any other failure ends the command by itself. -/
def report (c : Command) (f : Failure) : Ending × Command :=
  if f.isUsage then (.exit 1, c.print ("Error: " ++ f.message)) else (.watcherFailed f, c)

/-- Closes the watcher and ends the command. -/
def leave (c : Command) (timestamp : String) (ending : Ending) : Outcome :=
  let (r, c) := c.attempt timestamp .close
  let ending := match r with
    | .ok _ => ending
    | .error f => .watcherFailed f
  { ending, state := some c.session.watcher.state, stdout := c.stdout }

/-- Ends a command after a failure. -/
def abandon (c : Command) (timestamp : String) (f : Failure) : Outcome :=
  let (ending, c) := c.report f
  c.leave timestamp ending

/-- Ends a command that is interrupted. -/
def interrupt (c : Command) (timestamp : String) : Outcome :=
  (c.print "\nStopped by user").leave timestamp (.exit 0)

/-- The arguments of the watcher, from the command line. -/
def watcherArguments (arguments : Arguments) : WatcherArguments :=
  { pollIntervalMs := (arguments.intervalMs.map .int).getD .null
    ignorePatterns := (arguments.ignored.map fun patterns => .list (patterns.map .text)).getD .null }

/-- Starts a watcher for the paths of a command line. -/
def startWatching (around : Surroundings) (journal : Journal) (timestamp : String) (arguments : Arguments) :
    Except Outcome Command :=
  match Session.createRunning around.world (watcherArguments arguments) with
  | .error f =>
    .error <|
      if f.isUsage then { ending := .exit 1, stdout := "Error: " ++ f.message ++ "\n" }
      else { ending := .watcherFailed f }
  | .ok session =>
    let c := Command.flush { session, journal, environment := around.world.environment } timestamp
    match watchAll timestamp 0 (arguments.paths.map Path.ofString) c with
    | (.error f, c) => .error (c.abandon timestamp f)
    | (.ok (), c) =>
      let c := { c with session := c.session.notice (.watching c.session.table.roots) }.flush timestamp
      .ok (c.print "Watching for changes, press Ctrl+C to stop")

/-- Starts a command, up to its first wait. -/
def start (around : Surroundings) (timestamp : String) (words : List String) : Except Outcome Command :=
  match Journal.configure { folder := around.folder } around.world.environment with
  | (.error e, _) => .error { ending := .logFailed e }
  | (.ok (), journal) =>
    match Arguments.read words with
    | .error e => .error { ending := .exit 2, stderr := CommandLine.complaint e }
    | .ok none => .error { ending := .exit 0, stdout := CommandLine.help }
    | .ok (some arguments) => startWatching around journal timestamp arguments

/-- A run of the command. -/
def run (around : Surroundings) (timestamp : String) (words : List String) (between : List (List Action)) : Outcome :=
  match start around timestamp words with
  | .error outcome => outcome
  | .ok c =>
    match rounds timestamp between c with
    | (.error f, c) => c.abandon timestamp f
    | (.ok (), c) => c.interrupt timestamp

end Command

end DirWatch
