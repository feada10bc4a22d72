import DirWatch.Session.Run

/-!
# Creating watchers

A watcher takes what it is given, and the settings where it is given nothing. The interval and the number of workers have
to be positive integers.
-/

namespace DirWatch

/-- What a watcher is created with. A null stands for the settings. -/
structure WatcherArguments where
  pollIntervalMs : Value := .null
  name : Value := .null
  ignorePatterns : Value := .null
  dispatchWorkers : Value := .null
  deriving Inhabited

namespace Session

/-- The surroundings of a session: a tree, its faults, the environment, the home directories by the list of users, and the
scripts of the observers. -/
structure World where
  disk : Disk
  faults : List ((String × CallKind) × Fault Action) := []
  environment : Environment := []
  /-- By default the user whom the watcher runs for is the only one on the list. -/
  homes : Homes := { own := some "/home/user" }
  scripts : List (String × List (List Action)) := []
  deriving Inhabited

/-- The home directories that are known in a world: the environment can name that of the user whom the watcher runs for. -/
def World.knownHomes (w : World) : Homes :=
  { w.homes with own := (w.environment.lookup "HOME").or w.homes.own }

/-- A positive integer, no truth value among them. -/
def positive (name : String) (v : Value) : Except Failure Int :=
  match v with
  | .int n => if n > 0 then .ok n else .error (.notPositive name v)
  | v => .error (.notPositive name v)

/-- A value, or the one of the settings. -/
def orSetting (v setting : Value) : Value :=
  match v with
  | .null => setting
  | v => v

/-- The patterns that a value lists; a text lists its characters. -/
def patternsOf (v : Value) : List String :=
  match v with
  | .list items => items.filterMap fun item =>
      match item with
      | .text s => some s
      | _ => none
  | .text s => s.toList.map fun c => String.ofList [c]
  | _ => []

/-- A watcher in a world, not yet started. -/
def create (w : World) (args : WatcherArguments) : Except Failure Session := do
  let settings ← (Settings.read w.environment []).mapError Failure.settings
  let interval ← positive "poll_interval_ms" (orSetting args.pollIntervalMs (.int settings.watcher.pollIntervalMs))
  let workers ← positive "dispatch_workers" (orSetting args.dispatchWorkers (.int settings.watcher.dispatchWorkers))
  let name := if args.name.holds then args.name else .text settings.watcher.threadName
  let patterns := patternsOf
    (orSetting args.ignorePatterns (.list (settings.watcher.ignorePatterns.map .text)))
  let scheduler ← Scheduler.create name interval workers
  return { disk := w.disk, faults := w.faults, homes := w.knownHomes, patterns, scheduler,
           watcher := { name, interval := .int interval }, scripts := w.scripts }

/-- A watcher in a world, running. -/
def createRunning (w : World) (args : WatcherArguments) : Except Failure Session :=
  (create w args).map fun s => { s.start .nothing with signal := none }

/-- A table with a scheduler of its own, in a world. Nothing is started. -/
def createTable (w : World) (name : Value) (intervalMs workers : Int) (patterns : List String) :
    Except Failure Session :=
  (Scheduler.create name intervalMs workers).map fun scheduler =>
    { disk := w.disk, faults := w.faults, homes := w.knownHomes, patterns, scheduler,
      watcher := { name, interval := .int intervalMs }, scripts := w.scripts }

end Session

end DirWatch
