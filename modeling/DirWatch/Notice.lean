import DirWatch.Change
import DirWatch.OsError

/-!
# Notices

Everything that the watcher reports to its log, with the facts that each report carries. `Notice.level`, `Notice.event`
and `Notice.fields` give the entry that is written for a notice.
-/

namespace DirWatch

/-- The urgency of a log entry. -/
inductive Level where
  | debug
  | info
  | warning
  | error
  | critical
  deriving DecidableEq, Repr, Inhabited

/-- The word for a level. -/
def Level.text : Level → String
  | debug => "debug"
  | info => "info"
  | warning => "warning"
  | error => "error"
  | critical => "critical"

/-- A report of the watcher. -/
inductive Notice where
  | rootUnavailable (root : Path) (cause : OsError)
  | directoryUnreadable (directory : Path) (cause : OsError)
  | changesDetected (root : Path) (added modified removed : Nat)
  | observerFailed (root : Path) (observer : Observer) (changes : Nat)
  | registrationCreated (root : Path) (entries : Nat)
  | registrationRemoved (root : Path)
  | observerAttached (root : Path) (observer : Observer)
  | observerDetached (root : Path)
  | pollStillRunning (root : Path)
  | pollFailed (root : Path)
  | tickCompleted (tick roots changed running : Nat)
  | tickFailed (name : Value)
  | schedulerStarted (name : Value) (interval : Binary64)
  | schedulerStopped (name : Value) (ticks : Nat)
  | stopRequestedFromDispatch (name : Value)
  | stopFailed (name : Value)
  | clearFailed (name : Value)
  | watcherStarted (name : Value) (interval : Value) (patterns : List String)
  | watcherClosed (name : Value)
  | watchRegistered (name : Value) (root : Path)
  | watchUnregistered (name : Value) (root : Path) (handles : Nat)
  | watching (roots : List Path)
  deriving Inhabited, Repr

namespace Notice

def level : Notice → Level
  | rootUnavailable .. | directoryUnreadable .. | changesDetected .. | observerAttached .. | observerDetached ..
  | pollStillRunning .. | tickCompleted .. | schedulerStarted .. | schedulerStopped ..
  | stopRequestedFromDispatch .. => .debug
  | registrationCreated .. | registrationRemoved .. | watcherStarted .. | watcherClosed .. | watchRegistered ..
  | watchUnregistered .. | watching .. => .info
  | stopFailed .. | clearFailed .. => .warning
  | observerFailed .. | pollFailed .. | tickFailed .. => .error

/-- The name of the event that a notice reports. -/
def event : Notice → String
  | rootUnavailable .. => "root_unavailable"
  | directoryUnreadable .. => "directory_unreadable"
  | changesDetected .. => "changes_detected"
  | observerFailed .. => "observer_failed"
  | registrationCreated .. => "registration_created"
  | registrationRemoved .. => "registration_removed"
  | observerAttached .. => "observer_attached"
  | observerDetached .. => "observer_detached"
  | pollStillRunning .. => "poll_still_running"
  | pollFailed .. => "poll_failed"
  | tickCompleted .. => "tick_completed"
  | tickFailed .. => "tick_failed"
  | schedulerStarted .. => "scheduler_started"
  | schedulerStopped .. => "scheduler_stopped"
  | stopRequestedFromDispatch .. => "scheduler_stop_requested_from_dispatch"
  | stopFailed .. => "scheduler_stop_failed"
  | clearFailed .. => "registration_clear_failed"
  | watcherStarted .. => "file_watcher_started"
  | watcherClosed .. => "file_watcher_closed"
  | watchRegistered .. => "watch_registered"
  | watchUnregistered .. => "watch_unregistered"
  | watching .. => "watching"

/-- The field for a path. -/
def pathField (p : Path) : Value := .text (toString p)

/-- The field for a number of things. -/
def countField (n : Nat) : Value := .int n

/-- The facts that a notice carries, by name and in the order in which they are written. -/
def fields : Notice → List (String × Value)
  | rootUnavailable root cause => [("root", pathField root), ("error", .text cause.message)]
  | directoryUnreadable directory cause => [("path", pathField directory), ("error", .text cause.message)]
  | changesDetected root added modified removed =>
    [("root", pathField root), ("added", countField added), ("modified", countField modified),
      ("removed", countField removed)]
  | observerFailed root observer changes =>
    [("root", pathField root), ("observer", .text observer.shown), ("event_count", countField changes),
      ("exc_info", .bool true)]
  | registrationCreated root entries => [("root", pathField root), ("entries", countField entries)]
  | registrationRemoved root => [("root", pathField root)]
  | observerAttached root observer => [("root", pathField root), ("observer", .text observer.shown)]
  | observerDetached root => [("root", pathField root)]
  | pollStillRunning root => [("root", pathField root)]
  | pollFailed root => [("root", pathField root), ("exc_info", .bool true)]
  | tickCompleted tick roots changed running =>
    [("tick", countField tick), ("roots", countField roots), ("changed_roots", countField changed),
      ("still_running", countField running)]
  | tickFailed name => [("name", name), ("exc_info", .bool true)]
  | schedulerStarted name interval => [("name", name), ("interval_s", .float interval)]
  | schedulerStopped name ticks => [("name", name), ("ticks", countField ticks)]
  | stopRequestedFromDispatch name => [("name", name)]
  | stopFailed name => [("name", name), ("exc_info", .bool true)]
  | clearFailed name => [("name", name), ("exc_info", .bool true)]
  | watcherStarted name interval patterns =>
    [("name", name), ("poll_interval_ms", interval), ("ignore_patterns", .list (patterns.map .text))]
  | watcherClosed name => [("name", name)]
  | watchRegistered name root => [("name", name), ("root", pathField root)]
  | watchUnregistered name root handles =>
    [("name", name), ("root", pathField root), ("handles", countField handles)]
  | watching roots => [("paths", .list (roots.map pathField))]

end Notice

end DirWatch
