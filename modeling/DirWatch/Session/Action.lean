import DirWatch.Change
import DirWatch.Failure

/-!
# Actions

What can be done to a tree, a watcher, its table, its handles and its scheduler, one action at a time. Actions are data:
the script of an observer is a list of them, and so is what happens in the middle of a call on a path.
-/

namespace DirWatch

/-- The kinds of calls that can be interfered with. -/
inductive CallKind where
  | stat
  | lstat
  | list
  | member
  deriving DecidableEq, Repr, Inhabited

/-- The kind of a call. -/
def Call.kind : Call → CallKind
  | stat _ => .stat
  | lstat _ => .lstat
  | list _ => .list
  | member _ => .member

/-- What happens in a call that is interfered with. -/
inductive Fault (α : Type) where
  /-- The system refuses the call. -/
  | refuse (reason : Errno)
  /-- The call fails in a way that no system call fails. -/
  | disrupt
  /-- Other things happen first, once, and then the call goes on. -/
  | precede (steps : List α)
  deriving Inhabited

/-- One thing to do. -/
inductive Action where
  -- the tree
  | put (path : String) (node : Node)
  | remove (path : String)
  | touch (path : String) (mtime : Int)
  | setFault (path : String) (kind : CallKind) (fault : Option (Fault Action))
  | changeDirectory (path : String)
  -- the watcher
  | start
  | enter
  | close
  | exit
  | watch (root : RootArgument) (observer : Observer) (label : String)
  | unwatch (root : RootArgument) (observer : Observer)
  | pollNow
  | info
  | observerCount (root : RootArgument)
  -- the table
  | attach (root : Path) (observer : Observer) (label : String)
  | detach (root : Path) (observer : Observer)
  | clear
  | table
  | count (root : Path)
  -- handles
  | cancel (label : String)
  | handle (label : String)
  | sameRegistration (label other : String)
  | baseline (label : String)
  /-- A poll outside of the scheduler; with a gate, only so many deliveries may begin. -/
  | poll (label : String) (gate : Option Nat)
  -- the scheduler
  | tick
  | startScheduler
  | stopScheduler
  | scheduler
  | release
  | loop (rounds : List (List Action))
  | shutPool
  | disable (operation : Operation) (times : Option Nat)
  -- single captures and resolutions
  | capture (root : Path)
  | resolve (path : Path)
  -- what only an observer does
  | raise
  | abort
  | park
  | clearChanges
  deriving Inhabited

namespace Action

/-- The name under which an action is traced. -/
def name : Action → String
  | put .. => "put"
  | remove _ => "rm"
  | touch .. => "mtime"
  | setFault .. => "fault"
  | changeDirectory _ => "cwd"
  | start => "start"
  | enter => "enter"
  | close => "close"
  | exit => "exit"
  | watch .. => "watch"
  | unwatch .. => "unwatch"
  | pollNow => "poll_now"
  | info => "info"
  | observerCount _ => "observer_count"
  | attach .. => "attach"
  | detach .. => "detach"
  | clear => "clear"
  | table => "table"
  | count _ => "count"
  | cancel _ => "cancel"
  | handle _ => "handle"
  | sameRegistration .. => "same_registration"
  | baseline _ => "baseline"
  | poll .. => "poll"
  | tick => "tick"
  | startScheduler => "sched_start"
  | stopScheduler => "sched_stop"
  | scheduler => "sched"
  | release => "release"
  | loop _ => "loop"
  | shutPool => "shutdown_executor"
  | disable .. => "break"
  | capture _ => "capture"
  | resolve _ => "resolve"
  | raise => "raise"
  | abort => "abort"
  | park => "park"
  | clearChanges => "clear_events"

end Action

/-- What an action gives when it succeeds. -/
inductive Answer where
  | nothing
  | yes
  | noHandle
  | attached (root : Path) (active : Bool)
  | count (n : Nat)
  | changes (changes : List Change)
  | changesByRoot (changes : List (Path × List Change))
  | watcher (name : Value) (state : WatcherState) (interval : Value) (watched : List Path)
  | table (entries : List (Path × Nat))
  | handle (shown : String) (active : Bool) (observer : String) (isEmpty : Bool) (peers : List String)
  | same (b : Bool)
  | snapshot (s : Snapshot)
  | scheduler (ticks : Nat) (microseconds : Int) (isRunning inDispatch : Bool)
  | path (p : Path)
  deriving Inhabited

/-- The result of an action. -/
abbrev Reply := Except Failure Answer

end DirWatch
