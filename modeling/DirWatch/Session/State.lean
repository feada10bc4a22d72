import DirWatch.Comparison
import DirWatch.Scheduler
import DirWatch.Session.Action

/-!
# The state of a session

A session is a watcher at work in a tree of files: its table and scheduler, the scripts of its observers, and what is
going on at the moment. The latter is a stack of frames. The frame on top is in control; the others wait for the one
above them. A poll of the pool that waits inside an observer is taken off the stack with all frames above its own and
parked, so that whatever waited for the pool can go on.

A call on a path is looked up among the faults first: it may be refused, it may fail in a way of its own, or other things
may have to happen before it goes on. The name of a fault is the text of the call as seen from the current directory,
without any resolution.
-/

namespace DirWatch

/-- Whether deliveries may begin. -/
inductive Gate where
  /-- Always. -/
  | free
  /-- As long as the scheduler has not been told to stop. -/
  | scheduler
  /-- This many times. -/
  | counted (left : Nat)
  deriving DecidableEq, Repr, Inhabited

/-- For whom a poll is made. -/
inductive PollOwner where
  | caller
  | job (id : JobId)
  deriving DecidableEq, Repr, Inhabited

/-- How far a poll has come. -/
inductive PollStage where
  /-- It waits until no other poll of its registration is under way. -/
  | entering
  | capturing
  /-- It delivers its changes: the handle being served, those still to serve, and the outcome of the comparison. -/
  | delivering (current : Option HandleId) (waiting : List HandleId) (report : Change.Report)
  deriving Inhabited

/-- For whom a tick is made. -/
inductive TickOwner where
  | caller
  | loop
  deriving DecidableEq, Repr, Inhabited

/-- How far a tick has come. -/
inductive TickStage where
  /-- It waits until no other tick is under way. -/
  | entering
  /-- It submits polls: the registrations still to submit, the number of all, and the jobs submitted. -/
  | submitting (waiting : List RegistrationId) (all : Nat) (submitted : List JobId)
  deriving Inhabited

/-- How far a round of the loop has come. -/
inductive LoopStage where
  | waiting
  | round
  | ticking
  deriving DecidableEq, Repr, Inhabited

/-- What follows when the scheduler has stopped. -/
inductive StopOwner where
  /-- Nothing. -/
  | caller
  /-- The table is cleared: the watcher closes. -/
  | closing
  deriving DecidableEq, Repr, Inhabited

/-- What a root is resolved for. -/
inductive ResolutionPurpose where
  | watch (root : RootArgument) (observer : Observer) (label : String)
  | unwatch (observer : Observer)
  | count
  | caller
  deriving Inhabited

/-- What an observer is attached for. -/
inductive AttachPurpose where
  | caller
  | watch
  deriving DecidableEq, Repr, Inhabited

/-- One activity on the stack. In the frames that make calls on paths, `ready` says that what was to happen before the
next call has happened. -/
inductive Frame where
  /-- Actions one after another; `current` names the one under way. -/
  | script (waiting : List Action) (current : Option String)
  /-- A call of an observer with the changes that it received. -/
  | observing (handle : HandleId) (received : List Change) (waiting : List Action) (current : Option String)
  | capturing (capture : Capture) (ready : Bool)
  | resolving (resolution : Resolution) (purpose : ResolutionPurpose) (ready : Bool)
  /-- The check whether a root to be watched is a directory. -/
  | probing (path : Path) (observer : Observer) (label : String) (ready : Bool)
  /-- An attachment that waits for the first capture of its root. -/
  | attaching (root : Path) (observer : Observer) (label : String) (purpose : AttachPurpose)
  | polling (registration : RegistrationId) (owner : PollOwner) (gate : Gate) (stage : PollStage)
  | ticking (owner : TickOwner) (stage : TickStage)
  | looping (rounds : List (List Action)) (stage : LoopStage)
  /-- A stop that waits until every poll has ended. -/
  | stopping (owner : StopOwner)
  /-- A release that waits until the pool makes no progress. -/
  | releasing
  /-- A single capture. -/
  | reporting
  deriving Inhabited

/-- What a frame leaves for the one below it. -/
inductive Signal where
  | finished
  | raised (f : Failure)
  | captured (r : Except Failure Snapshot)
  | ticked (r : Except Failure (List (Path × List Change)))
  | replied (r : Reply)
  deriving Inhabited

/-- What can be seen of a session from outside, in order. -/
inductive Trace where
  /-- An observer is called. -/
  | call (observer : Observer) (changes : List Change)
  /-- An action within another has ended. -/
  | did (name : String) (reply : Reply)
  | notice (n : Notice)
  deriving Inhabited

/-- The part of a watcher that is neither its table nor its scheduler. -/
structure Watcher where
  name : Value
  interval : Value
  state : WatcherState := .created
  deriving Inhabited

/-- The home directories that are known: that of the user whom the watcher runs for, and those of the users with a name. -/
structure Homes where
  own : Option String := none
  named : List (String × String) := []
  deriving Repr, Inhabited

/-- The home directory of a user; without a name it is the user whom the watcher runs for. -/
def Homes.find? (homes : Homes) (user : String) : Option String :=
  if user = "" then homes.own else homes.named.lookup user

/-- A watcher at work. -/
structure Session where
  disk : Disk
  faults : List ((String × CallKind) × Fault Action) := []
  /-- The number of captures begun. -/
  clock : Nat := 0
  homes : Homes := {}
  patterns : List String := []
  table : Table := {}
  scheduler : Scheduler
  watcher : Watcher
  /-- The handles that have a label. -/
  labels : List (String × HandleId) := []
  /-- What each observer does in its calls to come. -/
  scripts : List (String × List (List Action)) := []
  /-- The operations that fail, and how often they still will. -/
  disabled : List (Operation × Option Nat) := []
  stack : List Frame := []
  signal : Option Signal := none
  /-- The polls that wait inside an observer, the one that waits longest first. -/
  parked : List (List Frame) := []
  /-- What has happened, the latest first. -/
  trace : List Trace := []
  deriving Inhabited

namespace Session

def record (s : Session) (t : Trace) : Session :=
  { s with trace := t :: s.trace }

def notice (s : Session) (n : Notice) : Session :=
  s.record (.notice n)

def notices (s : Session) (ns : List Notice) : Session :=
  ns.foldl notice s

/-- Puts a frame in control. -/
def push (s : Session) (f : Frame) : Session :=
  { s with stack := f :: s.stack }

/-- Leaves a signal for the frame on top. -/
def leave (s : Session) (signal : Signal) : Session :=
  { s with signal := some signal }

/-- Ends an action. -/
def reply (s : Session) (r : Reply) : Session :=
  s.leave (.replied r)

def done (s : Session) : Session :=
  s.reply (.ok .nothing)

def fail (s : Session) (f : Failure) : Session :=
  s.reply (.error f)

/-- The job that a frame belongs to, if the frame is the poll of a job. -/
def jobOf? : Frame → Option JobId
  | .polling _ (.job id) _ _ => some id
  | _ => none

/-- The job that is in control, if any. -/
def currentJob? (s : Session) : Option JobId :=
  s.stack.findSome? jobOf?

/-- The thread that is in control. The loop is never in control by itself: its rounds are run for a caller. -/
def thread (s : Session) : Thread :=
  match s.currentJob? with
  | some id => .worker id
  | none => .other

/-- Whether the one in control is inside a poll of the scheduler. -/
def inDispatch (s : Session) : Bool :=
  s.scheduler.isDispatch s.thread

/-- The frames from the top down to the poll of a job, and those below. -/
def splitJob? : List Frame → Option (List Frame × List Frame)
  | [] => none
  | f :: below =>
    match jobOf? f with
    | some _ => some ([f], below)
    | none => (splitJob? below).map fun (above, below) => (f :: above, below)

/-- Takes one of the failures that an operation is to have. -/
def takeDisabled (s : Session) (operation : Operation) : Bool × Session :=
  match s.disabled.lookup operation with
  | none | some (some 0) => (false, s)
  | some none => (true, s)
  | some (some (n + 1)) =>
    (true, { s with disabled := (operation, some n) :: s.disabled.filter (·.1 != operation) })

/-! ## Calls on paths -/

/-- How a call comes out. -/
inductive CallOutcome (call : Call) where
  | answered (r : Except CallError call.Result)
  /-- Steps to take first; the call goes on after them. -/
  | preceded (s : Session) (steps : List Action)

/-- The fault of a call, if there is one. -/
def faultOf? (s : Session) (call : Call) : Option (Fault Action) :=
  s.faults.lookup (s.disk.absoluteText call.path, call.kind)

/-- Sets or removes the fault of a path and a kind of call. -/
def setFault (s : Session) (path : String) (kind : CallKind) (fault : Option (Fault Action)) : Session :=
  let others := s.faults.filter (·.1 != (path, kind))
  { s with faults := match fault with
      | none => others
      | some fault => ((path, kind), fault) :: others }

/-- Makes a call, unless steps have to be taken before it; when they have been (`ready`), the call goes on. -/
def ask (s : Session) (call : Call) (ready : Bool) : CallOutcome call :=
  match ready, s.faultOf? call with
  | false, some (.refuse reason) => .answered (.error (.system ⟨reason, call.path⟩))
  | false, some .disrupt => .answered (.error .injected)
  | false, some (.precede steps) => .preceded (s.setFault (s.disk.absoluteText call.path) call.kind none) steps
  | _, _ => .answered (s.disk.answer call)

end Session

end DirWatch
