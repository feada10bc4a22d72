import DirWatch.Session.Root
import DirWatch.Session.Tick

/-!
# Running a session

`Session.perform` begins an action, and `Session.step` lets the frame on top of the stack go on by one step. A session is
at rest when its stack is empty; `Session.execute` performs one action and steps until then.
-/

namespace DirWatch.Session

/-- Starts the background loop, unless it was started before. -/
def startScheduler (s : Session) : Session :=
  if s.scheduler.isStarted then s
  else
    { s with scheduler := { s.scheduler with isStarted := true } }.notice
      (.schedulerStarted s.scheduler.name s.scheduler.interval)

/-- Starts the watcher. -/
def start (s : Session) (answer : Answer) : Session :=
  match s.watcher.state with
  | .closed => s.fail (.isClosed s.watcher.name)
  | .running => s.reply (.ok answer)
  | .created =>
    let s := s.startScheduler
    let s := { s with watcher := { s.watcher with state := .running } }
    (s.notice (.watcherStarted s.watcher.name s.watcher.interval s.patterns)).reply (.ok answer)

/-- Replaces the tree by a changed one. -/
def changeTree (s : Session) : Except OsError Disk → Session
  | .ok disk => { s with disk }.done
  | .error e => s.fail (.system e)

/-- The message form of a handle. -/
def handleShown (root : Path) (handle : Handle) : String :=
  "RegistrationHandle(root=" ++ Text.quoted (toString root) ++ ", observer=" ++ handle.observer.shown ++ ", " ++
    (if handle.active then "active" else "cancelled") ++ ")"

/-- What is to be said about a handle. -/
def describe (s : Session) (handle : Handle) (r : Registration) : Answer :=
  .handle (handleShown r.root handle) handle.active handle.observer.shown r.handles.isEmpty
    (r.handles.filterMap fun h => (s.table.handles[h]?).map (·.observer.shown))

/-- The handle of a label, with its registration. -/
def handleOf? (s : Session) (label : String) : Option (HandleId × Handle × Registration) :=
  match s.labels.lookup label with
  | none => none
  | some h =>
    match s.table.handles[h]? with
    | none => none
    | some handle => (s.table.registrations[handle.registration]?).map fun r => (h, handle, r)

/-- Begins an action on the handle of a label. -/
def withHandle (s : Session) (label : String) (f : HandleId → Handle → Registration → Session) : Session :=
  match s.handleOf? label with
  | none => s.reply (.ok .noHandle)
  | some (h, handle, r) => f h handle r

/-- Begins an action. -/
def perform (s : Session) (action : Action) : Session :=
  match action with
  | .put path node => s.changeTree (s.disk.put path node)
  | .remove path => s.changeTree (s.disk.remove path)
  | .touch path mtime => s.changeTree (s.disk.touch path mtime)
  | .setFault path kind fault => (s.setFault path kind fault).done
  | .changeDirectory path => { s with disk := { s.disk with cwd := path } }.done
  | .start => s.start .nothing
  | .enter => s.start .yes
  | .close | .exit => s.beginClose
  | .watch root observer label => s.beginWatch root observer label
  | .unwatch root observer => s.beginUnwatch root observer
  | .pollNow =>
    match s.requireRunning "poll_now" with
    | .error f => s.fail f
    | .ok () => s.push (.ticking .caller .entering)
  | .info => s.reply (.ok (.watcher s.watcher.name s.watcher.state s.watcher.interval s.table.roots))
  | .observerCount root => s.beginCount root
  | .attach root observer label => s.beginAttach root observer label .caller
  | .detach root observer =>
    let hs := s.table.attachments root observer
    (s.cancelHandles hs).reply (.ok (.count hs.length))
  | .clear =>
    let (fails, s) := s.takeDisabled .clear
    if fails then s.fail (.injected .clear) else { s with table := s.table.clear }.done
  | .table => s.reply (.ok (.table (s.table.roots.map fun root => (root, s.table.observerCount root))))
  | .count root => s.reply (.ok (.count (s.table.observerCount root)))
  | .cancel label => s.withHandle label fun h _ _ => (s.cancelHandle h).done
  | .handle label => s.withHandle label fun _ handle r => s.reply (.ok (s.describe handle r))
  | .sameRegistration label other =>
    s.withHandle label fun _ a _ => s.withHandle other fun _ b _ =>
      s.reply (.ok (.same (a.registration == b.registration)))
  | .baseline label => s.withHandle label fun _ _ r => s.reply (.ok (.snapshot r.baseline))
  | .poll label gate =>
    s.withHandle label fun _ handle _ =>
      s.beginPoll handle.registration .caller (match gate with
        | none => .free
        | some n => .counted n)
  | .tick => s.push (.ticking .caller .entering)
  | .startScheduler => s.startScheduler.done
  | .stopScheduler =>
    let (fails, s) := s.takeDisabled .stop
    if fails then s.fail (.injected .stop) else s.beginStop .caller
  | .scheduler =>
    s.reply (.ok (.scheduler s.scheduler.ticks s.scheduler.microseconds s.scheduler.isRunning s.inDispatch))
  | .release => s.beginRelease
  | .loop rounds => s.push (.looping rounds .waiting)
  | .shutPool => s.shutPool.done
  | .disable operation times =>
    { s with disabled := (operation, times) :: s.disabled.filter (·.1 != operation) }.done
  | .capture root => (s.push .reporting).beginCapture root
  | .resolve path => s.beginResolution path .caller
  | .raise => s.fail .observerBug
  | .abort => s.fail .observerAbort
  | .park | .clearChanges => s.done

/-- Records the end of an action within another. -/
def recordReply (s : Session) (current : Option String) (signal : Option Signal) : Session :=
  match current, signal with
  | some name, some (.replied r) => s.record (.did name r)
  | _, _ => s

/-- Goes on with a script. -/
def stepScript (s : Session) (signal : Option Signal) (waiting : List Action) (current : Option String) : Session :=
  let s := s.recordReply current signal
  match waiting with
  | [] => s.leave .finished
  | action :: waiting => (s.push (.script waiting (some action.name))).perform action

/-- Parks the poll that is in control. Outside of the pool nobody would ever release it. -/
def park (s : Session) : Option Session :=
  match splitJob? s.stack with
  | none => none
  | some (above, below) => some { s with parked := s.parked ++ [above], stack := below }

/-- Goes on with the call of an observer. -/
def stepObserver (s : Session) (signal : Option Signal) (h : HandleId) (received : List Change)
    (waiting : List Action) (current : Option String) : Option Session :=
  let s := s.recordReply current signal
  match waiting with
  | [] => some (s.leave .finished)
  | .raise :: _ => some (s.leave (.raised .observerBug))
  | .abort :: _ => some (s.leave (.raised .observerAbort))
  | .clearChanges :: waiting => some (s.push (.observing h [] waiting none))
  | .park :: waiting => (s.push (.observing h received waiting none)).park
  | action :: waiting => some ((s.push (.observing h received waiting (some action.name))).perform action)

/-- Goes on with a capture by one call. -/
def stepCapture (s : Session) (c : Capture) (ready : Bool) : Session :=
  match c.next with
  | .stop outcome => s.leave (.captured (outcome.mapError Failure.ofCapture))
  | .ask call resume =>
    match s.ask call ready with
    | .answered r =>
      let (c, notices) := resume r
      (s.notices notices).push (.capturing c false)
    | .preceded s steps => (s.push (.capturing c true)).push (.script steps none)

/-- Goes on with a resolution by one call. -/
def stepResolution (s : Session) (r : Resolution) (purpose : ResolutionPurpose) (ready : Bool) : Session :=
  match r.next s.disk.cwd with
  | .stop outcome => s.resolved purpose outcome
  | .ask call resume =>
    match s.ask call ready with
    | .answered answer => s.push (.resolving (resume answer) purpose false)
    | .preceded s steps => (s.push (.resolving r purpose true)).push (.script steps none)

/-- Goes on with the check of a root. -/
def stepProbe (s : Session) (path : Path) (observer : Observer) (label : String) (ready : Bool) : Session :=
  match s.ask (.stat (toString path)) ready with
  | .answered r => s.probed path observer label r
  | .preceded s steps => (s.push (.probing path observer label true)).push (.script steps none)

/-- Goes on with an attachment. -/
def stepAttach (s : Session) (signal : Option Signal) (root : Path) (observer : Observer) (label : String)
    (purpose : AttachPurpose) : Session :=
  match signal with
  | some (.captured (.ok baseline)) => s.finishAttach root observer label purpose baseline
  | some (.captured (.error f)) => s.fail f
  | _ => s.done

/-- Ends a single capture. -/
def stepReport (s : Session) (signal : Option Signal) : Session :=
  match signal with
  | some (.captured r) => s.reply (r.map .snapshot)
  | _ => s.done

/-- Lets the frame on top go on by one step. There is no step when the session is at rest, or when the frame waits for
something that cannot happen any more. -/
def step (s : Session) : Option Session :=
  match s.stack with
  | [] => none
  | frame :: below =>
    let signal := s.signal
    let s := { s with stack := below, signal := none }
    match frame with
    | .script waiting current => some (s.stepScript signal waiting current)
    | .observing h received waiting current => s.stepObserver signal h received waiting current
    | .capturing c ready => some (s.stepCapture c ready)
    | .resolving r purpose ready => some (s.stepResolution r purpose ready)
    | .probing path observer label ready => some (s.stepProbe path observer label ready)
    | .attaching root observer label purpose => some (s.stepAttach signal root observer label purpose)
    | .polling id owner gate stage => s.stepPoll signal id owner gate stage
    | .ticking owner stage => s.stepTick owner stage
    | .looping rounds stage => some (s.stepLoop signal rounds stage)
    | .stopping owner => s.stepStop owner
    | .releasing => some s.stepRelease
    | .reporting => some (s.stepReport signal)

/-- Takes a number of steps, or as many as there are. -/
def run : Nat → Session → Session
  | 0, s => s
  | n + 1, s =>
    match s.step with
    | none => s
    | some s => run n s

/-- Far more steps than any session takes. -/
def stepLimit : Nat := Nat.pow 10 15

/-- Performs an action to its end. The reply is missing if the session waits for something that cannot happen. -/
def execute (s : Session) (action : Action) : Option Reply × Session :=
  let s := run stepLimit ({ s with signal := none }.perform action)
  match s.stack, s.signal with
  | [], some (.replied r) => (some r, s)
  | _, _ => (none, s)

end DirWatch.Session
