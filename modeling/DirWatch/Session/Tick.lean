import DirWatch.Session.Poll

/-!
# Ticks, the loop, and stopping

A tick submits a poll of every registration in force that has no unfinished job, and collects what the finished ones
found. After each submission, and after each release, the pool goes as far as it can by itself: jobs start while a worker
is free, and each runs until it ends or is parked. The loop waits, runs a tick, and so on until the scheduler has been
told to stop.

A stop that comes from inside a poll only closes the pool. Any other stop releases what is parked, one after another, and
waits for all jobs.
-/

namespace DirWatch.Session

/-- Starts a job. -/
def startJob (s : Session) (id : JobId) : Session :=
  match s.scheduler.pool.jobs[id]? with
  | none => s
  | some job => { s with scheduler := s.scheduler.enter id }.beginPoll job.registration (.job id) .scheduler

/-- Puts the parked poll that waits longest back on the stack. -/
def unpark? (s : Session) : Option Session :=
  match s.parked with
  | [] => none
  | frames :: parked => some { s with parked, stack := frames ++ s.stack }

/-! ## Ticks -/

/-- Ends a tick. -/
def endTick (s : Session) (owner : TickOwner) (r : Except Failure (List (Path × List Change))) : Session :=
  let s := { s with scheduler := { s.scheduler with isTicking := false } }
  match owner with
  | .caller => s.reply (r.map .changesByRoot)
  | .loop => s.leave (.ticked r)

/-- Counts a completed tick. -/
def countTick (s : Session) : Session :=
  { s with scheduler := { s.scheduler with ticks := s.scheduler.ticks + 1 } }

/-- What the finished ones of some jobs found, by root. The first job that ended fatally fails the whole. -/
def collect (s : Session) : List JobId → Except Failure (List (Path × List Change))
  | [] => .ok []
  | id :: ids =>
    match s.scheduler.pool.jobs[id]? with
    | none => s.collect ids
    | some job =>
      match job.status with
      | .finished (.error f) => .error f
      | .finished (.ok (c :: cs)) =>
        (s.collect ids).map fun rest =>
          (((s.table.registrations[job.registration]?).map (·.root)).getD default, c :: cs) :: rest
      | _ => s.collect ids

/-- Ends a tick whose polls have all been submitted. -/
def completeTick (s : Session) (owner : TickOwner) (all : Nat) (submitted : List JobId) : Session :=
  match s.collect submitted with
  | .error f => s.endTick owner (.error f)
  | .ok changes =>
    let s := s.countTick
    let unfinished := (submitted.filter fun id => !s.scheduler.pool.isFinished id).length
    let s :=
      if changes.isEmpty && unfinished = 0 then s
      else s.notice (.tickCompleted s.scheduler.ticks all changes.length unfinished)
    s.endTick owner (.ok changes)

/-- Begins a tick: nothing is done once the scheduler has been told to stop. -/
def enterTick (s : Session) (owner : TickOwner) : Session :=
  if s.scheduler.isStopped then s.endTick owner (.ok [])
  else
    let (fails, s) := s.takeDisabled .registrations
    if fails then s.endTick owner (.error (.injected .registrations))
    else
      let s := { s with scheduler := s.scheduler.prune }
      match s.table.current.map (·.2) with
      | [] => s.countTick.endTick owner (.ok [])
      | ids => s.push (.ticking owner (.submitting ids ids.length []))

/-- Goes on with a tick. It is stuck as long as another tick is under way. -/
def stepTick (s : Session) (owner : TickOwner) (stage : TickStage) : Option Session :=
  match stage with
  | .entering =>
    if s.scheduler.isTicking then none
    else some ({ s with scheduler := { s.scheduler with isTicking := true } }.enterTick owner)
  | .submitting waiting all submitted =>
    match s.scheduler.pool.ready?, waiting with
    | some id, _ => some ((s.push (.ticking owner stage)).startJob id)
    | none, [] => some (s.completeTick owner all submitted)
    | none, id :: waiting =>
      if s.scheduler.isBusy id then
        let root := ((s.table.registrations[id]?).map (·.root)).getD default
        some ((s.notice (.pollStillRunning root)).push (.ticking owner (.submitting waiting all submitted)))
      else if s.scheduler.pool.isShut then
        some (s.endTick owner (if s.scheduler.isStopped then .ok [] else .error .poolShut))
      else
        let (scheduler, job) := s.scheduler.submit id
        some ({ s with scheduler }.push (.ticking owner (.submitting waiting all (submitted ++ [job]))))

/-! ## The loop -/

/-- Ends the loop. -/
def endLoop (s : Session) : Session :=
  (s.notice (.schedulerStopped s.scheduler.name s.scheduler.ticks)).done

/-- Goes on with the loop. It ends when there are no rounds left or the scheduler has been told to stop. -/
def stepLoop (s : Session) (signal : Option Signal) (rounds : List (List Action)) (stage : LoopStage) : Session :=
  match stage, signal with
  | .ticking, some (.ticked (.error f)) =>
    if f.isFatal then s.fail f
    else (s.notice (.tickFailed s.scheduler.name)).push (.looping rounds .waiting)
  | .ticking, _ => s.push (.looping rounds .waiting)
  | .round, _ =>
    if s.scheduler.isStopped then s.endLoop
    else (s.push (.looping rounds .ticking)).push (.ticking .loop .entering)
  | .waiting, _ =>
    match rounds with
    | [] => s.endLoop
    | round :: rounds =>
      if s.scheduler.isStopped then s.endLoop
      else (s.push (.looping rounds .round)).push (.script round none)

/-! ## Stopping -/

/-- Ends the closing of a watcher. -/
def finishClose (s : Session) : Session :=
  let (fails, s) := s.takeDisabled .clear
  let s := if fails then s.notice (.clearFailed s.watcher.name) else { s with table := s.table.clear }
  (s.notice (.watcherClosed s.watcher.name)).done

/-- Goes on when the scheduler has stopped. -/
def stopped (s : Session) : StopOwner → Session
  | .caller => s.done
  | .closing => s.finishClose

/-- Shuts the pool: it takes no new jobs. -/
def shutPool (s : Session) : Session :=
  { s with scheduler := { s.scheduler with pool := { s.scheduler.pool with isShut := true } } }

/-- Tells the scheduler to stop. Inside a poll that is all; from outside the caller waits. -/
def beginStop (s : Session) (owner : StopOwner) : Session :=
  let s := { s with scheduler := { s.scheduler with isStopped := true } }
  if s.inDispatch then (s.shutPool.notice (.stopRequestedFromDispatch s.scheduler.name)).stopped owner
  else s.push (.stopping owner)

/-- Goes on with a stop from outside. It is stuck as long as a tick is under way. -/
def stepStop (s : Session) (owner : StopOwner) : Option Session :=
  if s.scheduler.isTicking then none
  else
    let s := s.shutPool
    match s.scheduler.pool.ready? with
    | some id => some ((s.push (.stopping owner)).startJob id)
    | none =>
      match (s.push (.stopping owner)).unpark? with
      | some s => some s
      | none => some (s.stopped owner)

/-- Goes on with a release. -/
def stepRelease (s : Session) : Session :=
  match s.scheduler.pool.ready? with
  | some id => (s.push .releasing).startJob id
  | none => s.reply (.ok (.count 1))

/-- Releases the parked poll that waits longest. -/
def beginRelease (s : Session) : Session :=
  match (s.push .releasing).unpark? with
  | some s => s
  | none => s.reply (.ok (.count 0))

/-- Closes the watcher. The first call stops the scheduler and clears the table; a later one from outside waits again. A
failure to stop or to clear is reported and does not keep the watcher open. -/
def beginClose (s : Session) : Session :=
  if s.watcher.state = .closed then
    if s.inDispatch then s.done
    else
      let (fails, s) := s.takeDisabled .stop
      if fails then (s.notice (.stopFailed s.watcher.name)).done else s.beginStop .caller
  else
    let s := { s with watcher := { s.watcher with state := .closed } }
    let (fails, s) := s.takeDisabled .stop
    if fails then (s.notice (.stopFailed s.watcher.name)).finishClose else s.beginStop .closing

end DirWatch.Session
