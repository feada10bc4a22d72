import DirWatch.Change
import DirWatch.Failure
import DirWatch.Table

/-!
# Scheduler and pool

A scheduler polls the registrations of a table, tick by tick. Each poll is a job of a pool with a fixed number of
workers: a job waits in a queue until a worker is free, and keeps that worker until its poll has ended. The scheduler
remembers the latest job of each registration, so that a registration is not polled again while that job is unfinished,
and it keeps the jobs that are inside a poll, to tell whether a caller is one of them.
-/

namespace DirWatch

/-- A job, by its place among all that were ever submitted. -/
abbrev JobId := Nat

/-- How far a job has come. -/
inductive JobStatus where
  | queued
  | running
  | finished (outcome : Except Failure (List Change))
  deriving Inhabited

/-- One poll in the pool. -/
structure Job where
  registration : RegistrationId
  status : JobStatus := .queued
  deriving Inhabited

def Job.isFinished (j : Job) : Bool :=
  match j.status with
  | .finished _ => true
  | _ => false

def Job.isRunning (j : Job) : Bool :=
  match j.status with
  | .running => true
  | _ => false

/-- The jobs of the polls and the workers that do them. -/
structure Pool where
  workers : Nat
  jobs : Array Job := #[]
  /-- The jobs that wait for a worker, in the order in which they were submitted. -/
  queue : List JobId := []
  isShut : Bool := false
  deriving Inhabited

namespace Pool

/-- Adds a job to the end of the queue. -/
def submit (p : Pool) (registration : RegistrationId) : Pool × JobId :=
  let id := p.jobs.size
  ({ p with jobs := p.jobs.push { registration }, queue := p.queue ++ [id] }, id)

def setStatus (p : Pool) (id : JobId) (status : JobStatus) : Pool :=
  { p with jobs := p.jobs.modify id fun j => { j with status } }

/-- The number of workers that are doing a job. -/
def busy (p : Pool) : Nat :=
  p.jobs.countP Job.isRunning

/-- The job that a free worker takes next. -/
def ready? (p : Pool) : Option JobId :=
  if p.busy < p.workers then p.queue.head? else none

/-- Starts the first job of the queue. -/
def start (p : Pool) (id : JobId) : Pool :=
  { p.setStatus id .running with queue := p.queue.tail }

def isFinished (p : Pool) (id : JobId) : Bool :=
  match p.jobs[id]? with
  | some j => j.isFinished
  | none => true

/-- The outcome of a finished job. -/
def outcome? (p : Pool) (id : JobId) : Option (Except Failure (List Change)) :=
  match p.jobs[id]? with
  | some ⟨_, .finished outcome⟩ => some outcome
  | _ => none

end Pool

/-- A thread, as far as the scheduler tells them apart. -/
inductive Thread where
  /-- The thread of the background loop. -/
  | loop
  /-- The worker that does a job. -/
  | worker (job : JobId)
  | other
  deriving DecidableEq, Repr, Inhabited

/-- The state of a scheduler. -/
structure Scheduler where
  name : Value
  /-- The time between two ticks, in seconds. -/
  interval : Binary64
  pool : Pool
  /-- Whether the background loop was started. -/
  isStarted : Bool := false
  /-- Whether the scheduler was told to stop. -/
  isStopped : Bool := false
  /-- Whether a tick is under way. -/
  isTicking : Bool := false
  /-- The number of completed ticks. -/
  ticks : Nat := 0
  /-- The latest job of each registration. -/
  inFlight : List (RegistrationId × JobId) := []
  /-- The jobs that are inside a poll. -/
  dispatching : List JobId := []
  deriving Inhabited

namespace Scheduler

/-- The interval of a number of milliseconds, in seconds. -/
def interval? (ms : Int) : Option Binary64 :=
  match Binary64.ofInt ms with
  | .infinite _ => none
  | x => some (x.mulRatio 1 1000)

/-- The interval in microseconds. -/
def microseconds (s : Scheduler) : Int :=
  (s.interval.mulRatio 1000000 1).round

/-- Whether the background loop goes on. -/
def isRunning (s : Scheduler) : Bool :=
  s.isStarted && !s.isStopped

/-- A scheduler that has not been started. -/
def create (name : Value) (intervalMs workers : Int) : Except Failure Scheduler :=
  match interval? intervalMs with
  | none => .error .intervalTooLarge
  | some interval => if workers ≤ 0 then .error .noWorkers else .ok { name, interval, pool := { workers := workers.toNat } }

/-- Forgets the jobs that have finished. -/
def prune (s : Scheduler) : Scheduler :=
  { s with inFlight := s.inFlight.filter fun entry => !s.pool.isFinished entry.2 }

/-- Submits a poll of a registration. -/
def submit (s : Scheduler) (registration : RegistrationId) : Scheduler × JobId :=
  let (pool, id) := s.pool.submit registration
  ({ s with pool, inFlight := s.inFlight ++ [(registration, id)] }, id)

/-- Lets a job enter its poll. -/
def enter (s : Scheduler) (id : JobId) : Scheduler :=
  { s with pool := s.pool.start id, dispatching := s.dispatching ++ [id] }

/-- Records the end of a job. -/
def leave (s : Scheduler) (id : JobId) (outcome : Except Failure (List Change)) : Scheduler :=
  { s with pool := s.pool.setStatus id (.finished outcome), dispatching := s.dispatching.filter (· != id) }

/-- Whether a thread is the one of the loop or is inside a poll. -/
def isDispatch (s : Scheduler) : Thread → Bool
  | .loop => s.isStarted
  | .worker job => s.dispatching.contains job
  | .other => false

/-- Whether a registration has an unfinished job. -/
def isBusy (s : Scheduler) (registration : RegistrationId) : Bool :=
  s.inFlight.any (·.1 == registration)

end Scheduler

end DirWatch
