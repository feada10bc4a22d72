import DirWatch.Proofs.Session.Frames

/-!
# What steps leave alone of ticks

A tick begins and ends in its own frame. Everything else that a session does leaves alone whether a tick is under way
and how many there were, reports no tick to a loop, and takes no frame away: `Paced s t` says so in one statement.
`perform_paced` holds for every action, and `step_paced` for every step that is not one of a tick. What a tick itself
can do is listed by `TickMove`.
-/

namespace DirWatch

namespace Scheduler

/-- The way from one scheduler to another on which no tick begins or ends and no poll is submitted. -/
structure Steady (a b : Scheduler) : Prop where
  ticking : b.isTicking = a.isTicking
  ticks : b.ticks = a.ticks
  workers : b.pool.workers = a.pool.workers
  /-- The jobs are still there, each for its registration. -/
  registrations : b.pool.jobs.map (·.registration) = a.pool.jobs.map (·.registration)
  inFlight : b.inFlight = a.inFlight
  /-- What has been told to stop stays so. -/
  stopped : a.isStopped = true → b.isStopped = true
  shut : a.pool.isShut = true → b.pool.isShut = true

variable {a b c : Scheduler}

theorem Steady.refl (a : Scheduler) : Steady a a := ⟨rfl, rfl, rfl, rfl, rfl, fun h => h, fun h => h⟩

/-- Two steady ways make one. -/
theorem Steady.trans (h : Steady a b) (h' : Steady b c) : Steady a c where
  ticking := h'.ticking.trans h.ticking
  ticks := h'.ticks.trans h.ticks
  workers := h'.workers.trans h.workers
  registrations := h'.registrations.trans h.registrations
  inFlight := h'.inFlight.trans h.inFlight
  stopped := fun hs => h'.stopped (h.stopped hs)
  shut := fun hs => h'.shut (h.shut hs)

/-- Jobs keep their registrations, whatever becomes of them. -/
theorem registrations_setStatus (p : Pool) (id : JobId) (status : JobStatus) :
    (p.setStatus id status).jobs.map (·.registration) = p.jobs.map (·.registration) := by
  refine Array.ext_getElem? fun a => ?_
  rw [Array.getElem?_map, Array.getElem?_map, Pool.setStatus, Array.getElem?_modify]
  split
  · cases p.jobs[a]? <;> rfl
  · rfl

/-- A job that starts is still there, and is for the same registration. -/
theorem Steady.enter (a : Scheduler) (id : JobId) : Steady a (a.enter id) :=
  ⟨rfl, rfl, rfl, registrations_setStatus a.pool id .running, rfl, fun h => h, fun h => h⟩

/-- A job that ends is still there, and stays in flight until the next tick prunes it. -/
theorem Steady.leave (a : Scheduler) (id : JobId) (outcome : Except Failure (List Change)) : Steady a (a.leave id outcome) :=
  ⟨rfl, rfl, rfl, registrations_setStatus a.pool id (.finished outcome), rfl, fun h => h, fun h => h⟩

end Scheduler

namespace Session

open Scheduler (Steady)

/-- Whether a frame is a tick that submits its polls. -/
def isSubmitting : Frame → Bool
  | .ticking _ (.submitting ..) => true
  | _ => false

/-- The way from one session to another on which no tick begins or ends. -/
structure Paced (s t : Session) : Prop where
  steady : Steady s.scheduler t.scheduler
  /-- No tick is reported to a loop. -/
  ticked : ∀ r, t.signal = some (.ticked r) → s.signal = some (.ticked r)
  /-- No frame goes, and none that comes submits polls. -/
  frames : ∃ fs, t.frames.Perm (fs ++ s.frames) ∧ ∀ f ∈ fs, isSubmitting f = false

variable {s t u : Session}

/-- Two paced ways make one: the frames that come on either of them come on the whole. -/
theorem Paced.trans (h : Paced s t) (h' : Paced t u) : Paced s u where
  steady := h.steady.trans h'.steady
  ticked := fun r hr => h.ticked r (h'.ticked r hr)
  frames := by
    obtain ⟨fs, hfs, hlight⟩ := h.frames
    obtain ⟨gs, hgs, hlight'⟩ := h'.frames
    refine ⟨gs ++ fs, ?_, ?_⟩
    · rw [List.append_assoc]
      exact hgs.trans (hfs.append_left gs)
    · intro f hf
      exact (List.mem_append.mp hf).elim (hlight' f) (hlight f)

/-- The scheduler is the same and so are the frames. -/
theorem Paced.of_eq (hscheduler : t.scheduler = s.scheduler) (hframes : t.frames = s.frames)
    (hticked : ∀ r, t.signal = some (.ticked r) → s.signal = some (.ticked r)) : Paced s t where
  steady := hscheduler ▸ Steady.refl _
  ticked := hticked
  frames := ⟨[], by rw [hframes, List.nil_append], fun _ hf => (nomatch hf)⟩

theorem Paced.refl (s : Session) : Paced s s := Paced.of_eq rfl rfl fun _ h => h

/-! ## Single changes -/

theorem Paced.notice (s : Session) (n : Notice) : Paced s (s.notice n) := Paced.of_eq rfl rfl fun _ h => h

/-- Reports are no signals, however many there are. -/
theorem Paced.notices (s : Session) (ns : List Notice) : Paced s (s.notices ns) := by
  induction ns generalizing s with
  | nil => exact Paced.refl s
  | cons n ns ih => exact (Paced.notice s n).trans (ih (s.notice n))

/-- An answer is not the report of a tick. -/
theorem Paced.reply (s : Session) (r : Reply) : Paced s (s.reply r) := Paced.of_eq rfl rfl fun _ h => (nomatch h)

theorem Paced.done (s : Session) : Paced s s.done := Paced.reply s _

theorem Paced.fail (s : Session) (f : Failure) : Paced s (s.fail f) := Paced.reply s _

/-- The table knows nothing of ticks. -/
theorem Paced.setTable (s : Session) (table : Table) : Paced s { s with table } := Paced.of_eq rfl rfl fun _ h => h

/-- The state of the watcher has no part in a tick. -/
theorem Paced.setWatcher (s : Session) (watcher : Watcher) : Paced s { s with watcher } := Paced.of_eq rfl rfl fun _ h => h

/-- A frame that submits no polls comes on top. -/
theorem Paced.push (s : Session) {f : Frame} (hf : isSubmitting f = false) : Paced s (s.push f) where
  steady := Steady.refl _
  ticked := fun _ h => h
  frames := by
    refine ⟨[f], List.Perm.refl _, ?_⟩
    intro g hg
    rwa [List.mem_singleton.mp hg]

/-- A change to the scheduler is paced if it is steady. -/
theorem Paced.setScheduler (s : Session) {scheduler : Scheduler} (h : Steady s.scheduler scheduler) :
    Paced s { s with scheduler } where
  steady := h
  ticked := fun _ h => h
  frames := ⟨[], List.Perm.refl _, fun _ hf => (nomatch hf)⟩

/-- What is recorded of an answer is in the trace alone. -/
theorem Paced.recordReply (s : Session) (current : Option String) (signal : Option Signal) :
    Paced s (s.recordReply current signal) := by
  unfold Session.recordReply
  split
  · exact Paced.of_eq rfl rfl fun _ h => h
  · exact Paced.refl s

/-- An observer that takes its next script leaves the rest of the session as it is. -/
theorem Paced.takeScript (s : Session) (name : String) : Paced s (s.takeScript name).2 := by
  unfold Session.takeScript
  split <;> exact Paced.of_eq rfl rfl fun _ h => h

/-- One failure of an operation fewer is left to be had. -/
theorem Paced.takeDisabled (s : Session) (operation : Operation) : Paced s (s.takeDisabled operation).2 := by
  unfold Session.takeDisabled
  split <;> exact Paced.of_eq rfl rfl fun _ h => h

/-- A pool that shuts still has its workers and its jobs. -/
theorem Paced.shutPool (s : Session) : Paced s s.shutPool :=
  Paced.setScheduler s ⟨rfl, rfl, rfl, rfl, rfl, fun h => h, fun _ => rfl⟩

/-- The frames of a poll that parks are still among those of the session. -/
theorem Paced.park (h : s.park = some t) : Paced s t := by
  obtain ⟨above, below, -, -, rfl⟩ := park_eq h
  exact ⟨Steady.refl _, fun _ h => h, [], park_frames h, fun _ hf => (nomatch hf)⟩

/-- What goes on after it was parked comes back with its own frames and no others. -/
theorem Paced.unpark (h : s.unpark? = some t) : Paced s t := by
  obtain ⟨above, rest, -, rfl⟩ := unpark?_eq h
  exact ⟨Steady.refl _, fun _ h => h, [], unpark?_frames h, fun _ hf => (nomatch hf)⟩

/-- A job starts its poll. -/
theorem Paced.startJob (s : Session) (id : JobId) : Paced s (s.startJob id) := by
  unfold Session.startJob
  split
  · exact Paced.refl s
  · exact (Paced.setScheduler s (Steady.enter _ id)).trans (Paced.push _ rfl)

/-! ## Attaching and cancelling -/

/-- A cancellation changes the table and reports what it did. -/
theorem Paced.cancelHandle (s : Session) (h : HandleId) : Paced s (s.cancelHandle h) := by
  unfold Session.cancelHandle
  dsimp only
  split
  · exact Paced.setTable s _
  · exact (Paced.setTable s _).trans (Paced.notice _ _)
  · exact (Paced.setTable s _).trans (Paced.notices _ _)

theorem Paced.cancelHandles (s : Session) (hs : List HandleId) : Paced s (s.cancelHandles hs) := by
  unfold Session.cancelHandles
  induction hs generalizing s with
  | nil => exact Paced.refl s
  | cons h hs ih => exact (Paced.cancelHandle s h).trans (ih (s.cancelHandle h))

/-- The answer with a handle is no report of a tick. -/
theorem Paced.labelled (s : Session) (label : String) (h : HandleId) (root : Path) : Paced s (s.labelled label h root) :=
  Paced.of_eq rfl rfl fun _ h => (nomatch h)

/-- An observer that joins a registration changes the table, and is cancelled again if the watcher has been closed. -/
theorem Paced.join (s : Session) (id : RegistrationId) (root : Path) (observer : Observer) (label : String)
    (purpose : AttachPurpose) : Paced s (s.join id root observer label purpose) := by
  have hjoin : Paced s ({ s with table := (s.table.join id observer).1 }.notice (.observerAttached root observer)) :=
    (Paced.setTable s _).trans (Paced.notice _ _)
  unfold Session.join
  dsimp only
  split
  · exact hjoin.trans (Paced.labelled _ _ _ _)
  · split
    · exact hjoin.trans ((Paced.notice _ _).trans (Paced.labelled _ _ _ _))
    · exact hjoin.trans ((Paced.cancelHandle _ _).trans (Paced.fail _ _))

/-- A capture is a frame of its own, and submits no polls. -/
theorem Paced.beginCapture (s : Session) (root : Path) : Paced s (s.beginCapture root) := by
  have hclock : Paced s { s with clock := s.clock + 1 } := Paced.of_eq rfl rfl fun _ h => h
  exact hclock.trans (Paced.push _ rfl)

/-- An attachment joins at once or waits in a frame for a capture. -/
theorem Paced.beginAttach (s : Session) (root : Path) (observer : Observer) (label : String) (purpose : AttachPurpose) :
    Paced s (s.beginAttach root observer label purpose) := by
  unfold Session.beginAttach
  split
  · exact Paced.join s _ _ _ _ _
  · exact (Paced.push s rfl).trans (Paced.beginCapture _ _)

/-- When the capture is there, a registration is made if there still is none. -/
theorem Paced.finishAttach (s : Session) (root : Path) (observer : Observer) (label : String) (purpose : AttachPurpose)
    (baseline : Snapshot) : Paced s (s.finishAttach root observer label purpose baseline) := by
  unfold Session.finishAttach
  split
  · exact Paced.join s _ _ _ _ _
  · exact ((Paced.setTable s _).trans (Paced.notice _ _)).trans (Paced.join _ _ _ _ _ _)

/-! ## Roots -/

theorem Paced.beginResolution (s : Session) (p : Path) (purpose : ResolutionPurpose) :
    Paced s (s.beginResolution p purpose) := Paced.push s rfl

/-- A request to watch is refused, or its root is to be resolved. -/
theorem Paced.beginWatch (s : Session) (root : RootArgument) (observer : Observer) (label : String) :
    Paced s (s.beginWatch root observer label) := by
  unfold Session.beginWatch
  split
  · exact Paced.fail s _
  · split
    · exact Paced.fail s _
    · split
      · exact Paced.fail s _
      · split
        · exact Paced.fail s _
        · exact Paced.beginResolution s _ _

/-- A request to unwatch is refused, or its root is to be resolved. -/
theorem Paced.beginUnwatch (s : Session) (root : RootArgument) (observer : Observer) :
    Paced s (s.beginUnwatch root observer) := by
  unfold Session.beginUnwatch
  split
  · exact Paced.fail s _
  · split
    · exact Paced.fail s _
    · exact Paced.beginResolution s _ _

/-- A request to count is refused, or its root is to be resolved. -/
theorem Paced.beginCount (s : Session) (root : RootArgument) : Paced s (s.beginCount root) := by
  unfold Session.beginCount
  split
  · exact Paced.fail s _
  · exact Paced.beginResolution s _ _

/-- What follows upon a resolution is an answer, a cancellation or a look at the root. -/
theorem Paced.resolved (s : Session) (purpose : ResolutionPurpose) (outcome : Except ResolutionError Path) :
    Paced s (s.resolved purpose outcome) := by
  unfold Session.resolved
  split
  · exact Paced.fail s _
  · exact Paced.fail s _
  · exact Paced.push s rfl
  · exact (Paced.cancelHandles s _).trans ((Paced.notice _ _).trans (Paced.done _))
  · exact Paced.reply s _
  · exact Paced.reply s _

/-- What follows upon the look at a root is an attachment or a failure. -/
theorem Paced.probed (s : Session) (path : Path) (observer : Observer) (label : String) (r : Except CallError Info) :
    Paced s (s.probed path observer label r) := by
  unfold Session.probed
  split
  · split
    · exact Paced.beginAttach s _ _ _ _
    · exact Paced.fail s _
  · split <;> exact Paced.fail s _
  · exact Paced.fail s _
  · exact Paced.fail s _

/-! ## Starting, stopping and closing -/

/-- A scheduler that starts counts no tick. -/
theorem Paced.startScheduler (s : Session) : Paced s s.startScheduler := by
  unfold Session.startScheduler
  split
  · exact Paced.refl s
  · have hstart : Paced s { s with scheduler := { s.scheduler with isStarted := true } } :=
      Paced.setScheduler s ⟨rfl, rfl, rfl, rfl, rfl, fun h => h, fun h => h⟩
    exact hstart.trans (Paced.notice _ _)

/-- A watcher that starts does so with its scheduler, or is refused. -/
theorem Paced.start (s : Session) (answer : Answer) : Paced s (s.start answer) := by
  unfold Session.start
  split
  · exact Paced.fail s _
  · exact Paced.reply s _
  · exact (Paced.startScheduler s).trans ((Paced.setWatcher _ _).trans ((Paced.notice _ _).trans (Paced.reply _ _)))

/-- The last part of a close cancels handles, unless the table cannot be cleared. -/
theorem Paced.finishClose (s : Session) : Paced s s.finishClose := by
  have htake := Paced.takeDisabled s .clear
  unfold Session.finishClose
  dsimp only
  split
  · exact htake.trans ((Paced.notice _ _).trans ((Paced.notice _ _).trans (Paced.done _)))
  · exact htake.trans ((Paced.setTable _ _).trans ((Paced.notice _ _).trans (Paced.done _)))

/-- When the scheduler has stopped, whoever waited for that goes on. -/
theorem Paced.stoppedFor (s : Session) (owner : StopOwner) : Paced s (s.stopped owner) := by
  cases owner with
  | caller => exact Paced.done s
  | closing => exact Paced.finishClose s

/-- A stop is told to the scheduler, and a tick under way is left to notice it. -/
theorem Paced.beginStop (s : Session) (owner : StopOwner) : Paced s (s.beginStop owner) := by
  have hstop : Paced s { s with scheduler := { s.scheduler with isStopped := true } } :=
    Paced.setScheduler s ⟨rfl, rfl, rfl, rfl, rfl, fun _ => rfl, fun h => h⟩
  unfold Session.beginStop
  dsimp only
  split
  · exact hstop.trans ((Paced.shutPool _).trans ((Paced.notice _ _).trans (Paced.stoppedFor _ _)))
  · exact hstop.trans (Paced.push _ rfl)

/-- A close stops the scheduler, or goes on without that if it fails. -/
theorem Paced.beginClose (s : Session) : Paced s s.beginClose := by
  unfold Session.beginClose
  split
  · split
    · exact Paced.done s
    · have htake := Paced.takeDisabled s .stop
      dsimp only
      split
      · exact htake.trans ((Paced.notice _ _).trans (Paced.done _))
      · exact htake.trans (Paced.beginStop _ _)
  · have htake := (Paced.setWatcher s { s.watcher with state := .closed }).trans (Paced.takeDisabled _ .stop)
    dsimp only
    split
    · exact htake.trans ((Paced.notice _ _).trans (Paced.finishClose _))
    · exact htake.trans (Paced.beginStop _ _)

/-- A release waits in a frame of its own, under what it lets go on. -/
theorem Paced.beginRelease (s : Session) : Paced s s.beginRelease := by
  unfold Session.beginRelease
  split
  · rename_i hunpark
    exact (Paced.push s rfl).trans (Paced.unpark hunpark)
  · exact Paced.reply s _

/-! ## All actions -/

/-- Changes of the tree are none of the session. -/
theorem Paced.changeTree (s : Session) (r : Except OsError Disk) : Paced s (s.changeTree r) := by
  unfold Session.changeTree
  split
  · exact Paced.of_eq rfl rfl fun _ h => (nomatch h)
  · exact Paced.fail s _

/-- What is done with a handle is paced if it is so with every handle; with none it is a failure. -/
theorem Paced.withHandle {label : String} {f : HandleId → Handle → Registration → Session}
    (h : ∀ k handle r, Paced s (f k handle r)) : Paced s (s.withHandle label f) := by
  unfold Session.withHandle
  split
  · exact Paced.reply s _
  · exact h _ _ _

/-- Beginning an action begins and ends no tick. -/
theorem perform_paced (s : Session) (action : Action) : Paced s (s.perform action) := by
  unfold perform
  cases action with
  | put path node => exact Paced.changeTree s _
  | remove path => exact Paced.changeTree s _
  | touch path mtime => exact Paced.changeTree s _
  | setFault path kind fault =>
    have hset : Paced s (s.setFault path kind fault) := Paced.of_eq rfl rfl fun _ h => h
    exact hset.trans (Paced.done _)
  | changeDirectory path => exact Paced.of_eq rfl rfl fun _ h => (nomatch h)
  | start => exact Paced.start s _
  | enter => exact Paced.start s _
  | close => exact Paced.beginClose s
  | exit => exact Paced.beginClose s
  | watch root observer label => exact Paced.beginWatch s _ _ _
  | unwatch root observer => exact Paced.beginUnwatch s _ _
  | pollNow =>
    dsimp only
    split
    · exact Paced.fail s _
    · exact Paced.push s rfl
  | info => exact Paced.reply s _
  | observerCount root => exact Paced.beginCount s _
  | attach root observer label => exact Paced.beginAttach s _ _ _ _
  | detach root observer => exact (Paced.cancelHandles s _).trans (Paced.reply _ _)
  | clear =>
    have htake := Paced.takeDisabled s .clear
    dsimp only
    split
    · exact htake.trans (Paced.fail _ _)
    · exact htake.trans ((Paced.setTable _ _).trans (Paced.done _))
  | table => exact Paced.reply s _
  | count root => exact Paced.reply s _
  | cancel label => exact Paced.withHandle fun h _ _ => (Paced.cancelHandle s h).trans (Paced.done _)
  | handle label => exact Paced.withHandle fun _ _ _ => Paced.reply s _
  | sameRegistration label other => exact Paced.withHandle fun _ _ _ => Paced.withHandle fun _ _ _ => Paced.reply s _
  | baseline label => exact Paced.withHandle fun _ _ _ => Paced.reply s _
  | poll label gate => exact Paced.withHandle fun _ _ _ => Paced.push s rfl
  | tick => exact Paced.push s rfl
  | startScheduler => exact (Paced.startScheduler s).trans (Paced.done _)
  | stopScheduler =>
    have htake := Paced.takeDisabled s .stop
    dsimp only
    split
    · exact htake.trans (Paced.fail _ _)
    · exact htake.trans (Paced.beginStop _ _)
  | scheduler => exact Paced.reply s _
  | release => exact Paced.beginRelease s
  | loop rounds => exact Paced.push s rfl
  | shutPool => exact (Paced.shutPool s).trans (Paced.done _)
  | disable operation times => exact Paced.of_eq rfl rfl fun _ h => (nomatch h)
  | capture root => exact (Paced.push s rfl).trans (Paced.beginCapture _ _)
  | resolve path => exact Paced.beginResolution s _ _
  | raise => exact Paced.fail s _
  | abort => exact Paced.fail s _
  | park => exact Paced.done s
  | clearChanges => exact Paced.done s

/-! ## Polls -/

/-- A job that ends leaves its outcome with the scheduler, and perhaps a report. -/
theorem Paced.endJob (s : Session) (id : JobId) (root : Path) (outcome : Except Failure (List Change)) :
    Paced s (s.endJob id root outcome) := by
  have hleave : ∀ outcome, Paced s { s with scheduler := s.scheduler.leave id outcome } :=
    fun outcome => Paced.setScheduler s (Steady.leave _ id outcome)
  unfold Session.endJob
  split
  · split
    · exact hleave _
    · exact (hleave _).trans (Paced.notice _ _)
  · exact hleave _

/-- A poll that ends answers its caller or ends its job. -/
theorem Paced.endPoll (s : Session) (id : RegistrationId) (owner : PollOwner) (outcome : Except Failure Change.Report) :
    Paced s (s.endPoll id owner outcome) := by
  unfold Session.endPoll
  cases owner with
  | caller => exact (Paced.setTable s _).trans (Paced.reply _ _)
  | job job => exact (Paced.setTable s _).trans (Paced.endJob _ _ _ _)

/-- A call of an observer is a frame of its own, and submits no polls. -/
theorem Paced.callObserver (s : Session) (h : HandleId) (root : Path) (observer : Observer) (changes : List Change) :
    Paced s (s.callObserver h root observer changes) := by
  have hrecord : ∀ u : Session, Paced u (u.record (.call observer changes)) := fun _ => Paced.of_eq rfl rfl fun _ h => h
  unfold Session.callObserver
  split
  · exact (Paced.takeScript s _).trans ((hrecord _).trans (Paced.push _ rfl))
  · exact (hrecord s).trans (Paced.push _ rfl)
  · exact Paced.notice s _

/-- A delivery calls the next observer, passes it over, or ends the poll. -/
theorem Paced.deliver (s : Session) (id : RegistrationId) (owner : PollOwner) (gate : Gate) (waiting : List HandleId)
    (report : Change.Report) : Paced s (s.deliver id owner gate waiting report) := by
  unfold Session.deliver
  split
  · exact Paced.endPoll s _ _ _
  · dsimp only
    split
    · exact Paced.endPoll s _ _ _
    · split
      · split
        · exact (Paced.push s rfl).trans (Paced.callObserver _ _ _ _ _)
        · exact Paced.push s rfl
      · exact Paced.push s rfl

theorem Paced.reportFailed (s : Session) (root : Path) (current : Option HandleId) (report : Change.Report) :
    Paced s (s.reportFailed root current report) := by
  unfold Session.reportFailed
  split
  · exact Paced.notice s _
  · exact Paced.refl s

/-- A step of a poll is paced in every stage. -/
theorem stepPoll_paced {signal : Option Signal} {id : RegistrationId} {owner : PollOwner} {gate : Gate} {stage : PollStage}
    (ht : s.stepPoll signal id owner gate stage = some t) : Paced s t := by
  unfold stepPoll at ht
  split at ht
  · cases ht
  · split at ht
    · split at ht
      · cases ht
      · cases ht
        exact (Paced.setTable s _).trans ((Paced.push _ rfl).trans (Paced.beginCapture _ _))
    · cases ht
      unfold compareCapture
      dsimp only
      split
      · exact (Paced.notice s _).trans (Paced.push _ rfl)
      · exact Paced.endPoll s _ _ _
    · cases ht
      exact Paced.endPoll s _ _ _
    · cases ht
    · split at ht
      · cases ht
        exact Paced.endPoll s _ _ _
      · cases ht
        exact (Paced.reportFailed s _ _ _).trans (Paced.deliver _ _ _ _ _ _)
    · cases ht
      exact Paced.deliver s _ _ _ _ _

/-! ## Other frames -/

/-- A script takes its next action or is over; its action is paced, whatever it is. -/
theorem stepScript_paced (s : Session) (signal : Option Signal) (waiting : List Action) (current : Option String) :
    Paced s (s.stepScript signal waiting current) := by
  have hrecord := Paced.recordReply s current signal
  unfold stepScript
  cases waiting with
  | nil => exact hrecord.trans (Paced.of_eq rfl rfl fun _ h => (nomatch h))
  | cons action waiting => exact hrecord.trans ((Paced.push _ rfl).trans (perform_paced _ action))

/-- So does an observer, which can also raise, abort or wait. -/
theorem stepObserver_paced {signal : Option Signal} {h : HandleId} {received : List Change} {waiting : List Action}
    {current : Option String} (ht : s.stepObserver signal h received waiting current = some t) : Paced s t := by
  have hrecord := Paced.recordReply s current signal
  unfold stepObserver at ht
  dsimp only at ht
  split at ht
  · cases ht
    exact hrecord.trans (Paced.of_eq rfl rfl fun _ h => (nomatch h))
  · cases ht
    exact hrecord.trans (Paced.of_eq rfl rfl fun _ h => (nomatch h))
  · cases ht
    exact hrecord.trans (Paced.of_eq rfl rfl fun _ h => (nomatch h))
  · cases ht
    exact hrecord.trans (Paced.push _ rfl)
  · exact hrecord.trans ((Paced.push _ rfl).trans (Paced.park ht))
  · cases ht
    exact hrecord.trans ((Paced.push _ rfl).trans (perform_paced _ _))

/-- A question changes nothing but a fault that has been used up. -/
theorem ask_paced {call : Call} {ready : Bool} {steps : List Action} (h : s.ask call ready = .preceded t steps) : Paced s t := by
  unfold ask at h
  split at h
  · cases h
  · cases h
  · cases h
    exact Paced.of_eq rfl rfl fun _ h => h
  · cases h

/-- A capture makes its next call, takes the steps before it, or hands over its outcome. -/
theorem stepCapture_paced (s : Session) (c : Capture) (ready : Bool) : Paced s (s.stepCapture c ready) := by
  unfold stepCapture
  split
  · exact Paced.of_eq rfl rfl fun _ h => (nomatch h)
  · split
    · exact (Paced.notices s _).trans (Paced.push _ rfl)
    · rename_i hask
      exact (ask_paced hask).trans ((Paced.push _ rfl).trans (Paced.push _ rfl))

/-- A resolution makes its next call, takes the steps before it, or is followed by what it was made for. -/
theorem stepResolution_paced (s : Session) (r : Resolution) (purpose : ResolutionPurpose) (ready : Bool) :
    Paced s (s.stepResolution r purpose ready) := by
  unfold stepResolution
  split
  · exact Paced.resolved s _ _
  · split
    · exact Paced.push s rfl
    · rename_i hask
      exact (ask_paced hask).trans ((Paced.push _ rfl).trans (Paced.push _ rfl))

/-- The look at a root is a single call. -/
theorem stepProbe_paced (s : Session) (path : Path) (observer : Observer) (label : String) (ready : Bool) :
    Paced s (s.stepProbe path observer label ready) := by
  unfold stepProbe
  split
  · exact Paced.probed s _ _ _ _
  · rename_i hask
    exact (ask_paced hask).trans ((Paced.push _ rfl).trans (Paced.push _ rfl))

/-- An attachment goes on with the capture that it waited for, or passes its failure on. -/
theorem stepAttach_paced (s : Session) (signal : Option Signal) (root : Path) (observer : Observer) (label : String)
    (purpose : AttachPurpose) : Paced s (s.stepAttach signal root observer label purpose) := by
  unfold stepAttach
  split
  · exact Paced.finishAttach s _ _ _ _ _
  · exact Paced.fail s _
  · exact Paced.done s

/-- A single capture is answered with its outcome. -/
theorem stepReport_paced (s : Session) (signal : Option Signal) : Paced s (s.stepReport signal) := by
  unfold stepReport
  split
  · exact Paced.reply s _
  · exact Paced.done s

/-- A stop lets what it waits for go on, and ends when nothing is left to wait for. -/
theorem stepStop_paced {owner : StopOwner} (ht : s.stepStop owner = some t) : Paced s t := by
  have hshut := Paced.shutPool s
  unfold stepStop at ht
  split at ht
  · cases ht
  · dsimp only at ht
    split at ht
    · cases ht
      exact hshut.trans ((Paced.push _ rfl).trans (Paced.startJob _ _))
    · split at ht
      · rename_i hunpark
        cases ht
        exact hshut.trans ((Paced.push _ rfl).trans (Paced.unpark hunpark))
      · cases ht
        exact hshut.trans (Paced.stoppedFor _ _)

/-- A release lets jobs start as long as a worker is free for one. -/
theorem stepRelease_paced (s : Session) : Paced s s.stepRelease := by
  unfold stepRelease
  split
  · exact (Paced.push s rfl).trans (Paced.startJob _ _)
  · exact Paced.reply s _

theorem Paced.endLoop (s : Session) : Paced s s.endLoop := (Paced.notice s _).trans (Paced.done _)

/-- The loop begins a round or ends. The tick of the round is not begun in this step but by the frame that it pushes. -/
theorem stepLoop_paced (s : Session) (signal : Option Signal) (rounds : List (List Action)) (stage : LoopStage) :
    Paced s (s.stepLoop signal rounds stage) := by
  unfold stepLoop
  split
  · split
    · exact Paced.fail s _
    · exact (Paced.notice s _).trans (Paced.push _ rfl)
  · exact Paced.push s rfl
  · split
    · exact Paced.endLoop s
    · exact (Paced.push s rfl).trans (Paced.push _ rfl)
  · split
    · exact Paced.endLoop s
    · split
      · exact Paced.endLoop s
      · exact (Paced.push s rfl).trans (Paced.push _ rfl)

/-- A step that is not one of a tick begins and ends no tick. -/
theorem step_paced {frame : Frame} {below : List Frame} (hstack : s.stack = frame :: below)
    (hframe : ∀ owner stage, frame ≠ .ticking owner stage) (ht : s.step = some t) : Paced (s.popped below) t := by
  unfold step at ht
  rw [hstack] at ht
  dsimp only at ht
  split at ht
  · cases ht
    exact stepScript_paced _ _ _ _
  · exact stepObserver_paced ht
  · cases ht
    exact stepCapture_paced _ _ _
  · cases ht
    exact stepResolution_paced _ _ _ _
  · cases ht
    exact stepProbe_paced _ _ _ _ _
  · cases ht
    exact stepAttach_paced _ _ _ _ _ _
  · exact stepPoll_paced ht
  · exact absurd rfl (hframe _ _)
  · cases ht
    exact stepLoop_paced _ _ _ _
  · exact stepStop_paced ht
  · cases ht
    exact stepRelease_paced _
  · cases ht
    exact stepReport_paced _ _

end Session

end DirWatch
