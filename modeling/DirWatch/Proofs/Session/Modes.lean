import DirWatch.Proofs.Session.Jobs
import DirWatch.Proofs.Session.Moves

/-!
# The mode of a session

The mode of a session is what its lifecycle turns on: whether the scheduler has been told to stop, the state of the
watcher, and whether a stop has been made to fail. Only a few actions steer it (`Action.steers`). `Begins s action u`
says that an action begins in the next move of a session, from outside, from a script or from the call of an observer,
and every step begins such an action or leaves the mode alone (`step_mode`).
-/

namespace DirWatch

/-- The actions that start, stop or close, and those that make a stop fail. -/
def Action.steers : Action → Bool
  | .start | .enter | .close | .exit | .stopScheduler | .disable .stop _ => true
  | _ => false

/-- What only an observer does, and does by itself. -/
def Action.isOwn : Action → Bool
  | .raise | .abort | .park | .clearChanges => true
  | _ => false

namespace Session

/-- What the lifecycle of a session turns on. -/
structure Mode where
  /-- Whether the scheduler has been told to stop. -/
  isStopped : Bool
  state : WatcherState
  /-- The failures that a stop is still to have. -/
  failing : Option (Option Nat)

def mode (s : Session) : Mode where
  isStopped := s.scheduler.isStopped
  state := s.watcher.state
  failing := s.disabled.lookup .stop

variable {s t u : Session} {action : Action} {signal : Option Signal}

/-! ## Parts that leave the mode alone -/

/-- Notices are for the log only. -/
@[simp] theorem mode_notices (s : Session) (ns : List Notice) : (s.notices ns).mode = s.mode := by
  induction ns generalizing s with
  | nil => rfl
  | cons n ns ih => exact ih (s.notice n)

/-- Keeping the answer of an action in the trace steers nothing. -/
@[simp] theorem mode_recordReply (s : Session) (current : Option String) (signal : Option Signal) :
    (s.recordReply current signal).mode = s.mode := by
  unfold recordReply
  split <;> rfl

/-- A script taken from those to come leaves the mode alone. -/
@[simp] theorem mode_takeScript (s : Session) (name : String) : (s.takeScript name).2.mode = s.mode := by
  unfold takeScript
  split <;> rfl

/-- The failures of another operation do not matter. -/
theorem mode_setDisabled (s : Session) {operation : Operation} (h : Operation.stop ≠ operation) (times : Option Nat) :
    { s with disabled := (operation, times) :: s.disabled.filter (·.1 != operation) }.mode = s.mode := by
  have hsame : ((operation, times) :: s.disabled.filter (·.1 != operation)).lookup .stop = s.disabled.lookup .stop := by
    rw [List.lookup_cons, beq_eq_false_iff_ne.mpr h]
    exact lookup_filter_ne h _
  unfold mode
  rw [hsame]

/-- A failure used up by another operation leaves those of a stop as they were. -/
theorem mode_takeDisabled (s : Session) (operation : Operation) (h : Operation.stop ≠ operation) :
    (s.takeDisabled operation).2.mode = s.mode := by
  unfold takeDisabled
  split
  · rfl
  · rfl
  · rfl
  · exact mode_setDisabled s h _

/-- To cancel a handle is to change the table, not the lifecycle. -/
@[simp] theorem mode_cancelHandle (s : Session) (h : HandleId) : (s.cancelHandle h).mode = s.mode := by
  unfold cancelHandle
  dsimp only
  split
  · rfl
  · rfl
  · exact mode_notices _ _

/-- The same for a list of handles, by induction on it. -/
@[simp] theorem mode_cancelHandles (s : Session) (hs : List HandleId) : (s.cancelHandles hs).mode = s.mode := by
  unfold cancelHandles
  induction hs generalizing s with
  | nil => rfl
  | cons h hs ih => exact (ih (s.cancelHandle h)).trans (mode_cancelHandle s h)

/-- An attachment to a root already watched, also one taken back since the watcher has closed. -/
@[simp] theorem mode_join (s : Session) (id : RegistrationId) (root : Path) (observer : Observer) (label : String)
    (purpose : AttachPurpose) : (s.join id root observer label purpose).mode = s.mode := by
  unfold Session.join
  dsimp only
  split
  · rfl
  · split
    · rfl
    · exact mode_cancelHandle _ _

/-- An attachment leaves the mode alone as far as it goes before the capture of the baseline, or to its end if it needs
none. -/
@[simp] theorem mode_beginAttach (s : Session) (root : Path) (observer : Observer) (label : String)
    (purpose : AttachPurpose) : (s.beginAttach root observer label purpose).mode = s.mode := by
  unfold beginAttach
  split
  · exact mode_join s _ _ _ _ _
  · rfl

/-- So does the rest of it, whatever the capture found. -/
@[simp] theorem mode_finishAttach (s : Session) (root : Path) (observer : Observer) (label : String)
    (purpose : AttachPurpose) (baseline : Snapshot) :
    (s.finishAttach root observer label purpose baseline).mode = s.mode := by
  unfold finishAttach
  split <;> exact mode_join _ _ _ _ _ _

/-- A request to watch leaves the mode alone, also where it is refused at once. -/
@[simp] theorem mode_beginWatch (s : Session) (root : RootArgument) (observer : Observer) (label : String) :
    (s.beginWatch root observer label).mode = s.mode := by
  unfold beginWatch
  split
  · rfl
  · split
    · rfl
    · split
      · rfl
      · split <;> rfl

/-- A request to unwatch, like one to watch, at most opens a resolution. -/
@[simp] theorem mode_beginUnwatch (s : Session) (root : RootArgument) (observer : Observer) :
    (s.beginUnwatch root observer).mode = s.mode := by
  unfold beginUnwatch
  split
  · rfl
  · split <;> rfl

/-- Asking for the number of observers leaves the mode alone. -/
@[simp] theorem mode_beginCount (s : Session) (root : RootArgument) : (s.beginCount root).mode = s.mode := by
  unfold beginCount
  split <;> rfl

/-- Whatever the request asked for, its root being resolved does not steer. -/
@[simp] theorem mode_resolved (s : Session) (purpose : ResolutionPurpose) (outcome : Except ResolutionError Path) :
    (s.resolved purpose outcome).mode = s.mode := by
  unfold resolved
  split
  · rfl
  · rfl
  · rfl
  · exact mode_cancelHandles s _
  · rfl
  · rfl

/-- Nor does the answer on what stands at the root. -/
@[simp] theorem mode_probed (s : Session) (path : Path) (observer : Observer) (label : String)
    (r : Except CallError Info) : (s.probed path observer label r).mode = s.mode := by
  unfold probed
  split
  · split
    · exact mode_beginAttach s _ _ _ _
    · rfl
  · split <;> rfl
  · rfl
  · rfl

/-- A scheduler that starts only gets its thread; the order to stop is kept apart from it. -/
@[simp] theorem mode_startScheduler (s : Session) : s.startScheduler.mode = s.mode := by
  unfold startScheduler
  split <;> rfl

/-- The last part of a close empties the table or says that it could not; the state was set by the first. -/
@[simp] theorem mode_finishClose (s : Session) : s.finishClose.mode = s.mode := by
  have htake := mode_takeDisabled s .clear (fun h => nomatch h)
  unfold finishClose
  dsimp only
  split <;> exact htake

/-- A stop that returns has told the scheduler so at its beginning. -/
@[simp] theorem mode_stopped (s : Session) (owner : StopOwner) : (s.stopped owner).mode = s.mode := by
  cases owner with
  | caller => rfl
  | closing => exact mode_finishClose s

/-- A job that starts leaves the mode alone. -/
@[simp] theorem mode_startJob (s : Session) (id : JobId) : (s.startJob id).mode = s.mode := by
  unfold startJob
  split <;> rfl

/-- Frames that move between the stack and what is parked do not matter. -/
theorem mode_unpark? (h : s.unpark? = some t) : t.mode = s.mode := by
  obtain ⟨above, rest, -, rfl⟩ := unpark?_eq h
  rfl

/-- A call that parks keeps its frames for later and leaves the mode alone. -/
theorem mode_park (h : s.park = some t) : t.mode = s.mode := by
  obtain ⟨above, below, -, -, rfl⟩ := park_eq h
  rfl

/-- A release takes up a parked call, or finds none. -/
@[simp] theorem mode_beginRelease (s : Session) : s.beginRelease.mode = s.mode := by
  unfold beginRelease
  split
  · rename_i hunpark
    exact (mode_unpark? hunpark).trans rfl
  · rfl

/-- The tree of files has no part in the lifecycle. -/
@[simp] theorem mode_changeTree (s : Session) (r : Except OsError Disk) : (s.changeTree r).mode = s.mode := by
  unfold changeTree
  split <;> rfl

/-- An action on a labelled handle leaves the mode alone if what it does with the handle does. -/
theorem mode_withHandle {label : String} {f : HandleId → Handle → Registration → Session}
    (h : ∀ k handle r, (f k handle r).mode = s.mode) : (s.withHandle label f).mode = s.mode := by
  unfold withHandle
  split
  · rfl
  · exact h _ _ _

/-! ## Starting, stopping and closing -/

/-- Only a watcher that was just created is started. -/
theorem mode_start (s : Session) (answer : Answer) :
    (s.start answer).mode = if s.watcher.state = .created then { s.mode with state := .running } else s.mode := by
  unfold Session.start
  split
  · rename_i hstate
    rw [if_neg (by rw [hstate]; exact fun h => nomatch h)]
    rfl
  · rename_i hstate
    rw [if_neg (by rw [hstate]; exact fun h => nomatch h)]
    rfl
  · rename_i hstate
    rw [if_pos hstate]
    exact congrArg (fun m : Mode => { m with state := .running }) (mode_startScheduler s)

/-- A stop tells the scheduler, whoever waits for it. -/
theorem mode_beginStop (s : Session) (owner : StopOwner) : (s.beginStop owner).mode = { s.mode with isStopped := true } := by
  unfold beginStop
  dsimp only
  split
  · exact mode_stopped _ _
  · rfl

/-- An operation that was not made to fail does not fail. -/
theorem takeDisabled_none {operation : Operation} (h : s.disabled.lookup operation = none) :
    s.takeDisabled operation = (false, s) := by
  unfold takeDisabled
  rw [h]

/-- The first close tells the scheduler to stop. -/
theorem mode_beginClose_open (hstop : s.disabled.lookup .stop = none) (hopen : s.watcher.state ≠ .closed) :
    s.beginClose.mode = { isStopped := true, state := .closed, failing := none } := by
  have htake : { s with watcher := { s.watcher with state := .closed } }.takeDisabled .stop =
      (false, { s with watcher := { s.watcher with state := .closed } }) := takeDisabled_none hstop
  unfold beginClose
  rw [if_neg hopen]
  dsimp only
  rw [htake]
  refine (mode_beginStop _ .closing).trans ?_
  unfold mode
  rw [hstop]

/-- A later one tells it again, unless it comes from inside a poll. -/
theorem mode_beginClose_closed (hstop : s.disabled.lookup .stop = none) (hclosed : s.watcher.state = .closed) :
    s.beginClose.mode = { s.mode with isStopped := s.mode.isStopped || !s.inDispatch } := by
  unfold beginClose
  rw [if_pos hclosed, takeDisabled_none hstop]
  cases s.inDispatch with
  | true =>
    rw [if_pos rfl, Bool.not_true, Bool.or_false]
    rfl
  | false =>
    rw [if_neg Bool.false_ne_true, Bool.not_false, Bool.or_true]
    exact mode_beginStop s .caller

/-! ## Actions and steps -/

/-- Beginning an action that does not steer leaves the mode alone. -/
theorem perform_mode (s : Session) (h : action.steers = false) : (s.perform action).mode = s.mode := by
  unfold perform
  cases action with
  | put path node => exact mode_changeTree s _
  | remove path => exact mode_changeTree s _
  | touch path mtime => exact mode_changeTree s _
  | watch root observer label => exact mode_beginWatch s _ _ _
  | unwatch root observer => exact mode_beginUnwatch s _ _
  | pollNow =>
    dsimp only
    split <;> rfl
  | observerCount root => exact mode_beginCount s _
  | attach root observer label => exact mode_beginAttach s _ _ _ _
  | detach root observer => exact mode_cancelHandles s _
  | clear =>
    have htake := mode_takeDisabled s .clear (fun h => nomatch h)
    dsimp only
    split <;> exact htake
  | cancel label => exact mode_withHandle fun k _ _ => mode_cancelHandle s k
  | handle label => exact mode_withHandle fun _ _ _ => rfl
  | sameRegistration label other => exact mode_withHandle fun _ _ _ => mode_withHandle fun _ _ _ => rfl
  | baseline label => exact mode_withHandle fun _ _ _ => rfl
  | poll label gate => exact mode_withHandle fun _ _ _ => rfl
  | startScheduler => exact mode_startScheduler s
  | release => exact mode_beginRelease s
  | disable operation times =>
    have hne : Operation.stop ≠ operation := by
      rintro rfl
      cases h
    exact mode_setDisabled s hne times
  | start | enter | close | exit | stopScheduler => cases h
  | _ => rfl

/-- A session just before an action begins: from outside, or as the next one of a script or of the call of an observer. -/
inductive Begins (s : Session) : Action → Session → Prop
  | outside {action : Action} (hrest : s.step = none) : Begins s action { s with signal := none }
  | script {action : Action} {waiting current below} (hstack : s.stack = .script (action :: waiting) current :: below) :
      Begins s action (((s.popped below).recordReply current s.signal).push (.script waiting (some action.name)))
  | observer {action : Action} {h received waiting current below}
      (hstack : s.stack = .observing h received (action :: waiting) current :: below) (hown : action.isOwn = false) :
      Begins s action (((s.popped below).recordReply current s.signal).push
        (.observing h received waiting (some action.name)))

/-- A session about to begin an action is the one before it, but for what concerns the caller. -/
structure Prepared (s u : Session) : Prop where
  table : u.table = s.table
  scheduler : u.scheduler = s.scheduler
  watcher : u.watcher = s.watcher
  disabled : u.disabled = s.disabled
  parked : u.parked = s.parked
  homes : u.homes = s.homes

/-- Keeping the last answer and moving on the frame of the caller is all that comes before an action. -/
theorem prepared_recordReply (s : Session) (below : List Frame) (current : Option String) (f : Frame) :
    Prepared s (((s.popped below).recordReply current s.signal).push f) := by
  unfold recordReply
  split <;> exact ⟨rfl, rfl, rfl, rfl, rfl, rfl⟩

/-- Wherever an action begins, the session is ready for it. -/
theorem Begins.prepared (h : Begins s action u) : Prepared s u := by
  cases h with
  | outside _ => exact ⟨rfl, rfl, rfl, rfl, rfl, rfl⟩
  | script _ => exact prepared_recordReply s _ _ _
  | observer _ _ => exact prepared_recordReply s _ _ _

/-- An action begins in the mode of the session before it. -/
theorem Prepared.mode (h : Prepared s u) : u.mode = s.mode := by
  unfold Session.mode
  rw [h.scheduler, h.watcher, h.disabled]

/-- The frames of the caller are those of the session, with its own one moved on. -/
theorem Begins.jobs (h : Begins s action u) : u.stack.filterMap jobOf? = s.stack.filterMap jobOf? := by
  have hstack : ∀ {below : List Frame} {current : Option String} {f : Frame},
      (((s.popped below).recordReply current s.signal).push f).stack = f :: below := by
    intro below current f
    unfold recordReply
    split <;> rfl
  cases h with
  | outside _ => rfl
  | script htop | observer htop _ =>
    rw [hstack, htop]
    rfl

/-- An action that begins is the next move. -/
theorem Begins.move (h : Begins s action u) : Move s (u.perform action) := by
  cases h with
  | outside hrest => exact Move.act action hrest
  | script hstack =>
    refine Move.step ?_
    unfold step
    rw [hstack]
    rfl
  | observer hstack hown =>
    refine Move.step ?_
    unfold step
    rw [hstack]
    cases action with
    | raise | abort | park | clearChanges => cases hown
    | _ => rfl

/-- A script ends in the mode it finds, or begins its next action. -/
theorem stepScript_mode {waiting : List Action} {current : Option String} {below : List Frame}
    (hstack : s.stack = .script waiting current :: below) :
    ((s.popped below).stepScript s.signal waiting current).mode = s.mode ∨
      ∃ action u, Begins s action u ∧ (s.popped below).stepScript s.signal waiting current = u.perform action := by
  cases waiting with
  | nil => exact Or.inl (mode_recordReply _ _ _)
  | cons action waiting => exact Or.inr ⟨action, _, Begins.script hstack, rfl⟩

/-- The call of an observer leaves the mode alone where it returns, raises, empties its list of changes or parks;
otherwise it begins its next action. -/
theorem stepObserver_mode {h : HandleId} {received : List Change} {waiting : List Action} {current : Option String}
    {below : List Frame} (hstack : s.stack = .observing h received waiting current :: below)
    (ht : (s.popped below).stepObserver s.signal h received waiting current = some t) :
    t.mode = s.mode ∨ ∃ action u, Begins s action u ∧ t = u.perform action := by
  have hrecord : ((s.popped below).recordReply current s.signal).mode = s.mode := mode_recordReply _ _ _
  unfold stepObserver at ht
  dsimp only at ht
  split at ht
  · cases ht
    exact Or.inl hrecord
  · cases ht
    exact Or.inl hrecord
  · cases ht
    exact Or.inl hrecord
  · cases ht
    exact Or.inl hrecord
  · exact Or.inl ((mode_park ht).trans hrecord)
  · rename_i action waiting hraise habort hclear hpark
    cases ht
    refine Or.inr ⟨action, _, Begins.observer hstack ?_, rfl⟩
    cases action with
    | raise => exact absurd rfl hraise
    | abort => exact absurd rfl habort
    | clearChanges => exact absurd rfl hclear
    | park => exact absurd rfl hpark
    | _ => rfl

/-- The question of a call may put other actions first, but leaves the mode alone itself. -/
theorem mode_ask {call : Call} {ready : Bool} {steps : List Action} (h : s.ask call ready = .preceded t steps) :
    t.mode = s.mode := by
  obtain ⟨-, -, rfl⟩ := ask_preceded h
  rfl

/-- A step of a capture leaves the mode alone. -/
theorem stepCapture_mode (s : Session) (c : Capture) (ready : Bool) : (s.stepCapture c ready).mode = s.mode := by
  unfold stepCapture
  split
  · rfl
  · rename_i call resume _
    split
    · rename_i r _
      exact mode_notices s (resume r).2
    · rename_i hask
      exact (mode_ask hask).trans rfl

/-- So does a step of a resolution, whatever it is for. -/
theorem stepResolution_mode (s : Session) (r : Resolution) (purpose : ResolutionPurpose) (ready : Bool) :
    (s.stepResolution r purpose ready).mode = s.mode := by
  unfold stepResolution
  split
  · exact mode_resolved s _ _
  · split
    · rfl
    · rename_i hask
      exact (mode_ask hask).trans rfl

/-- So does the look at the root that follows it. -/
theorem stepProbe_mode (s : Session) (path : Path) (observer : Observer) (label : String) (ready : Bool) :
    (s.stepProbe path observer label ready).mode = s.mode := by
  unfold stepProbe
  split
  · exact mode_probed s _ _ _ _
  · rename_i hask
    exact (mode_ask hask).trans rfl

/-- An attachment goes on once its baseline is there. -/
theorem stepAttach_mode (s : Session) (signal : Option Signal) (root : Path) (observer : Observer) (label : String)
    (purpose : AttachPurpose) : (s.stepAttach signal root observer label purpose).mode = s.mode := by
  unfold stepAttach
  split
  · exact mode_finishAttach s _ _ _ _ _
  · rfl
  · rfl

/-- The end of a poll settles its job or answers its caller. -/
@[simp] theorem mode_endPoll (s : Session) (id : RegistrationId) (owner : PollOwner)
    (outcome : Except Failure Change.Report) : (s.endPoll id owner outcome).mode = s.mode := by
  unfold endPoll
  cases owner with
  | caller => rfl
  | job job =>
    dsimp only
    unfold endJob
    split
    · split <;> rfl
    · rfl

/-- The call itself steers nothing; what the observer does in it comes later. -/
@[simp] theorem mode_callObserver (s : Session) (h : HandleId) (root : Path) (observer : Observer) (changes : List Change) :
    (s.callObserver h root observer changes).mode = s.mode := by
  unfold callObserver
  split
  · exact mode_takeScript s _
  · rfl
  · rfl

/-- Serving the next handle of a poll leaves the mode alone. -/
@[simp] theorem mode_deliver (s : Session) (id : RegistrationId) (owner : PollOwner) (gate : Gate) (waiting : List HandleId)
    (report : Change.Report) : (s.deliver id owner gate waiting report).mode = s.mode := by
  unfold deliver
  split
  · exact mode_endPoll s _ _ _
  · dsimp only
    split
    · exact mode_endPoll s _ _ _
    · split
      · split
        · exact mode_callObserver _ _ _ _ _
        · rfl
      · rfl

/-- A failed observer is noted in the log. -/
@[simp] theorem mode_reportFailed (s : Session) (root : Path) (current : Option HandleId) (report : Change.Report) :
    (s.reportFailed root current report).mode = s.mode := by
  unfold reportFailed
  split <;> rfl

/-- A poll leaves the mode alone in every stage. -/
theorem stepPoll_mode {id : RegistrationId} {owner : PollOwner} {gate : Gate} {stage : PollStage}
    (ht : s.stepPoll signal id owner gate stage = some t) : t.mode = s.mode := by
  unfold stepPoll at ht
  split at ht
  · cases ht
  · split at ht
    · split at ht <;> cases ht
      rfl
    · cases ht
      unfold compareCapture
      dsimp only
      split
      · rfl
      · exact mode_endPoll s _ _ _
    · cases ht
      exact mode_endPoll s _ _ _
    · cases ht
    · split at ht <;> cases ht
      · exact mode_endPoll s _ _ _
      · exact (mode_deliver _ _ _ _ _ _).trans (mode_reportFailed s _ _ _)
    · cases ht
      exact mode_deliver s _ _ _ _ _

/-- The end of a tick hands its result to whoever asked for it. -/
@[simp] theorem mode_endTick (s : Session) (owner : TickOwner) (r : Except Failure (List (Path × List Change))) :
    (s.endTick owner r).mode = s.mode := by
  cases owner <;> rfl

/-- A tick that has submitted its polls leaves the mode alone. -/
@[simp] theorem mode_completeTick (s : Session) (owner : TickOwner) (all : Nat) (submitted : List JobId) :
    (s.completeTick owner all submitted).mode = s.mode := by
  unfold completeTick
  split
  · exact mode_endTick s _ _
  · dsimp only
    split <;> exact mode_endTick _ _ _

/-- So does one that begins. -/
@[simp] theorem mode_enterTick (s : Session) (owner : TickOwner) : (s.enterTick owner).mode = s.mode := by
  have htake := mode_takeDisabled s .registrations (fun h => nomatch h)
  unfold enterTick
  split
  · exact mode_endTick s _ _
  · dsimp only
    split
    · exact (mode_endTick _ _ _).trans htake
    · split
      · exact (mode_endTick _ _ _).trans htake
      · exact htake

/-- A tick leaves the mode alone in every stage. -/
theorem stepTick_mode {owner : TickOwner} {stage : TickStage} (ht : s.stepTick owner stage = some t) : t.mode = s.mode := by
  unfold stepTick at ht
  split at ht
  · split at ht <;> cases ht
    exact mode_enterTick _ owner
  · split at ht
    · cases ht
      exact mode_startJob _ _
    · cases ht
      exact mode_completeTick s _ _ _
    · split at ht
      · cases ht
        rfl
      · split at ht <;> cases ht
        · exact mode_endTick s _ _
        · rfl

/-- The loop reads the order to stop and never gives it. -/
theorem stepLoop_mode (s : Session) (signal : Option Signal) (rounds : List (List Action)) (stage : LoopStage) :
    (s.stepLoop signal rounds stage).mode = s.mode := by
  unfold stepLoop
  split
  · split <;> rfl
  · rfl
  · split <;> rfl
  · split
    · rfl
    · split <;> rfl

/-- A stop steers where it begins; its later steps only see the pool empty. -/
theorem stepStop_mode {owner : StopOwner} (ht : s.stepStop owner = some t) : t.mode = s.mode := by
  unfold stepStop at ht
  split at ht
  · cases ht
  · dsimp only at ht
    split at ht
    · cases ht
      exact mode_startJob _ _
    · split at ht <;> cases ht
      · rename_i hunpark
        exact (mode_unpark? hunpark).trans rfl
      · exact mode_stopped _ _

/-- A step leaves the mode alone, or it begins an action. -/
theorem step_mode (ht : s.step = some t) : t.mode = s.mode ∨ ∃ action u, Begins s action u ∧ t = u.perform action := by
  unfold step at ht
  split at ht
  · cases ht
  · rename_i frame below hstack
    dsimp only at ht
    split at ht
    · cases ht
      exact stepScript_mode hstack
    · exact stepObserver_mode hstack ht
    · cases ht
      exact Or.inl (stepCapture_mode _ _ _)
    · cases ht
      exact Or.inl (stepResolution_mode _ _ _ _)
    · cases ht
      exact Or.inl (stepProbe_mode _ _ _ _ _)
    · cases ht
      exact Or.inl (stepAttach_mode _ _ _ _ _ _)
    · exact Or.inl ((stepPoll_mode ht).trans rfl)
    · exact Or.inl ((stepTick_mode ht).trans rfl)
    · cases ht
      exact Or.inl (stepLoop_mode _ _ _ _)
    · exact Or.inl ((stepStop_mode ht).trans rfl)
    · cases ht
      unfold stepRelease
      split
      · exact Or.inl (mode_startJob _ _)
      · exact Or.inl rfl
    · cases ht
      unfold stepReport
      split <;> exact Or.inl rfl

/-! ## Runs -/

/-- The action that begins in a step is the one that was next. -/
theorem Begins.next (h : Begins s action u) : s.step = none ∨ s.nextAction? = some action := by
  cases h with
  | outside hrest => exact Or.inl hrest
  | script hstack | observer hstack _ =>
    refine Or.inr ?_
    rw [nextAction?, hstack]

/-- What every allowed action keeps of the mode, a run keeps. -/
theorem Run.keeps_mode {allowed : Action → Prop} {log : List (RegistrationId × List Change)} {P : Mode → Prop}
    (h : Run allowed s log t)
    (hperform : ∀ {u : Session} {action : Action}, P u.mode → allowed action → P (u.perform action).mode) (hs : P s.mode) :
    P t.mode := by
  induction h with
  | refl => exact hs
  | @act log t action _ _ ha ih => exact hperform (u := { t with signal := none }) ih ha
  | @step log t u _ hstep ha ih =>
    rcases step_mode hstep with heq | ⟨action, v, hb, rfl⟩
    · rwa [heq]
    · refine hperform (hb.prepared.mode ▸ ih) (ha action (hb.next.resolve_left ?_))
      rw [hstep]
      exact Option.some_ne_none _

/-- A session is made with a scheduler that goes on, and nothing in it is made to fail. -/
theorem Opens.mode {w : World} (h : Opens w s) : s.mode = { isStopped := false, state := s.watcher.state, failing := none } := by
  have hstopped : s.scheduler.isStopped = false := by
    obtain ⟨name, interval, workers, isStarted, -, hsame⟩ := h.scheduler
    rw [hsame]
  have hcreated : ∀ {args : WatcherArguments} {made : Session}, create w args = .ok made → made.mode.failing = none := by
    intro args made hmade
    unfold create at hmade
    obtain ⟨_, -, hmade⟩ := ok_of_bind hmade
    obtain ⟨_, -, hmade⟩ := ok_of_bind hmade
    obtain ⟨_, -, hmade⟩ := ok_of_bind hmade
    obtain ⟨_, -, hmade⟩ := ok_of_bind hmade
    cases hmade
    rfl
  have hfailing : s.mode.failing = none := by
    cases h with
    | watcher h => exact hcreated h
    | running h =>
      obtain ⟨made, hmade, rfl⟩ := Capture.ok_of_map h
      change (made.start .nothing).mode.failing = none
      rw [mode_start]
      split <;> exact hcreated hmade
    | table h =>
      obtain ⟨made, -, rfl⟩ := Capture.ok_of_map h
      rfl
  unfold Session.mode
  rw [hstopped]
  exact congrArg (Mode.mk false s.watcher.state) hfailing

end Session

end DirWatch
