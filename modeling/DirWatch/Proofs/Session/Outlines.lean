import DirWatch.Proofs.Listing
import DirWatch.Proofs.Session.Frames

/-!
# The outline of a session

The outline of a session is what is under way for observers, and what the scheduler knows of its jobs: the calls of
observers and the polls among the frames, on the stack and parked, and the books of the scheduler. Nearly everything
that a session does leaves its outline alone. `Shift` lists what a step can do to it that is no step of a poll, and
`perform_shift` and `step_shift` say that nothing else happens.
-/

namespace DirWatch

/-- What a scheduler knows of its jobs. -/
structure Books where
  jobs : Array Job
  queue : List JobId
  inFlight : List (RegistrationId × JobId)
  dispatching : List JobId

namespace Books

/-- Forgets the jobs that have finished. -/
def prune (b : Books) : Books :=
  { b with inFlight := b.inFlight.filter fun entry => !(b.jobs[entry.2]?.elim true Job.isFinished) }

/-- Enters a job that waits for a worker. -/
def submit (b : Books) (registration : RegistrationId) : Books :=
  { b with
      jobs := b.jobs.push { registration }
      queue := b.queue ++ [b.jobs.size]
      inFlight := b.inFlight ++ [(registration, b.jobs.size)] }

/-- Enters the start of the job that comes first. -/
def start (b : Books) (id : JobId) : Books :=
  { b with
      jobs := b.jobs.modify id fun j => { j with status := .running }
      queue := b.queue.tail
      dispatching := b.dispatching ++ [id] }

/-- Enters the end of a job. -/
def finish (b : Books) (id : JobId) (outcome : Except Failure (List Change)) : Books :=
  { b with
      jobs := b.jobs.modify id fun j => { j with status := .finished outcome }
      dispatching := b.dispatching.filter (· != id) }

end Books

namespace Scheduler

/-- The books of a scheduler. -/
def books (s : Scheduler) : Books :=
  { jobs := s.pool.jobs, queue := s.pool.queue, inFlight := s.inFlight, dispatching := s.dispatching }

/-- Pruning strikes the jobs that have finished from the books. -/
@[simp] theorem books_prune (s : Scheduler) : s.prune.books = s.books.prune := by
  have hfinished : ∀ id, s.pool.isFinished id = (s.pool.jobs[id]?).elim true Job.isFinished := by
    intro id
    unfold Pool.isFinished
    cases s.pool.jobs[id]? <;> rfl
  simp only [books, prune, Books.prune, hfinished]

/-- A submission is entered as a job that waits. -/
@[simp] theorem books_submit (s : Scheduler) (id : RegistrationId) : (s.submit id).1.books = s.books.submit id := rfl

/-- The start of a job is entered. -/
@[simp] theorem books_enter (s : Scheduler) (id : JobId) : (s.enter id).books = s.books.start id := rfl

/-- The end of a job is entered with its outcome. -/
@[simp] theorem books_leave (s : Scheduler) (id : JobId) (outcome : Except Failure (List Change)) :
    (s.leave id outcome).books = s.books.finish id outcome := rfl

/-- The job that a free worker takes next is the first of the queue. -/
theorem head?_of_ready? {p : Pool} {id : JobId} (h : p.ready? = some id) : p.queue.head? = some id := by
  unfold Pool.ready? at h
  split at h
  · exact h
  · cases h

end Scheduler

namespace Session

/-- What is under way for an observer. -/
inductive Duty where
  | call (handle : HandleId)
  | poll (registration : RegistrationId) (owner : PollOwner) (stage : PollStage)

/-- The duty of a frame. A poll that its caller has only begun is none yet. -/
def dutyOf? : Frame → Option Duty
  | .observing h _ _ _ => some (.call h)
  | .polling _ .caller _ .entering => none
  | .polling id owner _ stage => some (.poll id owner stage)
  | _ => none

/-- What counts of a session when observers are called. -/
structure Outline where
  /-- The duties on the stack. -/
  duties : List Duty
  /-- The duties of what is parked. -/
  parked : List (List Duty)
  books : Books
  patterns : List String
  calls : List (Observer × List Change)

def outline (s : Session) : Outline where
  duties := s.stack.filterMap dutyOf?
  parked := s.parked.map (·.filterMap dutyOf?)
  books := s.scheduler.books
  patterns := s.patterns
  calls := s.calls

/-- All duties, on the stack or parked. -/
def Outline.all (o : Outline) : List Duty :=
  o.duties ++ o.parked.flatten

/-- One more duty comes first. -/
def Outline.push (o : Outline) (duty : Duty) : Outline :=
  { o with duties := duty :: o.duties }

/-- The job that a duty belongs to, if it is the poll of a job. -/
def Duty.job? : Duty → Option JobId
  | .poll _ (.job id) _ => some id
  | _ => none

/-- What happens to an outline without a step of a poll. -/
inductive Shift (o : Outline) : Outline → Prop
  | same : Shift o o
  /-- The duties down to the poll of a job are parked. -/
  | parks {above below first last} (h : o.duties = above ++ below) (hlast : above = first ++ [last])
      (hjob : last.job?.isSome) : Shift o { o with duties := below, parked := o.parked ++ [above] }
  /-- What is parked longest goes on. -/
  | unparks {above rest} (h : o.parked = above :: rest) : Shift o { o with duties := above ++ o.duties, parked := rest }
  /-- The call of an observer ends. -/
  | returns {h below} (hduties : o.duties = .call h :: below) : Shift o { o with duties := below }
  | prunes : Shift o { o with books := o.books.prune }
  /-- A job is submitted for a registration that is not busy. -/
  | submits {id} (hfree : ∀ entry ∈ o.books.inFlight, entry.1 ≠ id) : Shift o { o with books := o.books.submit id }
  /-- The job that has waited longest starts its poll. -/
  | starts {id job} (hqueue : o.books.queue.head? = some id) (hjob : o.books.jobs[id]? = some job) :
      Shift o ({ o with books := o.books.start id }.push (.poll job.registration (.job id) .entering))

variable {s t : Session}

/-- The duties are those of the frames. -/
theorem outline_all (s : Session) : s.outline.all = s.frames.filterMap dutyOf? := by
  rw [frames, List.filterMap_append, List.filterMap_flatten]
  rfl

/-! ## Parts that leave the outline alone -/

/-- A frame without a duty does not show. -/
theorem outline_push (s : Session) {f : Frame} (h : dutyOf? f = none) : (s.push f).outline = s.outline := by
  have hduties : (s.push f).stack.filterMap dutyOf? = s.stack.filterMap dutyOf? := List.filterMap_cons_none h
  rw [outline, hduties]
  rfl

@[simp] theorem outline_notice (s : Session) (n : Notice) : (s.notice n).outline = s.outline := rfl

/-- Reports are not part of the outline. -/
@[simp] theorem outline_notices (s : Session) (ns : List Notice) : (s.notices ns).outline = s.outline := by
  induction ns generalizing s with
  | nil => rfl
  | cons n ns ih => exact ih (s.notice n)

@[simp] theorem outline_done (s : Session) : s.done.outline = s.outline := rfl

/-- Recorded answers are no calls. -/
@[simp] theorem outline_recordReply (s : Session) (current : Option String) (signal : Option Signal) :
    (s.recordReply current signal).outline = s.outline := by
  unfold recordReply
  split <;> rfl

/-- The scripts to come are not part of the outline. -/
@[simp] theorem outline_takeScript (s : Session) (name : String) : (s.takeScript name).2.outline = s.outline := by
  unfold takeScript
  split <;> rfl

/-- Nor are the failures to come. -/
@[simp] theorem outline_takeDisabled (s : Session) (operation : Operation) :
    (s.takeDisabled operation).2.outline = s.outline := by
  unfold takeDisabled
  split <;> rfl

/-- A cancellation leaves the duties of the handle as they are: a call under way goes on. -/
@[simp] theorem outline_cancelHandle (s : Session) (h : HandleId) : (s.cancelHandle h).outline = s.outline := by
  unfold cancelHandle
  dsimp only
  split
  · rfl
  · rfl
  · exact outline_notices _ _

/-- So do many cancellations. -/
@[simp] theorem outline_cancelHandles (s : Session) (hs : List HandleId) : (s.cancelHandles hs).outline = s.outline := by
  unfold cancelHandles
  induction hs generalizing s with
  | nil => rfl
  | cons h hs ih => exact (ih (s.cancelHandle h)).trans (outline_cancelHandle s h)

/-- An observer that joins has no duty yet. -/
@[simp] theorem outline_join (s : Session) (id : RegistrationId) (root : Path) (observer : Observer) (label : String)
    (purpose : AttachPurpose) : (s.join id root observer label purpose).outline = s.outline := by
  unfold Session.join
  dsimp only
  split
  · rfl
  · split
    · rfl
    · exact outline_cancelHandle _ _

/-- Neither has one whose root is to be captured first. -/
@[simp] theorem outline_beginAttach (s : Session) (root : Path) (observer : Observer) (label : String)
    (purpose : AttachPurpose) : (s.beginAttach root observer label purpose).outline = s.outline := by
  unfold beginAttach
  split
  · exact outline_join s _ _ _ _ _
  · rfl

/-- Nor has it when the capture is there. -/
@[simp] theorem outline_finishAttach (s : Session) (root : Path) (observer : Observer) (label : String)
    (purpose : AttachPurpose) (baseline : Snapshot) :
    (s.finishAttach root observer label purpose baseline).outline = s.outline := by
  unfold finishAttach
  split
  · exact outline_join s _ _ _ _ _
  · exact outline_join _ _ _ _ _ _

/-- A request to watch puts frames on the stack that are no duties. -/
@[simp] theorem outline_beginWatch (s : Session) (root : RootArgument) (observer : Observer) (label : String) :
    (s.beginWatch root observer label).outline = s.outline := by
  unfold beginWatch
  split
  · rfl
  · split
    · rfl
    · split
      · rfl
      · split <;> rfl

/-- So does a request to unwatch. -/
@[simp] theorem outline_beginUnwatch (s : Session) (root : RootArgument) (observer : Observer) :
    (s.beginUnwatch root observer).outline = s.outline := by
  unfold beginUnwatch
  split
  · rfl
  · split <;> rfl

/-- And so does a request to count. -/
@[simp] theorem outline_beginCount (s : Session) (root : RootArgument) : (s.beginCount root).outline = s.outline := by
  unfold beginCount
  split <;> rfl

/-- Whatever a root was resolved for, no duty begins or ends. -/
@[simp] theorem outline_resolved (s : Session) (purpose : ResolutionPurpose) (outcome : Except ResolutionError Path) :
    (s.resolved purpose outcome).outline = s.outline := by
  unfold resolved
  split
  · rfl
  · rfl
  · rfl
  · exact outline_cancelHandles s _
  · rfl
  · rfl

/-- Nor does one when the root has been looked at. -/
@[simp] theorem outline_probed (s : Session) (path : Path) (observer : Observer) (label : String)
    (r : Except CallError Info) : (s.probed path observer label r).outline = s.outline := by
  unfold probed
  split
  · split
    · exact outline_beginAttach s _ _ _ _
    · rfl
  · split <;> rfl
  · rfl
  · rfl

/-- Starting the scheduler makes no entry in its books. -/
@[simp] theorem outline_startScheduler (s : Session) : s.startScheduler.outline = s.outline := by
  unfold startScheduler
  split <;> rfl

/-- Nor does starting the watcher. -/
@[simp] theorem outline_start (s : Session) (answer : Answer) : (s.start answer).outline = s.outline := by
  unfold Session.start
  split
  · rfl
  · rfl
  · exact outline_startScheduler s

@[simp] theorem outline_countTick (s : Session) : s.countTick.outline = s.outline := rfl

/-- A tick that ends is reported or answered, with no entry in the books. -/
@[simp] theorem outline_endTick (s : Session) (owner : TickOwner) (r : Except Failure (List (Path × List Change))) :
    (s.endTick owner r).outline = s.outline := by
  cases owner <;> rfl

/-- So is one whose jobs are all done: they were entered when they ended. -/
@[simp] theorem outline_completeTick (s : Session) (owner : TickOwner) (all : Nat) (submitted : List JobId) :
    (s.completeTick owner all submitted).outline = s.outline := by
  unfold completeTick
  split
  · exact outline_endTick s _ _
  · dsimp only
    split
    · exact outline_endTick _ _ _
    · exact outline_endTick _ _ _

/-- A close that clears the table leaves calls and polls under way. -/
@[simp] theorem outline_finishClose (s : Session) : s.finishClose.outline = s.outline := by
  have htake := outline_takeDisabled s .clear
  unfold finishClose
  dsimp only
  split
  · rw [outline_done, outline_notice, outline_notice]
    exact htake
  · rw [outline_done, outline_notice]
    exact htake

/-- When the scheduler has stopped, its books are as they were. -/
@[simp] theorem outline_stopped (s : Session) (owner : StopOwner) : (s.stopped owner).outline = s.outline := by
  cases owner with
  | caller => rfl
  | closing => exact outline_finishClose s

/-- A stop strikes no job from the books, not even one that waits for a worker. -/
@[simp] theorem outline_beginStop (s : Session) (owner : StopOwner) : (s.beginStop owner).outline = s.outline := by
  unfold beginStop
  dsimp only
  split
  · exact outline_stopped _ _
  · rfl

/-- So it is with a close, which begins with a stop. -/
@[simp] theorem outline_beginClose (s : Session) : s.beginClose.outline = s.outline := by
  unfold beginClose
  split
  · split
    · rfl
    · have htake := outline_takeDisabled s .stop
      dsimp only
      split
      · exact htake
      · exact (outline_beginStop _ _).trans htake
  · have htake := outline_takeDisabled { s with watcher := { s.watcher with state := .closed } } .stop
    dsimp only
    split
    · exact (outline_finishClose _).trans htake
    · exact (outline_beginStop _ _).trans htake

/-- The tree is not part of the outline. -/
@[simp] theorem outline_changeTree (s : Session) (r : Except OsError Disk) : (s.changeTree r).outline = s.outline := by
  unfold changeTree
  split <;> rfl

/-- What is done with a handle keeps the outline if it does so with every handle. -/
theorem outline_withHandle {label : String} {f : HandleId → Handle → Registration → Session}
    (h : ∀ k handle r, (f k handle r).outline = s.outline) : (s.withHandle label f).outline = s.outline := by
  unfold withHandle
  split
  · rfl
  · exact h _ _ _

/-- The report of a failed delivery is no call. -/
@[simp] theorem outline_reportFailed (s : Session) (root : Path) (current : Option HandleId) (report : Change.Report) :
    (s.reportFailed root current report).outline = s.outline := by
  unfold reportFailed
  split <;> rfl

/-! ## Actions -/

/-- What is parked longest goes on below a frame that does not show. -/
theorem unpark?_shift {f : Frame} (hf : dutyOf? f = none) (h : (s.push f).unpark? = some t) : Shift s.outline t.outline := by
  obtain ⟨above, rest, hparked, rfl⟩ := unpark?_eq h
  have hshift : Shift s.outline { s.outline with
      duties := above.filterMap dutyOf? ++ s.outline.duties, parked := rest.map (·.filterMap dutyOf?) } := by
    refine Shift.unparks ?_
    change s.parked.map _ = _
    rw [show s.parked = above :: rest from hparked, List.map_cons]
  have hduties : (above ++ f :: s.stack).filterMap dutyOf? = above.filterMap dutyOf? ++ s.outline.duties := by
    rw [List.filterMap_append, List.filterMap_cons_none hf]
    rfl
  change Shift s.outline { s.outline with
    duties := (above ++ f :: s.stack).filterMap dutyOf?, parked := rest.map (·.filterMap dutyOf?) }
  rw [hduties]
  exact hshift

theorem shift_of_eq (h : t.outline = s.outline) : Shift s.outline t.outline := by
  rw [h]
  exact Shift.same

/-- Beginning an action leaves the outline alone, unless it releases what is parked. -/
theorem perform_shift (s : Session) (action : Action) : Shift s.outline (s.perform action).outline := by
  unfold perform
  cases action with
  | put path node => exact shift_of_eq (outline_changeTree s _)
  | remove path => exact shift_of_eq (outline_changeTree s _)
  | touch path mtime => exact shift_of_eq (outline_changeTree s _)
  | start => exact shift_of_eq (outline_start s _)
  | enter => exact shift_of_eq (outline_start s _)
  | close => exact shift_of_eq (outline_beginClose s)
  | exit => exact shift_of_eq (outline_beginClose s)
  | watch root observer label => exact shift_of_eq (outline_beginWatch s _ _ _)
  | unwatch root observer => exact shift_of_eq (outline_beginUnwatch s _ _)
  | pollNow =>
    dsimp only
    split <;> exact shift_of_eq rfl
  | observerCount root => exact shift_of_eq (outline_beginCount s _)
  | attach root observer label => exact shift_of_eq (outline_beginAttach s _ _ _ _)
  | detach root observer => exact shift_of_eq (outline_cancelHandles s _)
  | clear =>
    have htake := outline_takeDisabled s .clear
    dsimp only
    split <;> exact shift_of_eq htake
  | cancel label => exact shift_of_eq (outline_withHandle fun k _ _ => outline_cancelHandle s k)
  | handle label => exact shift_of_eq (outline_withHandle fun _ _ _ => rfl)
  | sameRegistration label other =>
    exact shift_of_eq (outline_withHandle fun _ _ _ => outline_withHandle fun _ _ _ => rfl)
  | baseline label => exact shift_of_eq (outline_withHandle fun _ _ _ => rfl)
  | poll label gate => exact shift_of_eq (outline_withHandle fun _ _ _ => rfl)
  | startScheduler => exact shift_of_eq (outline_startScheduler s)
  | stopScheduler =>
    have htake := outline_takeDisabled s .stop
    dsimp only
    split
    · exact shift_of_eq htake
    · exact shift_of_eq ((outline_beginStop _ _).trans htake)
  | release =>
    dsimp only [beginRelease]
    split
    · rename_i hunpark
      exact unpark?_shift rfl hunpark
    · exact shift_of_eq rfl
  | _ => exact shift_of_eq rfl

/-! ## Steps of frames that are no polls -/

/-- To park is to move the duties of one poll aside. -/
theorem park_shift (h : t.park = some s) : Shift t.outline s.outline := by
  obtain ⟨above, below, hstack, ⟨first, f, habove, hjob⟩, rfl⟩ := park_eq h
  have hf : ∃ last : Duty, dutyOf? f = some last ∧ last.job?.isSome := by
    cases f with
    | polling id owner gate stage =>
      cases owner with
      | caller => cases hjob
      | job job => exact ⟨.poll id (.job job) stage, rfl, rfl⟩
    | _ => cases hjob
  obtain ⟨last, hlast, hjob⟩ := hf
  have habove' : above.filterMap dutyOf? = first.filterMap dutyOf? ++ [last] := by
    rw [habove, List.filterMap_append, List.filterMap_cons_some hlast, List.filterMap_nil]
  have hduties : t.outline.duties = above.filterMap dutyOf? ++ below.filterMap dutyOf? := by
    rw [outline, hstack, List.filterMap_append]
  have hshift := Shift.parks hduties habove' hjob
  have hparked : (t.parked ++ [above]).map (·.filterMap dutyOf?) = t.outline.parked ++ [above.filterMap dutyOf?] :=
    List.map_append
  change Shift t.outline { t.outline with
    duties := below.filterMap dutyOf?, parked := (t.parked ++ [above]).map (·.filterMap dutyOf?) }
  rw [hparked]
  exact hshift

/-- The frame on top goes, and it did not show. -/
theorem outline_popped {frame : Frame} {below : List Frame} (hstack : s.stack = frame :: below)
    (h : dutyOf? frame = none) : (s.popped below).outline = s.outline := by
  rw [outline, outline, hstack, List.filterMap_cons_none h]
  rfl

/-- The frame on top stands for the first duty. -/
theorem outline_popped_push {frame : Frame} {below : List Frame} (hstack : s.stack = frame :: below) {duty : Duty}
    (h : dutyOf? frame = some duty) : s.outline = (s.popped below).outline.push duty := by
  rw [outline, hstack, List.filterMap_cons_some h]
  rfl

/-- A frame that waits for the pool lets it start a job. -/
theorem startJob_shift {frame : Frame} (hframe : dutyOf? frame = none) {id : JobId}
    (hready : s.scheduler.pool.ready? = some id) : Shift s.outline ((s.push frame).startJob id).outline := by
  have hpush := outline_push s hframe
  unfold startJob
  cases hjob : (s.push frame).scheduler.pool.jobs[id]? with
  | none => exact shift_of_eq hpush
  | some job =>
    have hstarts : Shift (s.push frame).outline _ := Shift.starts (Scheduler.head?_of_ready? hready) hjob
    rw [hpush] at hstarts
    have hduties : (s.push frame).stack.filterMap dutyOf? = s.stack.filterMap dutyOf? := List.filterMap_cons_none hframe
    change Shift s.outline { s.outline with
      duties := .poll job.registration (.job id) .entering :: (s.push frame).stack.filterMap dutyOf?
      books := s.outline.books.start id }
    rw [hduties]
    exact hstarts

/-- A script moves the outline by its next action alone. -/
theorem stepScript_shift (s : Session) (signal : Option Signal) (waiting : List Action) (current : Option String) :
    Shift s.outline (s.stepScript signal waiting current).outline := by
  have hrecord := outline_recordReply s current signal
  unfold stepScript
  cases waiting with
  | nil => exact shift_of_eq hrecord
  | cons action waiting =>
    have hpush := outline_push (s.recordReply current signal) (f := .script waiting (some action.name)) rfl
    have hperform := perform_shift ((s.recordReply current signal).push (.script waiting (some action.name))) action
    rwa [hpush, hrecord] at hperform

/-- An observer goes on with its call, or returns from it. -/
theorem stepObserver_shift {h : HandleId} {received : List Change} {waiting : List Action} {current : Option String}
    {signal : Option Signal} (ht : s.stepObserver signal h received waiting current = some t) {o : Outline}
    (ho : o = s.outline.push (.call h)) : Shift o t.outline := by
  subst ho
  have hrecord := outline_recordReply s current signal
  have hback : ∀ received' waiting' current', ((s.recordReply current signal).push
      (.observing h received' waiting' current')).outline = s.outline.push (.call h) := by
    intro received' waiting' current'
    rw [← hrecord]
    rfl
  have hreturns : ∀ u : Session, u.outline = s.outline → Shift (s.outline.push (.call h)) u.outline := by
    intro u hu
    rw [hu]
    exact Shift.returns rfl
  unfold stepObserver at ht
  dsimp only at ht
  split at ht
  · cases ht
    exact hreturns _ hrecord
  · cases ht
    exact hreturns _ hrecord
  · cases ht
    exact hreturns _ hrecord
  · cases ht
    rw [hback]
    exact Shift.same
  · rw [← hback]
    exact park_shift ht
  · cases ht
    rw [← hback]
    exact perform_shift _ _

/-- A fault that is found is one of those that were set. -/
theorem mem_faults {call : Call} {fault : Fault Action} (h : s.faultOf? call = some fault) :
    ((s.disk.absoluteText call.path, call.kind), fault) ∈ s.faults :=
  Listing.mem_of_lookup h

/-- Steps come before a call if a fault says so, and the fault is taken away. -/
theorem ask_preceded {call : Call} {ready : Bool} {steps : List Action} (h : s.ask call ready = .preceded t steps) :
    ready = false ∧ s.faultOf? call = some (.precede steps) ∧
      t = s.setFault (s.disk.absoluteText call.path) call.kind none := by
  unfold ask at h
  split at h
  · cases h
  · cases h
  · rename_i hfault
    cases h
    exact ⟨rfl, hfault, rfl⟩
  · cases h

/-- An answer does not depend on what is on the stack. -/
theorem ask_popped {below : List Frame} {call : Call} {ready : Bool} {a : Except CallError call.Result}
    (h : (s.popped below).ask call ready = .answered a) : s.ask call ready = .answered a := by
  have hfault : (s.popped below).faultOf? call = s.faultOf? call := rfl
  unfold ask at h ⊢
  rw [hfault] at h
  split at h <;> first | exact h | cases h

/-- A capture has no duty, whatever it asks. -/
theorem stepCapture_outline (s : Session) (c : Capture) (ready : Bool) : (s.stepCapture c ready).outline = s.outline := by
  unfold stepCapture
  split
  · rfl
  · rename_i call resume _
    split
    · rename_i r _
      exact outline_notices s (resume r).2
    · rename_i hask
      obtain ⟨-, -, rfl⟩ := ask_preceded hask
      rfl

/-- Nor has a resolution. -/
theorem stepResolution_outline (s : Session) (r : Resolution) (purpose : ResolutionPurpose) (ready : Bool) :
    (s.stepResolution r purpose ready).outline = s.outline := by
  unfold stepResolution
  split
  · exact outline_resolved s _ _
  · split
    · rfl
    · rename_i hask
      obtain ⟨-, -, rfl⟩ := ask_preceded hask
      rfl

/-- Nor has the look at a root. -/
theorem stepProbe_outline (s : Session) (path : Path) (observer : Observer) (label : String) (ready : Bool) :
    (s.stepProbe path observer label ready).outline = s.outline := by
  unfold stepProbe
  split
  · exact outline_probed s _ _ _ _
  · rename_i hask
    obtain ⟨-, -, rfl⟩ := ask_preceded hask
    rfl

/-- Nor has an attachment, which comes to attach its observer in this step. -/
theorem stepAttach_outline (s : Session) (signal : Option Signal) (root : Path) (observer : Observer) (label : String)
    (purpose : AttachPurpose) : (s.stepAttach signal root observer label purpose).outline = s.outline := by
  unfold stepAttach
  split
  · exact outline_finishAttach s _ _ _ _ _
  · rfl
  · rfl

/-- A single capture hands over its outcome and is gone. -/
theorem stepReport_outline (s : Session) (signal : Option Signal) : (s.stepReport signal).outline = s.outline := by
  unfold stepReport
  split <;> rfl

/-- The loop has no duties of its own: it pushes a script, a tick or nothing. -/
theorem stepLoop_outline (s : Session) (signal : Option Signal) (rounds : List (List Action)) (stage : LoopStage) :
    (s.stepLoop signal rounds stage).outline = s.outline := by
  unfold stepLoop
  split
  · split <;> rfl
  · rfl
  · split <;> rfl
  · split
    · rfl
    · split <;> rfl

/-- A tick begins by forgetting the jobs that have finished. -/
theorem enterTick_shift (s : Session) (owner : TickOwner) : Shift s.outline (s.enterTick owner).outline := by
  have htake := outline_takeDisabled s .registrations
  unfold enterTick
  split
  · exact shift_of_eq (outline_endTick s _ _)
  · dsimp only
    split
    · exact shift_of_eq ((outline_endTick _ _ _).trans htake)
    · have hprune : Shift s.outline { (s.takeDisabled .registrations).2 with
          scheduler := (s.takeDisabled .registrations).2.scheduler.prune }.outline := by
        have hbooks : { (s.takeDisabled .registrations).2 with
            scheduler := (s.takeDisabled .registrations).2.scheduler.prune }.outline =
              { s.outline with books := s.outline.books.prune } := by
          rw [← htake, outline, Scheduler.books_prune]
          rfl
        rw [hbooks]
        exact Shift.prunes
      split
      · rw [outline_endTick, outline_countTick]
        exact hprune
      · rw [outline_push _ rfl]
        exact hprune

/-- A tick prunes the books as it enters, and then submits jobs or lets them start. -/
theorem stepTick_shift {owner : TickOwner} {stage : TickStage} (ht : s.stepTick owner stage = some t) :
    Shift s.outline t.outline := by
  unfold stepTick at ht
  split at ht
  · split at ht
    · cases ht
    · cases ht
      exact enterTick_shift { s with scheduler := { s.scheduler with isTicking := true } } owner
  · split at ht
    · rename_i hready
      cases ht
      exact startJob_shift rfl hready
    · cases ht
      exact shift_of_eq (outline_completeTick s _ _ _)
    · rename_i id waiting _
      split at ht
      · cases ht
        exact shift_of_eq rfl
      · rename_i hbusy
        split at ht
        · cases ht
          exact shift_of_eq (outline_endTick s _ _)
        · cases ht
          refine Shift.submits ?_
          intro entry hentry heq
          refine hbusy (List.any_eq_true.mpr ⟨entry, hentry, ?_⟩)
          rw [heq]
          exact beq_self_eq_true id

/-- A stop lets jobs start and parked polls go on. -/
theorem stepStop_shift {owner : StopOwner} (ht : s.stepStop owner = some t) : Shift s.outline t.outline := by
  unfold stepStop at ht
  split at ht
  · cases ht
  · dsimp only at ht
    split at ht
    · rename_i hready
      cases ht
      exact startJob_shift (s := s.shutPool) rfl hready
    · split at ht
      · rename_i hunpark
        cases ht
        exact unpark?_shift (s := s.shutPool) rfl hunpark
      · cases ht
        exact shift_of_eq (outline_stopped s.shutPool owner)

/-- A release lets jobs start. -/
theorem stepRelease_shift (s : Session) : Shift s.outline s.stepRelease.outline := by
  unfold stepRelease
  split
  · rename_i hready
    exact startJob_shift rfl hready
  · exact shift_of_eq rfl

/-- A step that is no step of a poll shifts the outline. -/
theorem step_shift (ht : s.step = some t)
    (hpoll : ∀ id owner gate stage below, s.stack ≠ .polling id owner gate stage :: below) : Shift s.outline t.outline := by
  unfold step at ht
  split at ht
  · cases ht
  · rename_i frame below hstack
    dsimp only at ht
    have hpopped : dutyOf? frame = none → (s.popped below).outline = s.outline := outline_popped hstack
    split at ht
    · cases ht
      rw [← hpopped rfl]
      exact stepScript_shift _ _ _ _
    · exact stepObserver_shift ht (outline_popped_push hstack rfl)
    · cases ht
      exact shift_of_eq ((stepCapture_outline _ _ _).trans (hpopped rfl))
    · cases ht
      exact shift_of_eq ((stepResolution_outline _ _ _ _).trans (hpopped rfl))
    · cases ht
      exact shift_of_eq ((stepProbe_outline _ _ _ _ _).trans (hpopped rfl))
    · cases ht
      exact shift_of_eq ((stepAttach_outline _ _ _ _ _ _).trans (hpopped rfl))
    · exact absurd hstack (hpoll _ _ _ _ _)
    · rw [← hpopped rfl]
      exact stepTick_shift ht
    · cases ht
      exact shift_of_eq ((stepLoop_outline _ _ _ _).trans (hpopped rfl))
    · rw [← hpopped rfl]
      exact stepStop_shift ht
    · cases ht
      rw [← hpopped rfl]
      exact stepRelease_shift _
    · cases ht
      exact shift_of_eq ((stepReport_outline _ _).trans (hpopped rfl))

end Session

end DirWatch
