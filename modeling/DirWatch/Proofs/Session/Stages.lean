import DirWatch.Proofs.Session.Outlines
import DirWatch.Proofs.Session.Turns

/-!
# The stages of a poll

A poll enters, captures and delivers. `PollMove` lists exactly what one step of a poll does: which handle is served and
whether its observer is called, and when the poll ends and why (`Concludes`). `stepPoll_move` says that nothing else
happens.
-/

namespace DirWatch.Session

/-- Whether a signal aborts a delivery: an observer has failed fatally. -/
def aborts : Option Signal → Bool
  | some (.raised f) => f.isFatal
  | _ => false

/-- Why a poll ends, from its stage and the signal left for it. -/
inductive Concludes (s : Session) (r : Registration) (gate : Gate) :
    PollStage → Option Signal → Except Failure Change.Report → Prop
  /-- Nothing has changed. -/
  | unchanged {captured} (h : (Snapshot.diff (some r.baseline) captured).hasChanges = false) :
      Concludes s r gate .capturing (some (.captured (.ok captured))) (.ok (Snapshot.diff (some r.baseline) captured))
  /-- The capture has failed. -/
  | uncaptured {f} : Concludes s r gate .capturing (some (.captured (.error f))) (.error f)
  /-- An observer has failed fatally. -/
  | aborted {current waiting report f} (hf : f.isFatal = true) :
      Concludes s r gate (.delivering current waiting report) (some (.raised f)) (.error f)
  /-- Every handle has had its turn. -/
  | served {current report signal} (hsignal : aborts signal = false) :
      Concludes s r gate (.delivering current [] report) signal (.ok report)
  /-- The gate is closed. -/
  | shut {current h waiting report signal} (hsignal : aborts signal = false) (hgate : (s.passGate gate).1 = false) :
      Concludes s r gate (.delivering current (h :: waiting) report) signal (.ok report)

/-- The outcome of the job of a poll. -/
def jobOutcome : Except Failure Change.Report → Except Failure (List Change)
  | .ok report => .ok report.changes
  | .error f => if f.isFatal then .error f else .ok []

/-- The books at the end of a poll. -/
def concludeBooks (b : Books) : PollOwner → Except Failure Change.Report → Books
  | .caller, _ => b
  | .job id, outcome => b.finish id (jobOutcome outcome)

/-- Exactly what one step of the poll in control does. -/
inductive PollMove (s : Session) (below : List Frame) (id : RegistrationId) (owner : PollOwner) (gate : Gate) :
    PollStage → Option Signal → Session → Prop
  /-- No other poll of the registration is under way, and the capture begins. -/
  | enters {signal t r capturedAt} (hr : s.table.registrations[id]? = some r) (hfree : r.polling = false)
      (htable : t.table = s.table.setPolling id true)
      (hstack : t.stack = .capturing { root := r.root, patterns := s.patterns, capturedAt } false ::
        .polling id owner gate .capturing :: below)
      (houtline : t.outline = (s.popped below).outline.push (.poll id owner .capturing)) :
      PollMove s below id owner gate .entering signal t
  /-- The capture differs from the baseline, and the handles attached now are to be served. -/
  | compares {r captured t} (hr : s.table.registrations[id]? = some r)
      (hchanges : (Snapshot.diff (some r.baseline) captured).hasChanges = true) (htable : t.table = s.table)
      (hstack : t.stack =
        .polling id owner gate (.delivering none r.handles (Snapshot.diff (some r.baseline) captured)) :: below)
      (houtline : t.outline = (s.popped below).outline.push
        (.poll id owner (.delivering none r.handles (Snapshot.diff (some r.baseline) captured)))) :
      PollMove s below id owner gate .capturing (some (.captured (.ok captured))) t
  /-- A handle is passed over: it is cancelled, or its observer cannot be called. -/
  | passes {current current' h waiting report signal t gate'} (hsignal : aborts signal = false)
      (hopen : (s.passGate gate).1 = true)
      (hidle : ∀ handle, s.table.handles[h]? = some handle → handle.active = true → handle.observer.isCallable = false)
      (htable : t.table = s.table)
      (hstack : t.stack = .polling id owner gate' (.delivering current' waiting report) :: below)
      (houtline : t.outline = (s.popped below).outline.push (.poll id owner (.delivering current' waiting report))) :
      PollMove s below id owner gate (.delivering current (h :: waiting) report) signal t
  /-- The observer of a handle is called. -/
  | calls {current h waiting report signal t gate' handle actions} (hsignal : aborts signal = false)
      (hopen : (s.passGate gate).1 = true) (hhandle : s.table.handles[h]? = some handle) (hactive : handle.active = true)
      (hcallable : handle.observer.isCallable = true) (htable : t.table = s.table)
      (hstack : t.stack = .observing h report.changes actions none ::
        .polling id owner gate' (.delivering (some h) waiting report) :: below)
      (houtline : t.outline = { ((s.popped below).outline.push (.poll id owner (.delivering (some h) waiting report))).push
        (.call h) with calls := (handle.observer, report.changes) :: s.calls }) :
      PollMove s below id owner gate (.delivering current (h :: waiting) report) signal t
  /-- The poll ends. -/
  | ends {stage signal outcome u r} (hr : s.table.registrations[id]? = some r) (hc : Concludes s r gate stage signal outcome)
      (hu : Calm (s.popped below) u) (houtline : u.outline = (s.popped below).outline) :
      PollMove s below id owner gate stage signal (u.endPoll id owner outcome)

variable {s t u : Session} {below : List Frame} {signal : Option Signal} {id : RegistrationId} {owner : PollOwner}
  {gate gate' : Gate}

/-! ## The end of a poll -/

/-- The end of a poll closes the books of its job. -/
theorem outline_endPoll (s : Session) (id : RegistrationId) (owner : PollOwner) (outcome : Except Failure Change.Report) :
    (s.endPoll id owner outcome).outline = { s.outline with books := concludeBooks s.outline.books owner outcome } := by
  unfold endPoll
  cases owner with
  | caller => rfl
  | job job =>
    cases outcome with
    | ok report => rfl
    | error f =>
      by_cases hfatal : f.isFatal = true
      · simp only [endJob, Except.map, hfatal, if_true, concludeBooks, jobOutcome]
        rfl
      · simp only [endJob, Except.map, hfatal, concludeBooks, jobOutcome]
        rfl

/-! ## The turn of a handle -/

/-- Reports change nothing that a gate looks at. -/
theorem passGate_congr (h : u.scheduler = s.scheduler) (gate : Gate) : u.passGate gate = s.passGate gate := by
  cases gate with
  | scheduler => rw [passGate, h, passGate]
  | counted n => cases n <;> rfl
  | free => rfl

section

variable {current current' : Option HandleId} {h : HandleId} {handle : Handle} {waiting : List HandleId} {report : Change.Report}

/-- The poll goes back on the stack with the handles that are still to be served. -/
theorem outline_serving (ho : u.outline = (s.popped below).outline) :
    (u.push (.polling id owner gate' (.delivering current waiting report))).outline =
      (s.popped below).outline.push (.poll id owner (.delivering current waiting report)) := by
  rw [← ho]
  cases owner <;> rfl

variable (hu : Calm (s.popped below) u) (ho : u.outline = (s.popped below).outline) (hsignal : aborts signal = false)
  (hopen : (s.passGate gate).1 = true)

include hu ho hsignal hopen

/-- A handle that is not called is passed over. -/
theorem pass_move
    (hidle : ∀ handle, s.table.handles[h]? = some handle → handle.active = true → handle.observer.isCallable = false) :
    PollMove s below id owner gate (.delivering current (h :: waiting) report) signal
      (u.push (.polling id owner gate' (.delivering current' waiting report))) :=
  PollMove.passes hsignal hopen hidle hu.table (congrArg (_ :: ·) hu.stack) (outline_serving ho)

/-- The observer of an active handle is called, if it can be called. -/
theorem callObserver_move (hhandle : s.table.handles[h]? = some handle) (hactive : handle.active = true) (root : Path) :
    PollMove s below id owner gate (.delivering current (h :: waiting) report) signal
      ((u.push (.polling id owner gate' (.delivering (some h) waiting report))).callObserver h root handle.observer
        report.changes) := by
  have hstack : (u.push (.polling id owner gate' (.delivering (some h) waiting report))).stack =
      .polling id owner gate' (.delivering (some h) waiting report) :: below := congrArg (_ :: ·) hu.stack
  have houtline : (u.push (.polling id owner gate' (.delivering (some h) waiting report))).outline =
      (s.popped below).outline.push (.poll id owner (.delivering (some h) waiting report)) := outline_serving ho
  generalize hv : u.push (.polling id owner gate' (.delivering (some h) waiting report)) = v at hstack houtline
  have htable : v.table = s.table := hv ▸ hu.table
  have hcalls : ∀ {v' : Session} {actions : List Action}, Calm v v' → v'.outline = v.outline →
      handle.observer.isCallable = true → PollMove s below id owner gate (.delivering current (h :: waiting) report) signal
        ((v'.record (.call handle.observer report.changes)).push (.observing h report.changes actions none)) := by
    intro v' actions hv' ho' hcallable
    refine PollMove.calls hsignal hopen hhandle hactive hcallable (hv'.table.trans htable)
      (congrArg (_ :: ·) (hv'.stack.trans hstack)) ?_
    have hbefore : v'.calls = s.calls := by
      rw [hv'.calls, ← hv]
      exact hu.calls
    rw [← houtline, ← ho', ← hbefore]
    rfl
  unfold callObserver
  split
  · rename_i hobserver
    exact hcalls (Calm.takeScript _ _) (outline_takeScript _ _) (by rw [hobserver]; rfl)
  · rename_i hobserver
    exact hcalls (Calm.refl _) rfl (by rw [hobserver]; rfl)
  · rename_i hobserver
    refine PollMove.passes hsignal hopen ?_ htable hstack houtline
    intro other hother _
    rw [hhandle] at hother
    cases hother
    rw [hobserver]
    rfl

end

/-- A delivery goes on with the next handle. -/
theorem deliver_move (hu : Calm (s.popped below) u) (ho : u.outline = (s.popped below).outline)
    (hschedule : u.scheduler = s.scheduler) {current : Option HandleId} {waiting : List HandleId} {report : Change.Report}
    {r : Registration} (hr : s.table.registrations[id]? = some r) (hsignal : aborts signal = false) :
    PollMove s below id owner gate (.delivering current waiting report) signal (u.deliver id owner gate waiting report) := by
  have htable : u.table = s.table := hu.table
  unfold deliver
  cases waiting with
  | nil => exact PollMove.ends hr (Concludes.served hsignal) hu ho
  | cons h waiting =>
    dsimp only
    rw [passGate_congr hschedule, htable]
    split
    · rename_i hshut
      exact PollMove.ends hr (Concludes.shut hsignal (by simpa using hshut)) hu ho
    · rename_i hopen
      have hopen : (s.passGate gate).1 = true := by simpa using hopen
      split
      · rename_i handle r' hhandle _
        split
        · rename_i hactive
          exact callObserver_move hu ho hsignal hopen hhandle hactive r'.root
        · rename_i hinactive
          refine pass_move hu ho hsignal hopen fun other hother hactive => ?_
          rw [hhandle] at hother
          cases hother
          exact absurd hactive hinactive
      · rename_i hnone
        exact pass_move hu ho hsignal hopen fun other hother _ => absurd hr (hnone _ _ hother)

/-- Every step of a poll is one of these moves. -/
theorem stepPoll_move {stage : PollStage} (ht : (s.popped below).stepPoll signal id owner gate stage = some t) :
    PollMove s below id owner gate stage signal t := by
  unfold stepPoll at ht
  split at ht
  · cases ht
  · rename_i r hr
    have hr : s.table.registrations[id]? = some r := hr
    split at ht
    · split at ht
      · cases ht
      · rename_i hfree
        cases ht
        refine PollMove.enters hr (by simpa using hfree) rfl rfl ?_
        cases owner <;> rfl
    · rename_i captured
      cases ht
      unfold compareCapture
      dsimp only
      split
      · rename_i hchanges
        refine PollMove.compares hr hchanges rfl rfl ?_
        cases owner <;> rfl
      · rename_i hsame
        exact PollMove.ends hr (Concludes.unchanged (by simpa using hsame)) (Calm.refl _) rfl
    · cases ht
      exact PollMove.ends hr Concludes.uncaptured (Calm.refl _) rfl
    · cases ht
    · rename_i current waiting report f
      split at ht
      · rename_i hfatal
        cases ht
        exact PollMove.ends hr (Concludes.aborted hfatal) (Calm.refl _) rfl
      · rename_i hordinary
        cases ht
        refine deliver_move (Calm.reportFailed _ _ _ _) (outline_reportFailed _ _ _ _) ?_ hr (Bool.eq_false_iff.mpr hordinary)
        unfold reportFailed
        split <;> rfl
    · rename_i hnot
      cases ht
      refine deliver_move (Calm.refl _) rfl rfl hr ?_
      unfold aborts
      split
      · exact absurd rfl (hnot _)
      · rfl

/-- A step of the poll in control is one of its moves. -/
theorem step_move {stage : PollStage} (hstack : s.stack = .polling id owner gate stage :: below) (ht : s.step = some t) :
    PollMove s below id owner gate stage s.signal t := by
  unfold step at ht
  rw [hstack] at ht
  exact stepPoll_move ht

end DirWatch.Session
