import DirWatch.Session.Attach

/-!
# Polls

A poll captures its root, compares the capture with the baseline, delivers the changes to the handles attached at that
moment, one after another, and then replaces the baseline. Before every delivery it asks the gate. A cancelled handle is
passed over, and a delivery that fails in an ordinary way is reported and does not stop the others. If the capture fails,
or a delivery fails fatally, the poll ends and the baseline stays. Polls of one registration exclude each other.
-/

namespace DirWatch.Session

/-- Ends the job of a poll. An ordinary failure counts as no changes. -/
def endJob (s : Session) (id : JobId) (root : Path) (outcome : Except Failure (List Change)) : Session :=
  match outcome with
  | .error f =>
    if f.isFatal then { s with scheduler := s.scheduler.leave id (.error f) }
    else { s with scheduler := s.scheduler.leave id (.ok []) }.notice (.pollFailed root)
  | .ok changes => { s with scheduler := s.scheduler.leave id (.ok changes) }

/-- Ends a poll: with a report the baseline is replaced, after a failure it stays. -/
def endPoll (s : Session) (id : RegistrationId) (owner : PollOwner) (outcome : Except Failure Change.Report) :
    Session :=
  let table := s.table.setPolling id false
  let s := { s with table := match outcome with
      | .ok report => table.setBaseline id report.baseline
      | .error _ => table }
  let changes := outcome.map (·.changes)
  match owner with
  | .caller => s.reply (changes.map .changes)
  | .job job => s.endJob job ((s.table.registrations[id]?.map (·.root)).getD default) changes

/-- Whether a gate lets one more delivery begin, and the gate afterwards. -/
def passGate (s : Session) : Gate → Bool × Gate
  | .free => (true, .free)
  | .scheduler => (!s.scheduler.isStopped, .scheduler)
  | .counted 0 => (false, .counted 0)
  | .counted (n + 1) => (true, .counted n)

/-- The actions of the next call of an observer. -/
def takeScript (s : Session) (name : String) : List Action × Session :=
  match s.scripts.lookup name with
  | some (actions :: rest) =>
    (actions, { s with scripts := s.scripts.map fun e => if e.1 == name then (name, rest) else e })
  | _ => ([], s)

/-- Calls an observer through a handle. -/
def callObserver (s : Session) (h : HandleId) (root : Path) (observer : Observer) (changes : List Change) : Session :=
  match observer with
  | .named name _ =>
    let (actions, s) := s.takeScript name
    (s.record (.call observer changes)).push (.observing h changes actions none)
  | .printer _ _ => (s.record (.call observer changes)).push (.observing h changes [] none)
  | .plain _ => s.notice (.observerFailed root observer changes.length)

/-- Begins a poll. -/
def beginPoll (s : Session) (id : RegistrationId) (owner : PollOwner) (gate : Gate) : Session :=
  s.push (.polling id owner gate .entering)

/-- Reports a delivery that failed in an ordinary way. -/
def reportFailed (s : Session) (root : Path) (current : Option HandleId) (report : Change.Report) : Session :=
  match current.bind (s.table.handles[·]?) with
  | some handle => s.notice (.observerFailed root handle.observer report.changes.length)
  | none => s

/-- Serves the next handle of a poll. -/
def deliver (s : Session) (id : RegistrationId) (owner : PollOwner) (gate : Gate) (waiting : List HandleId)
    (report : Change.Report) : Session :=
  match waiting with
  | [] => s.endPoll id owner (.ok report)
  | h :: waiting =>
    let (passes, gate) := s.passGate gate
    if !passes then s.endPoll id owner (.ok report)
    else
      match s.table.handles[h]?, s.table.registrations[id]? with
      | some handle, some r =>
        if handle.active then
          (s.push (.polling id owner gate (.delivering (some h) waiting report))).callObserver h r.root handle.observer
            report.changes
        else s.push (.polling id owner gate (.delivering none waiting report))
      | _, _ => s.push (.polling id owner gate (.delivering none waiting report))

/-- Compares a capture with the baseline and begins to deliver. -/
def compareCapture (s : Session) (id : RegistrationId) (owner : PollOwner) (gate : Gate) (r : Registration)
    (captured : Snapshot) : Session :=
  let report := Snapshot.diff (some r.baseline) captured
  if report.hasChanges then
    (s.notice (.changesDetected r.root (report.paths .added).length (report.paths .modified).length
      (report.paths .removed).length)).push (.polling id owner gate (.delivering none r.handles report))
  else s.endPoll id owner (.ok report)

/-- Goes on with a poll. It is stuck as long as another poll of its registration is under way. -/
def stepPoll (s : Session) (signal : Option Signal) (id : RegistrationId) (owner : PollOwner) (gate : Gate)
    (stage : PollStage) : Option Session :=
  match s.table.registrations[id]? with
  | none => none
  | some r =>
    match stage, signal with
    | .entering, _ =>
      if r.polling then none
      else
        some (({ s with table := s.table.setPolling id true }.push (.polling id owner gate .capturing)).beginCapture
          r.root)
    | .capturing, some (.captured (.ok captured)) => some (s.compareCapture id owner gate r captured)
    | .capturing, some (.captured (.error f)) => some (s.endPoll id owner (.error f))
    | .capturing, _ => none
    | .delivering current waiting report, some (.raised f) =>
      if f.isFatal then some (s.endPoll id owner (.error f))
      else some ((s.reportFailed r.root current report).deliver id owner gate waiting report)
    | .delivering _ waiting report, _ => some (s.deliver id owner gate waiting report)

end DirWatch.Session
