import DirWatch.Proofs.Session.Effects

/-!
# The turns of a session

`Turn cause s frame signal t` lists what one step can do: `frame` is the frame that was on top, `signal` the one left for it,
and `s` the session without both. `step_turn` says that every step is such a turn. A passive frame may put frames of its own
on the stack and begin an action; captures, attachments and polls go on as their constructors say.
-/

namespace DirWatch.Session

/-- The action that a step is about to begin. -/
def nextAction? (s : Session) : Option Action :=
  match s.stack with
  | .script (action :: _) _ :: _ => some action
  | .observing _ _ (action :: _) _ :: _ => some action
  | _ => none

/-- The table at the end of a poll. -/
def endTable (table : Table) (id : RegistrationId) : Except Failure Change.Report → Table
  | .ok report => (table.setPolling id false).setBaseline id report.baseline
  | .error _ => table.setPolling id false

/-- How a poll can come to its end: with what it compared, with what it delivered, or with a failure. -/
inductive PollOutcome (r : Registration) : PollStage → Option Signal → Except Failure Change.Report → Prop
  | compared (captured : Snapshot) :
      PollOutcome r .capturing (some (.captured (.ok captured))) (.ok (Snapshot.diff (some r.baseline) captured))
  | delivered (current : Option HandleId) (waiting : List HandleId) (report : Change.Report) (signal : Option Signal) :
      PollOutcome r (.delivering current waiting report) signal (.ok report)
  | failed (stage : PollStage) (signal : Option Signal) (f : Failure) (hstage : stage ≠ .entering) :
      PollOutcome r stage signal (.error f)

/-- What one step can do. -/
inductive Turn (cause : Option Action) (s : Session) : Frame → Option Signal → Session → Prop
  /-- A passive frame puts passive frames on the stack and begins an action. -/
  | acts {frame signal u t fs} (hframe : Passive frame) (h : Leads s u s.table s.watcher.state fs)
      (hfs : ∀ f ∈ fs, Passive f) (he : Effect cause u t) : Turn cause s frame signal t
  /-- A frame that waits for the pool lets it start a job. -/
  | startsJob {frame signal t id registration} (hid : id < s.scheduler.pool.jobs.size)
      (h : Leads s t s.table s.watcher.state [.polling registration (.job id) .scheduler .entering, frame])
      (hframe : Passive frame ∨ ∃ owner, frame = .stopping owner) : Turn cause s frame signal t
  /-- A stop waits on. -/
  | stays {owner signal t} (h : Leads s t s.table s.watcher.state [.stopping owner]) :
      Turn cause s (.stopping owner) signal t
  /-- A stop lets the poll go on that is parked longest. -/
  | unparks {owner signal u t} (h : Leads s u s.table s.watcher.state [.stopping owner]) (ht : u.unpark? = some t) :
      Turn cause s (.stopping owner) signal t
  /-- A close from outside has stopped the scheduler and clears the table. -/
  | clears {signal t} (h : Leads s t s.table.clear s.watcher.state []) : Turn cause s (.stopping .closing) signal t
  /-- A close from outside has stopped the scheduler, and the table was made not to clear. -/
  | uncleared {signal t} (h : Calm s t) (hbroken : s.disabled.lookup .clear ≠ none) :
      Turn cause s (.stopping .closing) signal t
  /-- An observer waits to be released. -/
  | parks {h received received' waiting waiting' current current' signal u t}
      (hu : Leads s u s.table s.watcher.state [.observing h received' waiting' current'])
      (ht : u.park = some t) : Turn cause s (.observing h received waiting current) signal t
  /-- A capture goes on with the answer to its question. -/
  | asks {c ready signal t call resume r} (hnext : c.next = .ask call resume)
      (hr : r = s.disk.answer call ∨ ∃ e, r = .error e)
      (h : Leads s t s.table s.watcher.state [.capturing (resume r).1 false]) : Turn cause s (.capturing c ready) signal t
  /-- Other things happen before the question of a capture is answered. -/
  | waits {c ready signal t steps}
      (h : Leads s t s.table s.watcher.state [.script steps none, .capturing c true]) :
      Turn cause s (.capturing c ready) signal t
  /-- A capture is handed over. -/
  | hands {c ready signal outcome} (hnext : c.next = .stop outcome) :
      Turn cause s (.capturing c ready) signal (s.leave (.captured (outcome.mapError Failure.ofCapture)))
  /-- An attachment ends without a new registration. -/
  | attaches {root observer label purpose signal t cause'} (he : Effect cause' s t)
      (hcause : cause' = none ∨ purpose = .caller ∧ Direct cause') :
      Turn cause s (.attaching root observer label purpose) signal t
  /-- An attachment ends with a new registration. -/
  | registers {root observer label purpose baseline t} (hnone : s.table.find? root = none)
      (h : Leads s t ((s.table.register root baseline).1.join (s.table.register root baseline).2 observer).1
        s.watcher.state [])
      (hopen : purpose = .caller ∨ s.watcher.state = .running) :
      Turn cause s (.attaching root observer label purpose) (some (.captured (.ok baseline))) t
  /-- An attachment ends with a new registration, which is taken back at once. -/
  | revokes {root observer label purpose baseline t} (hnone : s.table.find? root = none)
      (h : Leads s t (((s.table.register root baseline).1.join (s.table.register root baseline).2 observer).1.cancel
        ((s.table.register root baseline).1.join (s.table.register root baseline).2 observer).2).1 s.watcher.state []) :
      Turn cause s (.attaching root observer label purpose) (some (.captured (.ok baseline))) t
  /-- A poll begins to capture. -/
  | enters {id owner gate signal t r patterns capturedAt} (hr : s.table.registrations[id]? = some r)
      (hfree : r.polling = false)
      (h : Leads s t (s.table.setPolling id true) s.watcher.state
        [.capturing { root := r.root, patterns, capturedAt } false, .polling id owner gate .capturing]) :
      Turn cause s (.polling id owner gate .entering) signal t
  /-- A poll begins to deliver. -/
  | compares {id owner gate captured t r} (hr : s.table.registrations[id]? = some r)
      (h : Leads s t s.table s.watcher.state
        [.polling id owner gate (.delivering none r.handles (Snapshot.diff (some r.baseline) captured))]) :
      Turn cause s (.polling id owner gate .capturing) (some (.captured (.ok captured))) t
  /-- A poll goes on to the next handle. -/
  | passes {id owner gate gate' current current' waiting waiting' report signal t}
      (h : Leads s t s.table s.watcher.state [.polling id owner gate' (.delivering current' waiting' report)]) :
      Turn cause s (.polling id owner gate (.delivering current waiting report)) signal t
  /-- A poll calls an observer. -/
  | calls {id owner gate gate' current waiting waiting' report signal u h handle actions}
      (hh : s.table.handles[h]? = some handle) (hactive : handle.active = true)
      (hu : Leads s u s.table s.watcher.state [.polling id owner gate' (.delivering (some h) waiting' report)]) :
      Turn cause s (.polling id owner gate (.delivering current waiting report)) signal
        ((u.record (.call handle.observer report.changes)).push (.observing h report.changes actions none))
  /-- A poll ends. -/
  | ends {id owner gate stage signal r outcome u} (hr : s.table.registrations[id]? = some r)
      (ho : PollOutcome r stage signal outcome) (hu : Calm s u) :
      Turn cause s (.polling id owner gate stage) signal (u.endPoll id owner outcome)

variable {cause : Option Action} {s t u : Session} {signal : Option Signal}

/-- A passive frame that leaves at most passive frames. -/
theorem Turn.effect {frame : Frame} (hframe : Passive frame) (he : Effect cause s t) : Turn cause s frame signal t :=
  Turn.acts hframe (Calm.refl s) (fun _ hf => nomatch hf) he

/-- A passive frame may end. -/
theorem Turn.calm {frame : Frame} (hframe : Passive frame) (h : Calm s t) : Turn cause s frame signal t :=
  Turn.effect hframe (Effect.calm h)

theorem Turn.push {frame f : Frame} (hframe : Passive frame) (h : Calm s t) (hf : Passive f) :
    Turn cause s frame signal (t.push f) :=
  Turn.effect hframe (Effect.push h hf)

/-- A passive frame that leaves two passive frames. -/
theorem Turn.pushTwo {frame f g : Frame} (hframe : Passive frame) (h : Calm s t) (hf : Passive f) (hg : Passive g) :
    Turn cause s frame signal ((t.push f).push g) := by
  refine Turn.acts hframe ((h.then (Leads.push t f)).cast h.table h.state) ?_ (Effect.push (Calm.refl _) hg)
  intro e he
  rwa [List.mem_singleton.mp he]

/-! ## Scripts and observers -/

/-- A script begins its next action and goes on below it. -/
theorem stepScript_turn (s : Session) (signal : Option Signal) (waiting : List Action) (current : Option String) :
    Turn waiting.head? s (.script waiting current) signal (s.stepScript signal waiting current) := by
  have hrecord := Calm.recordReply s current signal
  unfold stepScript
  cases waiting with
  | nil => exact Turn.calm trivial (hrecord.trans (Calm.finished _))
  | cons action waiting =>
    refine Turn.acts trivial ((hrecord.then (Leads.push _ (.script waiting (some action.name)))).cast hrecord.table
      hrecord.state) ?_ (perform_effect _ action)
    intro f hf
    rw [List.mem_singleton.mp hf]
    trivial

/-- The call of an observer begins its next action, ends or parks. -/
theorem stepObserver_turn {h : HandleId} {received : List Change} {waiting : List Action} {current : Option String}
    (ht : s.stepObserver signal h received waiting current = some t) :
    Turn waiting.head? s (.observing h received waiting current) signal t := by
  have hrecord := Calm.recordReply s current signal
  unfold stepObserver at ht
  dsimp only at ht
  split at ht
  · cases ht
    exact Turn.calm trivial (hrecord.trans (Calm.finished _))
  · cases ht
    exact Turn.calm trivial (hrecord.trans (Calm.raised _ _))
  · cases ht
    exact Turn.calm trivial (hrecord.trans (Calm.raised _ _))
  · cases ht
    exact Turn.push trivial hrecord trivial
  · exact Turn.parks ((hrecord.then (Leads.push _ _)).cast hrecord.table hrecord.state) ht
  · rename_i action waiting _ _ _ _
    cases ht
    refine Turn.acts trivial ((hrecord.then (Leads.push _ (.observing h received waiting (some action.name)))).cast
      hrecord.table hrecord.state) ?_ (perform_effect _ action)
    intro f hf
    rw [List.mem_singleton.mp hf]
    trivial

/-! ## Questions -/

/-- A question is answered by the tree, or it fails, or other things happen first. -/
theorem ask_cases (s : Session) (call : Call) (ready : Bool) :
    (∃ r, s.ask call ready = .answered r ∧ (r = s.disk.answer call ∨ ∃ e, r = .error e)) ∨
    ∃ u steps, s.ask call ready = .preceded u steps ∧ Calm s u := by
  unfold ask
  split
  · exact Or.inl ⟨_, rfl, Or.inr ⟨_, rfl⟩⟩
  · exact Or.inl ⟨_, rfl, Or.inr ⟨_, rfl⟩⟩
  · exact Or.inr ⟨_, _, rfl, Calm.setFault s _ _ _⟩
  · exact Or.inl ⟨_, rfl, Or.inl rfl⟩

/-- A capture asks its next question, lets something else happen before, or hands over what it has found. -/
theorem stepCapture_turn (s : Session) (c : Capture) (ready : Bool) (signal : Option Signal) :
    Turn cause s (.capturing c ready) signal (s.stepCapture c ready) := by
  unfold stepCapture
  split
  · rename_i outcome hnext
    exact Turn.hands hnext
  · rename_i call resume hnext
    rcases ask_cases s call ready with ⟨r, hr, hanswer⟩ | ⟨u, steps, hu, hcalm⟩
    · rw [hr]
      have hnotices := Calm.notices s (resume r).2
      exact Turn.asks hnext hanswer ((hnotices.then (Leads.push _ _)).cast hnotices.table hnotices.state)
    · rw [hu]
      exact Turn.waits ((hcalm.then ((Leads.push u _).trans (Leads.push _ _))).cast hcalm.table hcalm.state)

/-- A resolution asks its way, and its purpose goes on with what it comes to. -/
theorem stepResolution_turn (s : Session) (r : Resolution) (purpose : ResolutionPurpose) (ready : Bool)
    (signal : Option Signal) : Turn cause s (.resolving r purpose ready) signal (s.stepResolution r purpose ready) := by
  unfold stepResolution
  split
  · exact Turn.effect trivial (resolved_effect s _ _)
  · rename_i call resume _
    rcases ask_cases s call ready with ⟨answer, hr, -⟩ | ⟨u, steps, hu, hcalm⟩
    · rw [hr]
      exact Turn.push trivial (Calm.refl s) trivial
    · rw [hu]
      exact Turn.pushTwo trivial hcalm trivial trivial

/-- Once the system has told what stands at the root, the watch goes on or fails. -/
theorem stepProbe_turn (s : Session) (path : Path) (observer : Observer) (label : String) (ready : Bool)
    (signal : Option Signal) :
    Turn cause s (.probing path observer label ready) signal (s.stepProbe path observer label ready) := by
  unfold stepProbe
  rcases ask_cases s (.stat (toString path)) ready with ⟨r, hr, -⟩ | ⟨u, steps, hu, hcalm⟩
  · rw [hr]
    exact Turn.effect trivial (probed_effect s path observer label r)
  · rw [hu]
    exact Turn.pushTwo trivial hcalm trivial trivial

/-- A report of a single capture is all that its caller asked for. -/
theorem stepReport_turn (s : Session) (signal : Option Signal) :
    Turn cause s .reporting signal (s.stepReport signal) := by
  unfold stepReport
  split
  · exact Turn.calm trivial (Calm.reply s _)
  · exact Turn.calm trivial (Calm.done s)

/-! ## Attachments -/

/-- With its baseline captured, an attachment joins the registration in force or makes a new one. -/
theorem stepAttach_turn (s : Session) (signal : Option Signal) (root : Path) (observer : Observer) (label : String)
    (purpose : AttachPurpose) :
    Turn cause s (.attaching root observer label purpose) signal (s.stepAttach signal root observer label purpose) := by
  unfold stepAttach
  split
  · rename_i baseline
    unfold finishAttach
    split
    · rename_i id hid
      cases purpose with
      | caller =>
        have hdirect : Direct (some (.attach root observer label)) := ⟨root, observer, label, rfl⟩
        exact Turn.attaches (join_effect hid root observer label (Or.inr hdirect)) (Or.inr ⟨rfl, hdirect⟩)
      | watch => exact Turn.attaches (join_effect hid root observer label (Or.inl rfl)) (Or.inl rfl)
    · rename_i hnone
      have hregister : Leads s ({ s with table := (s.table.register root baseline).1 }.notice
          (.registrationCreated root baseline.size)) (s.table.register root baseline).1 s.watcher.state [] :=
        (Leads.setTable s _).calm (Calm.notice _ _)
      by_cases hopen : purpose = .caller ∨ s.watcher.state = .running
      · exact Turn.registers hnone (hregister.trans (Leads.join _ _ _ _ _ hopen)) hopen
      · rw [not_or] at hopen
        cases purpose with
        | caller => exact absurd rfl hopen.1
        | watch => exact Turn.revokes hnone (hregister.trans (Leads.joinClosed _ _ _ _ _ hopen.2))
  · exact Turn.attaches (Effect.calm (Calm.fail s _)) (Or.inl rfl)
  · exact Turn.attaches (Effect.calm (Calm.done s)) (Or.inl rfl)

/-! ## Polls -/

/-- A handle is served: its observer is called or cannot be called, or it is passed over. -/
theorem deliver_turn (hu : Calm s u) {id : RegistrationId} {owner : PollOwner} {gate gate' : Gate}
    {current : Option HandleId} {waiting waiting' : List HandleId} {report : Change.Report} {r : Registration}
    (hr : s.table.registrations[id]? = some r) :
    Turn cause s (.polling id owner gate (.delivering current waiting report)) signal
      (u.deliver id owner gate' waiting' report) := by
  unfold deliver
  split
  · exact Turn.ends hr (PollOutcome.delivered _ _ _ _) hu
  · rename_i h waiting''
    dsimp only
    split
    · exact Turn.ends hr (PollOutcome.delivered _ _ _ _) hu
    · have hpush : ∀ f, Leads s (u.push f) s.table s.watcher.state [f] :=
        fun f => (hu.then (Leads.push u f)).cast hu.table hu.state
      split
      · rename_i handle _ hhandle _
        rw [hu.table] at hhandle
        split
        · rename_i hactive
          unfold callObserver
          split
          · rename_i name _ _
            have hscript := (hpush (.polling id owner (u.passGate gate').2 (.delivering (some h) waiting'' report))).calm
              (Calm.takeScript _ name)
            exact Turn.calls hhandle hactive hscript
          · exact Turn.calls hhandle hactive (hpush _)
          · exact Turn.passes ((hpush _).calm (Calm.notice _ _))
        · exact Turn.passes (hpush _)
      · exact Turn.passes (hpush _)

/-- A poll enters, compares, calls or passes over the next handle, or ends. -/
theorem stepPoll_turn {id : RegistrationId} {owner : PollOwner} {gate : Gate} {stage : PollStage}
    (ht : s.stepPoll signal id owner gate stage = some t) : Turn cause s (.polling id owner gate stage) signal t := by
  unfold stepPoll at ht
  split at ht
  · cases ht
  · rename_i r hr
    split at ht
    · split at ht
      · cases ht
      · rename_i hfree
        cases ht
        have henter := Leads.setTable s (s.table.setPolling id true)
        exact Turn.enters hr (Bool.not_eq_true _ ▸ hfree)
          (henter.trans ((Leads.push _ _).trans (Leads.beginCapture _ r.root)))
    · rename_i captured
      cases ht
      unfold compareCapture
      dsimp only
      split
      · exact Turn.compares hr ((Calm.notice s _).then (Leads.push _ _))
      · exact Turn.ends hr (PollOutcome.compared captured) (Calm.refl s)
    · rename_i f
      cases ht
      exact Turn.ends hr (PollOutcome.failed _ _ f (fun h => nomatch h)) (Calm.refl s)
    · cases ht
    · rename_i current waiting report f
      split at ht
      · cases ht
        exact Turn.ends hr (PollOutcome.failed _ _ f (fun h => nomatch h)) (Calm.refl s)
      · cases ht
        exact deliver_turn (Calm.reportFailed s _ _ _) hr
    · cases ht
      exact deliver_turn (Calm.refl s) hr

/-! ## Ticks, the loop, and stopping -/

/-- A frame that waits for the pool lets it start a job and stays below the poll. -/
theorem startJob_turn {frame : Frame} (hu : Calm s u) (id : JobId)
    (hframe : Passive frame ∨ ∃ owner, frame = .stopping owner) (hjobs : u.scheduler.pool.jobs = s.scheduler.pool.jobs) :
    Turn cause s frame signal ((u.push frame).startJob id) := by
  have hpush : Leads s (u.push frame) s.table s.watcher.state [frame] :=
    (hu.then (Leads.push u frame)).cast hu.table hu.state
  cases hjob : (u.push frame).scheduler.pool.jobs[id]? with
  | none =>
    have heq : (u.push frame).startJob id = u.push frame := by
      unfold startJob
      rw [hjob]
    rw [heq]
    rcases hframe with hpassive | ⟨owner, rfl⟩
    · exact Turn.push hpassive hu hpassive
    · exact Turn.stays hpush
  | some job =>
    have hid : id < s.scheduler.pool.jobs.size := by
      rw [← hjobs]
      exact (Array.getElem?_eq_some_iff.mp hjob).1
    exact Turn.startsJob hid ((hpush.trans (Leads.startJob _ hjob)).cast hpush.table hpush.state) hframe

/-- A tick ends at once after a stop and begins to submit otherwise. -/
theorem enterTick_effect (s : Session) (owner : TickOwner) : Effect cause s (s.enterTick owner) := by
  unfold enterTick
  split
  · exact Effect.calm (Calm.endTick s _ _)
  · have htake := Calm.takeDisabled s .registrations
    dsimp only
    split
    · exact Effect.calm (htake.trans (Calm.endTick _ _ _))
    · have hprune : Calm (s.takeDisabled .registrations).2
          { (s.takeDisabled .registrations).2 with scheduler := (s.takeDisabled .registrations).2.scheduler.prune } :=
        Calm.scheduler _ (Nat.le_refl _)
      refine Effect.after (htake.trans hprune) ?_
      split
      · exact Effect.calm ((Calm.countTick _).trans (Calm.endTick _ _ _))
      · exact Effect.push (Calm.refl _) trivial

/-- A tick submits its polls, lets the pool start jobs and waits for them. -/
theorem stepTick_turn {owner : TickOwner} {stage : TickStage} (ht : s.stepTick owner stage = some t) :
    Turn cause s (.ticking owner stage) signal t := by
  unfold stepTick at ht
  split at ht
  · split at ht
    · cases ht
    · cases ht
      have hticking : Calm s { s with scheduler := { s.scheduler with isTicking := true } } :=
        Calm.scheduler s (Nat.le_refl _)
      exact Turn.effect trivial (Effect.after hticking (enterTick_effect _ _))
  · rename_i waiting all submitted
    split at ht
    · cases ht
      exact startJob_turn (Calm.refl s) _ (Or.inl trivial) rfl
    · cases ht
      exact Turn.calm trivial (Calm.completeTick s _ _ _)
    · rename_i id waiting _
      split at ht
      · cases ht
        exact Turn.push trivial (Calm.notice s _) trivial
      · split at ht
        · cases ht
          exact Turn.calm trivial (Calm.endTick s _ _)
        · cases ht
          have hsubmit : Calm s { s with scheduler := (s.scheduler.submit id).1 } := by
            refine Calm.scheduler s ?_
            have hsize : (s.scheduler.submit id).1.pool.jobs.size = s.scheduler.pool.jobs.size + 1 := Array.size_push _
            rw [hsize]
            exact Nat.le_succ _
          exact Turn.push trivial hsubmit trivial

/-- The loop begins its ticks and waits between them, where the actions of a round take place. -/
theorem stepLoop_turn (s : Session) (signal : Option Signal) (rounds : List (List Action)) (stage : LoopStage) :
    Turn cause s (.looping rounds stage) signal (s.stepLoop signal rounds stage) := by
  unfold stepLoop
  split
  · split
    · exact Turn.calm trivial (Calm.fail s _)
    · exact Turn.push trivial (Calm.notice s _) trivial
  · exact Turn.push trivial (Calm.refl s) trivial
  · split
    · exact Turn.calm trivial (Calm.endLoop s)
    · exact Turn.pushTwo trivial (Calm.refl s) trivial trivial
  · split
    · exact Turn.calm trivial (Calm.endLoop s)
    · split
      · exact Turn.calm trivial (Calm.endLoop s)
      · exact Turn.pushTwo trivial (Calm.refl s) trivial trivial

/-- A stop lets jobs start and parked polls go on, until there are none and it returns. -/
theorem stepStop_turn {owner : StopOwner} (ht : s.stepStop owner = some t) :
    Turn cause s (.stopping owner) signal t := by
  unfold stepStop at ht
  have hshut := Calm.shutPool s
  have hpush : Leads s (s.shutPool.push (.stopping owner)) s.table s.watcher.state [.stopping owner] :=
    hshut.then (Leads.push s.shutPool _)
  split at ht
  · cases ht
  · dsimp only at ht
    split at ht
    · cases ht
      exact startJob_turn hshut _ (Or.inr ⟨owner, rfl⟩) rfl
    · split at ht
      · rename_i hunpark
        cases ht
        exact Turn.unparks hpush hunpark
      · cases ht
        cases owner with
        | caller => exact Turn.calm rfl (hshut.trans (Calm.done _))
        | closing =>
          rcases finishClose_leads s.shutPool with hclear | ⟨hbroken, hcalm⟩
          · exact Turn.clears (hshut.then hclear)
          · exact Turn.uncleared (hshut.trans hcalm) hbroken

/-- A release lets the jobs start that wait in the pool. -/
theorem stepRelease_turn (s : Session) (signal : Option Signal) : Turn cause s .releasing signal s.stepRelease := by
  unfold stepRelease
  split
  · exact startJob_turn (Calm.refl s) _ (Or.inl trivial) rfl
  · exact Turn.calm trivial (Calm.reply s _)

/-! ## All steps -/

/-- Every step is a turn of the frame on top. -/
theorem step_turn (ht : s.step = some t) : ∃ frame below, s.stack = frame :: below ∧
    Turn s.nextAction? { s with stack := below, signal := none } frame s.signal t := by
  unfold step at ht
  split at ht
  · cases ht
  · rename_i frame below hstack
    refine ⟨frame, below, hstack, ?_⟩
    dsimp only at ht
    split at ht
    · rename_i waiting current
      cases ht
      have hcause : s.nextAction? = waiting.head? := by
        unfold nextAction?
        rw [hstack]
        cases waiting <;> rfl
      rw [hcause]
      exact stepScript_turn _ _ _ _
    · rename_i h received waiting current
      have hcause : s.nextAction? = waiting.head? := by
        unfold nextAction?
        rw [hstack]
        cases waiting <;> rfl
      rw [hcause]
      exact stepObserver_turn ht
    · cases ht
      exact stepCapture_turn _ _ _ _
    · cases ht
      exact stepResolution_turn _ _ _ _ _
    · cases ht
      exact stepProbe_turn _ _ _ _ _ _
    · cases ht
      exact stepAttach_turn _ _ _ _ _ _
    · exact stepPoll_turn ht
    · exact stepTick_turn ht
    · cases ht
      exact stepLoop_turn _ _ _ _
    · exact stepStop_turn ht
    · cases ht
      exact stepRelease_turn _ _
    · cases ht
      exact stepReport_turn _ _

/-! ## The end of a poll -/

/-- The end of a poll unmarks its registration and, if it succeeded, puts the next baseline in place. -/
theorem endPoll_leads (s : Session) (id : RegistrationId) (owner : PollOwner) (outcome : Except Failure Change.Report) :
    Leads s (s.endPoll id owner outcome) (endTable s.table id outcome) s.watcher.state [] := by
  have hset : Leads s { s with table := endTable s.table id outcome } (endTable s.table id outcome) s.watcher.state [] :=
    Leads.setTable s _
  unfold endPoll
  cases outcome with
  | ok report =>
    cases owner with
    | caller => exact hset.calm (Calm.reply _ _)
    | job job => exact hset.calm (Calm.endJob _ _ _ _)
  | error f =>
    cases owner with
    | caller => exact hset.calm (Calm.reply _ _)
    | job job => exact hset.calm (Calm.endJob _ _ _ _)

end DirWatch.Session
