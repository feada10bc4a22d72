import DirWatch.Proofs.Session.Leads

/-!
# The effects of actions

`Effect cause s t` lists what an action can do to a session. `perform_effect` says that beginning an action does one of these
things; the cause is the action, and a cause is asked for where only some actions have the effect. What is proved of a
session after any action is proved by cases over the effects, and no operation has to be opened again.
-/

namespace DirWatch.Session

/-- The frames on which nothing else depends. -/
def Passive : Frame → Prop
  | .script .. | .observing .. | .resolving .. | .probing .. | .ticking .. | .looping .. | .releasing | .reporting => True
  | .stopping owner => owner = .caller
  | .capturing .. | .attaching .. | .polling .. => False

/-- The action is an attachment made on the table itself, with no watcher in between. -/
def Direct (cause : Option Action) : Prop :=
  ∃ root observer label, cause = some (.attach root observer label)

/-- The action changes the tree of files. -/
def Rewrites (action : Action) (d d' : Disk) : Prop :=
  match action with
  | .put path node => d.put path node = .ok d'
  | .remove path => d.remove path = .ok d'
  | .touch path mtime => d.touch path mtime = .ok d'
  | .changeDirectory path => d' = { d with cwd := path }
  | _ => False

/-- What an action can do. -/
inductive Effect (cause : Option Action) (s : Session) : Session → Prop
  /-- At most some passive frames are put on the stack. -/
  | quiet {t fs} (h : Leads s t s.table s.watcher.state fs) (hfs : ∀ f ∈ fs, Passive f) : Effect cause s t
  /-- The watcher starts. -/
  | starts {t} (h : Leads s t s.table .running []) (hstate : s.watcher.state = .created) : Effect cause s t
  /-- Handles are cancelled. -/
  | cancels {t} (hs : List HandleId) (h : Leads s t (cancelEach s.table hs) s.watcher.state []) : Effect cause s t
  /-- An observer joins a registration in force. -/
  | joins {t root id observer} (hid : s.table.find? root = some id)
      (h : Leads s t (s.table.join id observer).1 s.watcher.state [])
      (hopen : s.watcher.state = .running ∨ Direct cause) : Effect cause s t
  /-- An observer joins a registration in force and is taken off it at once. -/
  | revokes {t root id observer} (hid : s.table.find? root = some id)
      (h : Leads s t ((s.table.join id observer).1.cancel (s.table.join id observer).2).1 s.watcher.state []) :
      Effect cause s t
  /-- An attachment begins with a capture of its root. -/
  | attaches {t root observer label purpose patterns capturedAt}
      (h : Leads s t s.table s.watcher.state [.capturing { root, patterns, capturedAt } false,
        .attaching root observer label purpose])
      (hopen : purpose = .watch ∨ Direct cause) : Effect cause s t
  /-- A single capture begins. -/
  | reports {t root patterns capturedAt}
      (h : Leads s t s.table s.watcher.state [.capturing { root, patterns, capturedAt } false, .reporting]) :
      Effect cause s t
  /-- The table is cleared. -/
  | clears {t} (h : Leads s t s.table.clear s.watcher.state []) : Effect cause s t
  /-- A poll begins for its caller. -/
  | polls {t id gate} (h : Leads s t s.table s.watcher.state [.polling id .caller gate .entering]) : Effect cause s t
  /-- The watcher begins to close and waits for the scheduler. -/
  | closes {t} (h : Leads s t s.table .closed [.stopping .closing]) (hopen : s.watcher.state ≠ .closed) : Effect cause s t
  /-- The watcher closes at once. -/
  | closed {t} (h : Leads s t s.table.clear .closed []) : Effect cause s t
  /-- The watcher closes at once, and its table was made not to clear. -/
  | closedUncleared {t} (h : Leads s t s.table .closed []) (hbroken : s.disabled.lookup .clear ≠ none) : Effect cause s t
  /-- The poll that is parked longest goes on. -/
  | unparks {t u} (h : Leads s u s.table s.watcher.state [.releasing]) (ht : u.unpark? = some t) : Effect cause s t
  /-- The tree of files is changed. -/
  | rewrites {u action disk} (hcause : cause = some action) (hu : Calm s u) (h : Rewrites action s.disk disk) :
      Effect cause s { u with disk }.done
  /-- An operation is made to fail. -/
  | disables {u operation times} (hcause : cause = some (.disable operation times)) (hu : Calm s u) :
      Effect cause s { u with disabled := (operation, times) :: u.disabled.filter (·.1 != operation) }.done

variable {cause : Option Action} {s t u : Session}

/-- An action that puts nothing on the stack and leaves the table. -/
theorem Effect.calm (h : Calm s t) : Effect cause s t :=
  Effect.quiet h (fun _ hf => nomatch hf)

/-- An action that puts one passive frame on the stack. -/
theorem Effect.push (h : Calm s t) {f : Frame} (hf : Passive f) : Effect cause s (t.push f) := by
  have hpush := h.then (Leads.push t f)
  rw [h.table, h.state] at hpush
  refine Effect.quiet hpush ?_
  intro g hg
  rwa [List.mem_singleton.mp hg]

/-- What follows a calm part has the same effect from before it. -/
theorem Effect.after (h : Calm s t) (he : Effect cause t u) : Effect cause s u := by
  cases he with
  | quiet h' hfs => exact Effect.quiet (h.then (by rwa [h.table, h.state] at h')) hfs
  | starts h' hstate => exact Effect.starts (h.then (by rwa [h.table] at h')) (h.state ▸ hstate)
  | cancels hs h' => exact Effect.cancels hs (h.then (by rwa [h.table, h.state] at h'))
  | joins hid h' hopen =>
    rw [h.table] at hid
    rw [h.state] at hopen
    exact Effect.joins hid (h.then (by rwa [h.table, h.state] at h')) hopen
  | revokes hid h' =>
    rw [h.table] at hid
    exact Effect.revokes hid (h.then (by rwa [h.table, h.state] at h'))
  | attaches h' hopen => exact Effect.attaches (h.then (by rwa [h.table, h.state] at h')) hopen
  | reports h' => exact Effect.reports (h.then (by rwa [h.table, h.state] at h'))
  | clears h' => exact Effect.clears (h.then (by rwa [h.table, h.state] at h'))
  | polls h' => exact Effect.polls (h.then (by rwa [h.table, h.state] at h'))
  | closes h' hopen => exact Effect.closes (h.then (by rwa [h.table] at h')) (h.state ▸ hopen)
  | closed h' => exact Effect.closed (h.then (by rwa [h.table] at h'))
  | closedUncleared h' hbroken =>
    exact Effect.closedUncleared (h.then (by rwa [h.table] at h')) fun hnone => hbroken (h.clear hnone)
  | unparks h' ht => exact Effect.unparks (h.then (by rwa [h.table, h.state] at h')) ht
  | rewrites hcause hu h' => exact Effect.rewrites hcause (h.trans hu) (h.disk ▸ h')
  | disables hcause hu => exact Effect.disables hcause (h.trans hu)

/-! ## Attaching -/

/-- A watcher that still runs registers the observer and labels its handle. -/
theorem join_running (s : Session) (id : RegistrationId) (root : Path) (observer : Observer) (label : String)
    (h : s.watcher.state = .running) : s.join id root observer label .watch =
      (({ s with table := (s.table.join id observer).1 }.notice (.observerAttached root observer)).notice
        (.watchRegistered s.watcher.name root)).labelled label (s.table.join id observer).2 root :=
  if_pos h

/-- A watcher that has been closed in the meantime takes the observer off again. -/
theorem join_closed (s : Session) (id : RegistrationId) (root : Path) (observer : Observer) (label : String)
    (h : s.watcher.state ≠ .running) : s.join id root observer label .watch =
      (({ s with table := (s.table.join id observer).1 }.notice (.observerAttached root observer)).cancelHandle
        (s.table.join id observer).2).fail (.closedMeanwhile s.watcher.name) :=
  if_neg h

/-- Where another attachment has registered the root by now, the observer joins that one, and the capture is dropped. -/
theorem finishAttach_known {root : Path} {id : RegistrationId} (h : s.table.find? root = some id) (observer : Observer)
    (label : String) (purpose : AttachPurpose) (baseline : Snapshot) :
    s.finishAttach root observer label purpose baseline = s.join id root observer label purpose := by
  rw [finishAttach, h]

/-- A root that is still unknown is registered with the capture as its baseline. -/
theorem finishAttach_new {root : Path} (h : s.table.find? root = none) (observer : Observer) (label : String)
    (purpose : AttachPurpose) (baseline : Snapshot) : s.finishAttach root observer label purpose baseline =
      ({ s with table := (s.table.register root baseline).1 }.notice (.registrationCreated root baseline.size)).join
        (s.table.register root baseline).2 root observer label purpose := by
  rw [finishAttach, h]

/-- An observer joins a registration, and stays if it comes on its own or the watcher runs. -/
theorem Leads.join (s : Session) (id : RegistrationId) (root : Path) (observer : Observer) (label : String)
    {purpose : AttachPurpose} (h : purpose = .caller ∨ s.watcher.state = .running) :
    Leads s (s.join id root observer label purpose) (s.table.join id observer).1 s.watcher.state [] := by
  have hjoin : Leads s ({ s with table := (s.table.join id observer).1 }.notice (.observerAttached root observer))
      (s.table.join id observer).1 s.watcher.state [] := (Leads.setTable s _).calm (Calm.notice _ _)
  cases purpose with
  | caller => exact hjoin.calm (Calm.labelled _ _ _ _)
  | watch =>
    have hrunning : s.watcher.state = .running := h.resolve_left (fun hc => nomatch hc)
    rw [join_running s id root observer label hrunning]
    exact hjoin.calm ((Calm.notice _ _).trans (Calm.labelled _ _ _ _))

/-- An observer of a watcher that does not run is taken off again. -/
theorem Leads.joinClosed (s : Session) (id : RegistrationId) (root : Path) (observer : Observer) (label : String)
    (h : s.watcher.state ≠ .running) : Leads s (s.join id root observer label .watch)
      ((s.table.join id observer).1.cancel (s.table.join id observer).2).1 s.watcher.state [] := by
  rw [join_closed s id root observer label h]
  have hjoin : Leads s ({ s with table := (s.table.join id observer).1 }.notice (.observerAttached root observer))
      (s.table.join id observer).1 s.watcher.state [] := (Leads.setTable s _).calm (Calm.notice _ _)
  exact (hjoin.trans (Leads.cancelHandle _ _)).calm (Calm.fail _ _)

/-- An observer that joins stays, or is revoked at once by a watcher that no longer runs. -/
theorem join_effect {root : Path} {id : RegistrationId} (hid : s.table.find? root = some id) (other : Path)
    (observer : Observer) (label : String) {purpose : AttachPurpose} (hopen : purpose = .watch ∨ Direct cause) :
    Effect cause s (s.join id other observer label purpose) := by
  by_cases hrunning : s.watcher.state = .running
  · exact Effect.joins hid (Leads.join s id other observer label (Or.inr hrunning)) (Or.inl hrunning)
  · cases purpose with
    | caller =>
      have hdirect : Direct cause := hopen.resolve_left (fun hc => nomatch hc)
      exact Effect.joins hid (Leads.join s id other observer label (Or.inl rfl)) (Or.inr hdirect)
    | watch => exact Effect.revokes hid (Leads.joinClosed s id other observer label hrunning)

/-- A capture begins: its frame comes on top. -/
theorem Leads.beginCapture (s : Session) (root : Path) : Leads s (s.beginCapture root) s.table s.watcher.state
    [.capturing { root, patterns := s.patterns, capturedAt := ((s.clock + 1 : Nat) : Int) } false] :=
  ⟨rfl, rfl, rfl, rfl, rfl, rfl, Nat.le_refl _, fun _ h => h, fun h => h⟩

/-- An attachment joins the registration in force, or begins with a capture. -/
theorem beginAttach_effect (s : Session) (root : Path) (observer : Observer) (label : String) {purpose : AttachPurpose}
    (hopen : purpose = .watch ∨ Direct cause) : Effect cause s (s.beginAttach root observer label purpose) := by
  unfold beginAttach
  split
  · rename_i id hid
    exact join_effect hid root observer label hopen
  · exact Effect.attaches ((Leads.push s _).trans (Leads.beginCapture _ root)) hopen

/-! ## Roots -/

/-- A root is resolved on a frame of its own. -/
theorem beginResolution_effect (s : Session) (p : Path) (purpose : ResolutionPurpose) :
    Effect cause s (s.beginResolution p purpose) :=
  Effect.push (Calm.refl s) trivial

/-- A request to watch is refused, or resolves its root. -/
theorem beginWatch_effect (s : Session) (root : RootArgument) (observer : Observer) (label : String) :
    Effect cause s (s.beginWatch root observer label) := by
  unfold beginWatch
  split
  · exact Effect.calm (Calm.fail s _)
  · split
    · exact Effect.calm (Calm.fail s _)
    · split
      · exact Effect.calm (Calm.fail s _)
      · split
        · exact Effect.calm (Calm.fail s _)
        · exact beginResolution_effect s _ _

/-- So does one to unwatch. -/
theorem beginUnwatch_effect (s : Session) (root : RootArgument) (observer : Observer) :
    Effect cause s (s.beginUnwatch root observer) := by
  unfold beginUnwatch
  split
  · exact Effect.calm (Calm.fail s _)
  · split
    · exact Effect.calm (Calm.fail s _)
    · exact beginResolution_effect s _ _

theorem beginCount_effect (s : Session) (root : RootArgument) : Effect cause s (s.beginCount root) := by
  unfold beginCount
  split
  · exact Effect.calm (Calm.fail s _)
  · exact beginResolution_effect s _ _

/-- With the root resolved, a watch looks at what stands there, an unwatch cancels handles and a count only answers. -/
theorem resolved_effect (s : Session) (purpose : ResolutionPurpose) (outcome : Except ResolutionError Path) :
    Effect cause s (s.resolved purpose outcome) := by
  unfold resolved
  split
  · exact Effect.calm (Calm.fail s _)
  · exact Effect.calm (Calm.fail s _)
  · exact Effect.push (Calm.refl s) trivial
  · exact Effect.cancels _ (((Leads.cancelHandles s _).calm (Calm.notice _ _)).calm (Calm.done _))
  · exact Effect.calm (Calm.reply s _)
  · exact Effect.calm (Calm.reply s _)

/-- A directory is attached to, anything else is refused. -/
theorem probed_effect (s : Session) (path : Path) (observer : Observer) (label : String) (r : Except CallError Info) :
    Effect cause s (s.probed path observer label r) := by
  unfold probed
  split
  · split
    · exact beginAttach_effect s path observer label (Or.inl rfl)
    · exact Effect.calm (Calm.fail s _)
  · split <;> exact Effect.calm (Calm.fail s _)
  · exact Effect.calm (Calm.fail s _)
  · exact Effect.calm (Calm.fail s _)

/-! ## Starting, stopping and closing -/

/-- A watcher that was only created starts. -/
theorem Leads.start (s : Session) (answer : Answer) (hstate : s.watcher.state = .created) :
    Leads s (s.start answer) s.table .running [] := by
  have hstart := Calm.startScheduler s
  have hrun : Leads s { s.startScheduler with watcher := { s.startScheduler.watcher with state := .running } }
      s.table .running [] :=
    (hstart.then (Leads.setState s.startScheduler .running)).cast hstart.table rfl
  unfold Session.start
  rw [hstate]
  exact hrun.calm ((Calm.notice _ _).trans (Calm.reply _ _))

/-- A watcher starts once, and only a new one. -/
theorem start_effect (s : Session) (answer : Answer) : Effect cause s (s.start answer) := by
  cases hstate : s.watcher.state with
  | created => exact Effect.starts (Leads.start s answer hstate) hstate
  | running =>
    unfold start
    rw [hstate]
    exact Effect.calm (Calm.reply s _)
  | closed =>
    unfold start
    rw [hstate]
    exact Effect.calm (Calm.fail s _)

/-- The table is cleared at the end of a close, unless clearing was made to fail. -/
theorem finishClose_leads (s : Session) : Leads s s.finishClose s.table.clear s.watcher.state [] ∨
    s.disabled.lookup .clear ≠ none ∧ Calm s s.finishClose := by
  unfold finishClose
  have htake := Calm.takeDisabled s .clear
  dsimp only
  split
  · rename_i hfails
    right
    exact ⟨disabled_of_takeDisabled hfails, htake.trans ((Calm.notice _ _).trans ((Calm.notice _ _).trans (Calm.done _)))⟩
  · left
    have hclear := htake.then (Leads.setTable (s.takeDisabled .clear).2 (s.takeDisabled .clear).2.table.clear)
    exact (hclear.cast (congrArg Table.clear htake.table) htake.state).calm ((Calm.notice _ _).trans (Calm.done _))

/-- A stop for its caller. -/
theorem beginStop_effect (s : Session) : Effect cause s (s.beginStop .caller) := by
  unfold beginStop
  have hstop : Calm s { s with scheduler := { s.scheduler with isStopped := true } } := Calm.scheduler s (Nat.le_refl _)
  dsimp only
  split
  · exact Effect.calm (hstop.trans ((Calm.shutPool _).trans ((Calm.notice _ _).trans (Calm.done _))))
  · exact Effect.push hstop rfl

/-- The first close of a watcher, after its state has been set. -/
theorem closing_effect (hopen : s.watcher.state ≠ .closed) (h : Leads s t s.table .closed []) :
    Effect cause s t.finishClose ∧ Effect cause s (t.beginStop .closing) := by
  have hfinish : ∀ {u}, Leads s u s.table .closed [] → Effect cause s u.finishClose := by
    intro u hu
    rcases finishClose_leads u with hclear | ⟨hbroken, hcalm⟩
    · rw [hu.table, hu.state] at hclear
      exact Effect.closed (hu.trans hclear)
    · exact Effect.closedUncleared (hu.calm hcalm) fun hnone => hbroken (hu.clear hnone)
  refine ⟨hfinish h, ?_⟩
  unfold beginStop
  have hstop : Calm t { t with scheduler := { t.scheduler with isStopped := true } } := Calm.scheduler t (Nat.le_refl _)
  dsimp only
  split
  · exact hfinish (h.calm (hstop.trans ((Calm.shutPool _).trans (Calm.notice _ _))))
  · have hpush := Leads.push { t with scheduler := { t.scheduler with isStopped := true } } (.stopping .closing)
    exact Effect.closes (((h.calm hstop).trans hpush).cast h.table h.state) hopen

/-- A close clears the table at once from inside a poll, and waits for the scheduler from outside. -/
theorem beginClose_effect (s : Session) : Effect cause s s.beginClose := by
  unfold beginClose
  split
  · split
    · exact Effect.calm (Calm.done s)
    · have htake := Calm.takeDisabled s .stop
      dsimp only
      split
      · exact Effect.calm (htake.trans ((Calm.notice _ _).trans (Calm.done _)))
      · exact Effect.after htake (beginStop_effect _)
  · rename_i hopen
    have hstate := Leads.setState s .closed
    have htake := hstate.calm (Calm.takeDisabled { s with watcher := { s.watcher with state := .closed } } .stop)
    dsimp only
    split
    · exact (closing_effect hopen (htake.calm (Calm.notice _ _))).1
    · exact (closing_effect hopen htake).2

/-- A release takes up what is parked. -/
theorem beginRelease_effect (s : Session) : Effect cause s s.beginRelease := by
  unfold beginRelease
  split
  · rename_i t ht
    exact Effect.unparks (Leads.push s .releasing) ht
  · exact Effect.calm (Calm.reply s _)

/-! ## All actions -/

/-- A change of the tree is made as asked for, or refused by the system. -/
theorem changeTree_effect {action : Action} (hcause : cause = some action) {r : Except OsError Disk}
    (h : ∀ disk, r = .ok disk → Rewrites action s.disk disk) : Effect cause s (s.changeTree r) := by
  unfold changeTree
  split
  · exact Effect.rewrites hcause (Calm.refl s) (h _ rfl)
  · exact Effect.calm (Calm.fail s _)

/-- Without a handle of that label nothing happens; with one, what is done with it is the effect. -/
theorem withHandle_effect {label : String} {f : HandleId → Handle → Registration → Session}
    (h : ∀ k handle r, Effect cause s (f k handle r)) : Effect cause s (s.withHandle label f) := by
  unfold withHandle
  split
  · exact Effect.calm (Calm.reply s _)
  · exact h _ _ _

/-- Beginning an action has one of the effects. -/
theorem perform_effect (s : Session) (action : Action) : Effect (some action) s (s.perform action) := by
  unfold perform
  cases action with
  | put path node => exact changeTree_effect rfl fun disk h => h
  | remove path => exact changeTree_effect rfl fun disk h => h
  | touch path mtime => exact changeTree_effect rfl fun disk h => h
  | setFault path kind fault => exact Effect.calm ((Calm.setFault s _ _ _).trans (Calm.done _))
  | changeDirectory path => exact Effect.rewrites rfl (Calm.refl s) rfl
  | start => exact start_effect s _
  | enter => exact start_effect s _
  | close => exact beginClose_effect s
  | exit => exact beginClose_effect s
  | watch root observer label => exact beginWatch_effect s _ _ _
  | unwatch root observer => exact beginUnwatch_effect s _ _
  | pollNow =>
    dsimp only
    split
    · exact Effect.calm (Calm.fail s _)
    · exact Effect.push (Calm.refl s) trivial
  | info => exact Effect.calm (Calm.reply s _)
  | observerCount root => exact beginCount_effect s _
  | attach root observer label => exact beginAttach_effect s _ _ _ (Or.inr ⟨root, observer, label, rfl⟩)
  | detach root observer => exact Effect.cancels _ ((Leads.cancelHandles s _).calm (Calm.reply _ _))
  | clear =>
    have htake := Calm.takeDisabled s .clear
    dsimp only
    split
    · exact Effect.calm (htake.trans (Calm.fail _ _))
    · have hclear := Leads.setTable (s.takeDisabled .clear).2 (s.takeDisabled .clear).2.table.clear
      exact Effect.after htake (Effect.clears (hclear.calm (Calm.done _)))
  | table => exact Effect.calm (Calm.reply s _)
  | count root => exact Effect.calm (Calm.reply s _)
  | cancel label =>
    refine withHandle_effect fun h _ _ => ?_
    exact Effect.cancels [h] ((Leads.cancelHandle s h).calm (Calm.done _))
  | handle label => exact withHandle_effect fun _ _ _ => Effect.calm (Calm.reply s _)
  | sameRegistration label other =>
    exact withHandle_effect fun _ _ _ => withHandle_effect fun _ _ _ => Effect.calm (Calm.reply s _)
  | baseline label => exact withHandle_effect fun _ _ _ => Effect.calm (Calm.reply s _)
  | poll label gate => exact withHandle_effect fun _ _ _ => Effect.polls (Leads.push s _)
  | tick => exact Effect.push (Calm.refl s) trivial
  | startScheduler => exact Effect.calm ((Calm.startScheduler s).trans (Calm.done _))
  | stopScheduler =>
    have htake := Calm.takeDisabled s .stop
    dsimp only
    split
    · exact Effect.calm (htake.trans (Calm.fail _ _))
    · exact Effect.after htake (beginStop_effect _)
  | scheduler => exact Effect.calm (Calm.reply s _)
  | release => exact beginRelease_effect s
  | loop rounds => exact Effect.push (Calm.refl s) trivial
  | shutPool => exact Effect.calm ((Calm.shutPool s).trans (Calm.done _))
  | disable operation times => exact Effect.disables rfl (Calm.refl s)
  | capture root => exact Effect.reports ((Leads.push s _).trans (Leads.beginCapture _ root))
  | resolve path => exact beginResolution_effect s _ _
  | raise => exact Effect.calm (Calm.fail s _)
  | abort => exact Effect.calm (Calm.fail s _)
  | park => exact Effect.calm (Calm.done s)
  | clearChanges => exact Effect.calm (Calm.done s)

end DirWatch.Session
