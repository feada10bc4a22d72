import DirWatch.Proofs.Session.Closing
import DirWatch.Proofs.Session.Modes

/-!
# The lifecycle of a watcher

A watcher is created, runs and is closed, and never goes back (`WatcherState.Becomes`). A close can come at any moment,
also in the middle of a capture that a watch is waiting for: the table is then cleared before the watch gets to it, and
what the watch attaches afterwards is taken off again. `Lifecycle` says what therefore holds of every session in which
the table and the scheduler are left to the watcher: nothing is watched unless it runs, and its scheduler goes on unless
it is closed (`lifecycle_of_run`).
-/

namespace DirWatch

/-- What the state of a watcher can become. -/
inductive WatcherState.Becomes : WatcherState → WatcherState → Prop
  | stays (state : WatcherState) : Becomes state state
  | starts : Becomes created running
  | closes (state : WatcherState) : Becomes state closed

/-- Whether a failure is about the state that the watcher is in. -/
def Failure.isState : Failure → Bool
  | .notRunning .. | .isClosed _ | .closedMeanwhile _ => true
  | _ => false

namespace Table

variable {t : Table}

/-- Without an active handle nothing is in force. -/
theorem Linked.current_nil (hl : t.Linked) (hidle : t.Idle) : t.current = [] := by
  refine List.eq_nil_iff_forall_not_mem.mpr ?_
  rintro ⟨root, id⟩ hmem
  obtain ⟨h, hlisted⟩ := List.exists_mem_of_ne_nil _ (hl.nonempty hmem)
  obtain ⟨handle, hget, hon, -⟩ := hl.listed hlisted
  rw [hidle h handle hget] at hon
  cases hon

end Table

namespace Session

open Table (Linked Idle)

/-- The failure with which an action is refused in the state that the watcher is in. -/
def refusal? (s : Session) : Action → Option Failure
  | .watch .. => if s.watcher.state = .running then none else some (.notRunning "watch_path" s.watcher.name s.watcher.state)
  | .unwatch .. => if s.watcher.state = .running then none else some (.notRunning "unwatch_path" s.watcher.name s.watcher.state)
  | .pollNow => if s.watcher.state = .running then none else some (.notRunning "poll_now" s.watcher.name s.watcher.state)
  | .start | .enter => if s.watcher.state = .closed then some (.isClosed s.watcher.name) else none
  | _ => none

/-- An action has ended at once with a failure about the state of the watcher, and has done nothing else. -/
structure Refused (s t : Session) (f : Failure) : Prop where
  reply : t.signal = some (.replied (.error f))
  failure : f.isState = true
  table : t.table = s.table
  scheduler : t.scheduler = s.scheduler
  watcher : t.watcher = s.watcher

/-- What holds of the life of a watcher, whatever happens to the session next. -/
structure Lifecycle (s : Session) : Prop where
  /-- The state only goes forward. -/
  advances : ∀ {t}, Move s t → s.watcher.state.Becomes t.watcher.state
  /-- Only a closed watcher has told its scheduler to stop. -/
  stopped : s.scheduler.isStopped = true → s.watcher.state = .closed
  /-- Unless a close is about to clear the table, a root is watched only while the watcher runs. -/
  watched : .stopping .closing ∉ s.frames → s.table.current ≠ [] → s.watcher.state = .running
  /-- So is a handle active. -/
  active : .stopping .closing ∉ s.frames → ∀ {h : HandleId} {handle : Handle}, s.table.handles[h]? = some handle →
    handle.active = true → s.watcher.state = .running
  /-- A watcher that has been closed has told its scheduler to stop, and no root is watched. -/
  closed : .stopping .closing ∉ s.frames → s.watcher.state = .closed → s.scheduler.isStopped = true ∧ s.table.current = []
  /-- What the state does not allow is refused. -/
  refused : ∀ {action u f}, Begins s action u → s.refusal? action = some f → Refused s (u.perform action) f

variable {cause : Option Action} {s t u : Session} {signal : Option Signal} {action : Action} {f : Failure}
  {log : List (RegistrationId × List Change)}

/-! ## The state goes forward -/

/-- A state may stay. -/
theorem becomes_of_eq {a b : WatcherState} (h : b = a) : a.Becomes b := h ▸ WatcherState.Becomes.stays a

/-- No action takes the state back. -/
theorem Effect.becomes (he : Effect cause s t) : s.watcher.state.Becomes t.watcher.state := by
  cases he with
  | quiet h _ => exact becomes_of_eq h.state
  | starts h hstate =>
    rw [hstate, h.state]
    exact WatcherState.Becomes.starts
  | cancels _ h => exact becomes_of_eq h.state
  | joins _ h _ => exact becomes_of_eq h.state
  | revokes _ h => exact becomes_of_eq h.state
  | attaches h _ => exact becomes_of_eq h.state
  | reports h => exact becomes_of_eq h.state
  | clears h => exact becomes_of_eq h.state
  | polls h => exact becomes_of_eq h.state
  | closes h _ => exact h.state ▸ WatcherState.Becomes.closes _
  | closed h => exact h.state ▸ WatcherState.Becomes.closes _
  | closedUncleared h _ => exact h.state ▸ WatcherState.Becomes.closes _
  | unparks h ht =>
    obtain ⟨above, rest, -, rfl⟩ := unpark?_eq ht
    exact becomes_of_eq h.state
  | rewrites _ hu _ => exact becomes_of_eq hu.state
  | disables _ hu => exact becomes_of_eq hu.state

/-- No step does, either. -/
theorem Turn.becomes {frame : Frame} (hturn : Turn cause s frame signal t) :
    s.watcher.state.Becomes t.watcher.state := by
  cases hturn with
  | acts _ h _ he => exact h.state ▸ he.becomes
  | startsJob _ h _ => exact becomes_of_eq h.state
  | stays h => exact becomes_of_eq h.state
  | unparks h ht =>
    obtain ⟨above, rest, -, rfl⟩ := unpark?_eq ht
    exact becomes_of_eq h.state
  | clears h => exact becomes_of_eq h.state
  | uncleared h _ => exact becomes_of_eq h.state
  | parks hu ht =>
    obtain ⟨above, below, -, -, rfl⟩ := park_eq ht
    exact becomes_of_eq hu.state
  | asks _ _ h => exact becomes_of_eq h.state
  | waits h => exact becomes_of_eq h.state
  | hands _ => exact becomes_of_eq rfl
  | attaches he _ => exact he.becomes
  | registers _ h _ => exact becomes_of_eq h.state
  | revokes _ h => exact becomes_of_eq h.state
  | enters _ _ h => exact becomes_of_eq h.state
  | compares _ h => exact becomes_of_eq h.state
  | passes h => exact becomes_of_eq h.state
  | calls _ _ hu => exact becomes_of_eq hu.state
  | ends _ _ hu => exact becomes_of_eq ((endPoll_leads _ _ _ _).state.trans hu.state)

/-- The state goes forward in every move. -/
theorem Move.becomes (hm : Move s t) : s.watcher.state.Becomes t.watcher.state := by
  cases hm with
  | act action _ => exact (perform_effect { s with signal := none } action).becomes
  | step ht =>
    obtain ⟨frame, below, -, hturn⟩ := step_turn ht
    exact hturn.becomes

/-! ## Nothing is attached before the start -/

/-- No handle becomes active while the watcher does not run, unless somebody attaches to the table itself. -/
theorem Effect.idle (he : Effect cause s t) (hdirect : ¬Direct cause) (hlinked : s.table.Linked) (hidle : s.table.Idle)
    (hstate : t.watcher.state ≠ .running) : t.table.Idle := by
  have hlinked' := he.edits.linked hlinked
  have hsame : t.table = s.table → t.table.Idle := fun heq => heq ▸ hidle
  cases he with
  | quiet h _ => exact hsame h.table
  | starts h _ => exact absurd h.state hstate
  | cancels hs h =>
    rw [h.table]
    exact idle_cancelEach hlinked hidle hs
  | joins _ h hopen => exact absurd (h.state.trans (hopen.resolve_right hdirect)) hstate
  | revokes hid h =>
    rw [h.table]
    exact Linked.idle_revoke hidle ((Table.Edit.join hid _).linked hlinked)
  | attaches h _ => exact hsame h.table
  | reports h => exact hsame h.table
  | clears h | closed h =>
    rw [h.table]
    exact fun _ _ hget => hlinked.inactive_clear hget
  | polls h => exact hsame h.table
  | closes h _ => exact hsame h.table
  | closedUncleared h _ => exact hsame h.table
  | unparks h ht => exact hsame ((unpark?_table ht).trans h.table)
  | rewrites _ hu _ => exact hsame hu.table
  | disables _ hu => exact hsame hu.table

/-- As long as the watcher does not run, a step attaches nothing that stays. -/
theorem Turn.idle {frame : Frame} (hturn : Turn cause s frame signal t) (hdirect : ¬Direct cause)
    (hframe : ¬AttachesDirectly frame) (hlinked : s.table.Linked) (hidle : s.table.Idle)
    (hstate : t.watcher.state ≠ .running) : t.table.Idle := by
  have hsame : t.table = s.table → t.table.Idle := fun heq => heq ▸ hidle
  cases hturn with
  | acts _ h _ he => exact he.idle hdirect (h.table ▸ hlinked) (h.table ▸ hidle) hstate
  | startsJob _ h _ => exact hsame h.table
  | stays h => exact hsame h.table
  | unparks h ht => exact hsame ((unpark?_table ht).trans h.table)
  | clears h =>
    rw [h.table]
    exact fun _ _ hget => hlinked.inactive_clear hget
  | uncleared h _ => exact hsame h.table
  | parks hu ht => exact hsame ((park_table ht).trans hu.table)
  | asks _ _ h => exact hsame h.table
  | waits h => exact hsame h.table
  | hands _ => exact hidle
  | @attaches root observer label purpose _ _ cause' he hpurpose =>
    refine he.idle ?_ hlinked hidle hstate
    rintro hcause
    rcases hpurpose with hnone | ⟨rfl, -⟩
    · rw [hnone] at hcause
      obtain ⟨_, _, _, heq⟩ := hcause
      cases heq
    · exact hframe trivial
  | @registers root observer label purpose baseline t hfree h hopen =>
    rcases hopen with rfl | hrunning
    · exact absurd trivial hframe
    · exact absurd (h.state.trans hrunning) hstate
  | @revokes root observer label purpose baseline t hfree h =>
    rw [h.table]
    have hregistered : (s.table.register root baseline).1.Idle := hidle
    exact Linked.idle_revoke hregistered ((Table.Edit.register hfree baseline observer).linked hlinked)
  | enters _ _ h =>
    rw [h.table]
    exact hidle
  | compares _ h => exact hsame h.table
  | passes h => exact hsame h.table
  | calls _ _ hu => exact hsame hu.table
  | @ends id owner _ _ _ _ outcome u _ _ hu =>
    rw [(endPoll_leads u id owner outcome).table, hu.table]
    exact idle_endTable hidle id outcome

/-- A watcher that has not been started has no active handle. -/
theorem idle_of_created {w : World} (hs : Opens w s) (h : Run OfWatcher s log t) (hcreated : t.watcher.state = .created) :
    t.table.Idle := by
  have hnotdirect : ∀ {cause : Option Action}, (∀ action, cause = some action → OfWatcher action) → ¬Direct cause := by
    rintro cause hcause ⟨root, observer, label, heq⟩
    exact hcause _ heq
  have hstays : ∀ {a b : WatcherState}, a.Becomes b → b = .created → a = .created := by
    rintro a b hab rfl
    cases hab
    rfl
  induction h with
  | refl =>
    rw [hs.fresh.table]
    exact fun _ _ hget => nomatch hget
  | @act log t action hrun hrest ha ih =>
    have hbefore := hstays (Move.act action hrest).becomes hcreated
    refine (perform_effect { t with signal := none } action).idle (hnotdirect ?_) (guarded_of_run hs hrun).linked (ih hbefore) ?_
    · rintro _ ⟨⟩
      exact ha
    · rw [hcreated]
      exact fun hc => nomatch hc
  | @step log t u hrun hstep ha ih =>
    have hbefore := hstays (Move.step hstep).becomes hcreated
    have hguarded := guarded_of_run hs hrun
    obtain ⟨frame, below, hstack, hturn⟩ := step_turn hstep
    refine hturn.idle (hnotdirect ha) (hguarded.attaching frame (top_mem_frames hstack)) hguarded.linked (ih hbefore) ?_
    rw [hcreated]
    exact fun hc => nomatch hc

/-! ## The scheduler stops with the watcher -/

/-- Nothing is made to make a stop fail, and the scheduler has been told to stop if and only if the watcher is closed. -/
structure Mode.Sound (m : Mode) : Prop where
  failing : m.failing = none
  stopped : m.isStopped = true ↔ m.state = .closed

/-- An action of a user tells the scheduler to stop only as it closes the watcher. -/
theorem Mode.Sound.perform (h : s.mode.Sound) (ha : action.isOfUser = true) : (s.perform action).mode.Sound := by
  have hstart : ∀ answer, (s.start answer).mode.Sound := by
    intro answer
    rw [mode_start]
    split
    · rename_i hcreated
      refine ⟨h.failing, ?_⟩
      have hnot : ¬s.mode.isStopped = true := by
        rw [h.stopped]
        change ¬s.watcher.state = .closed
        rw [hcreated]
        exact fun hc => nomatch hc
      exact ⟨fun hc => absurd hc hnot, fun hc => nomatch hc⟩
    · exact h
  have hclose : s.beginClose.mode.Sound := by
    by_cases hclosed : s.watcher.state = .closed
    · rw [mode_beginClose_closed h.failing hclosed]
      refine ⟨h.failing, fun _ => hclosed, fun _ => ?_⟩
      rw [h.stopped.mpr hclosed, Bool.true_or]
    · rw [mode_beginClose_open h.failing hclosed]
      exact ⟨rfl, fun _ => rfl, fun _ => rfl⟩
  cases hsteers : action.steers with
  | false => rwa [perform_mode s hsteers]
  | true =>
    cases action with
    | start | enter => exact hstart _
    | close | exit => exact hclose
    | stopScheduler => cases ha
    | disable operation times =>
      cases operation with
      | stop | clear => cases ha
      | registrations => cases hsteers
    | _ => cases hsteers

/-- So the scheduler is told to stop with the watcher, on every run. -/
theorem sound_of_run {w : World} (hs : Opens w s) (h : Run (fun action => action.isOfUser = true) s log t) : t.mode.Sound := by
  refine h.keeps_mode Mode.Sound.perform ?_
  rw [hs.mode]
  exact ⟨rfl, fun hc => absurd hc Bool.false_ne_true, fun hc => absurd hc hs.fresh.open_⟩

/-! ## What is refused -/

/-- To fail at once with a failure about the state is to be refused. -/
theorem fail_refused (hu : Prepared s u) (hf : f.isState = true) : Refused s (u.fail f) f :=
  ⟨rfl, hf, hu.table, hu.scheduler, hu.watcher⟩

/-- What the state does not allow fails at once. -/
theorem perform_refused (hu : Prepared s u) (hf : s.refusal? action = some f) : Refused s (u.perform action) f := by
  have hrequire : ∀ operation, u.requireRunning operation = s.requireRunning operation := by
    intro operation
    rw [requireRunning, hu.watcher, requireRunning]
  have hnot : ∀ operation, s.watcher.state ≠ .running →
      s.requireRunning operation = .error (.notRunning operation s.watcher.name s.watcher.state) := fun _ h => if_neg h
  have hstart : ∀ answer, s.watcher.state = .closed → u.start answer = u.fail (.isClosed s.watcher.name) := by
    intro answer hclosed
    rw [start, hu.watcher, hclosed]
  cases action with
  | watch root observer label =>
    rw [refusal?] at hf
    split at hf
    · cases hf
    · rename_i hstate
      cases hf
      rw [perform, beginWatch, hrequire, hnot _ hstate]
      exact fail_refused hu rfl
  | unwatch root observer =>
    rw [refusal?] at hf
    split at hf
    · cases hf
    · rename_i hstate
      cases hf
      rw [perform, beginUnwatch, hrequire, hnot _ hstate]
      exact fail_refused hu rfl
  | pollNow =>
    rw [refusal?] at hf
    split at hf
    · cases hf
    · rename_i hstate
      cases hf
      rw [perform, hrequire, hnot _ hstate]
      exact fail_refused hu rfl
  | start | enter =>
    rw [refusal?] at hf
    split at hf
    · rename_i hclosed
      cases hf
      rw [perform, hstart _ hclosed]
      exact fail_refused hu rfl
    · cases hf
  | _ => cases hf

/-- In every session in which the table and the scheduler are left to the watcher, its lifecycle is in order: whatever
is issued from outside, by observers or in the middle of a capture. -/
theorem lifecycle_of_run {w : World} (hs : Opens w s) (h : Run (fun action => action.isOfUser = true) s log t) : Lifecycle t := by
  have hguarded := guarded_of_run hs h.ofWatcher
  have hsound := sound_of_run hs h
  have hidle : .stopping .closing ∉ t.frames → t.watcher.state ≠ .running → t.table.Idle := by
    intro hnone hstate
    cases hcase : t.watcher.state with
    | created => exact idle_of_created hs h.ofWatcher hcase
    | running => exact absurd hcase hstate
    | closed => exact (hguarded.closed hcase).resolve_left hnone
  exact
    { advances := Move.becomes
      stopped := hsound.stopped.mp
      watched := by
        intro hnone hcurrent
        by_contra hstate
        exact hcurrent (hguarded.linked.current_nil (hidle hnone hstate))
      active := by
        intro hnone k handle hget hon
        by_contra hstate
        rw [hidle hnone hstate k handle hget] at hon
        cases hon
      closed := by
        intro hnone hclosed
        refine ⟨hsound.stopped.mpr hclosed, hguarded.linked.current_nil (hidle hnone ?_)⟩
        rw [hclosed]
        exact fun hc => nomatch hc
      refused := fun hb hf => perform_refused hb.prepared hf }

/-- A world in which the watcher is closed while the directory `/w` is listed. -/
def overtaken : World where
  disk := { root := .directory [("w", .directory [] 1)] 0 }
  faults := [(("/w", .list), .precede [.close])]

def overtakenWatcher : Session :=
  (createRunning overtaken {}).toOption.getD default

/-- The close has come between the first check of a watch and its attachment. -/
def overtakenWatch : Session :=
  overtakenWatcher.after (.watch (.path ⟨.root, ["w"]⟩) (.named "a" (.text "a")) "a") 12

/-- Whether a watch was told that the watcher has been closed meanwhile. -/
def isOvertaken (s : Session) : Bool :=
  match s.signal with
  | some (.replied (.error (.closedMeanwhile _))) => true
  | _ => false

/-- The watch fails, and nothing is left of it in the table. -/
theorem lifecycle_of_run_overtaken : Lifecycle overtakenWatch ∧ overtakenWatch.isOvertaken = true ∧
    overtakenWatch.table.handles.size = 1 ∧ overtakenWatch.scheduler.isStopped = true ∧
    overtakenWatch.table.current = [] := by
  have hopens : Opens overtaken overtakenWatcher := Opens.running_of_isSome (by decide +kernel)
  have hrun : Run (fun action => action.isOfUser = true) overtakenWatcher _ overtakenWatch :=
    Run.refl.actsWithin (p := Action.isOfUser) (by decide +kernel) rfl (by decide +kernel)
  have hlife := lifecycle_of_run hopens hrun
  have hframes : overtakenWatch.frames.isEmpty = true := by decide +kernel
  have hnone : .stopping .closing ∉ overtakenWatch.frames := by
    rw [List.isEmpty_iff.mp hframes]
    exact List.not_mem_nil
  obtain ⟨hstopped, hcurrent⟩ := hlife.closed hnone (by decide +kernel)
  exact ⟨hlife, by decide +kernel, by decide +kernel, hstopped, hcurrent⟩

end Session

end DirWatch
