import DirWatch.Proofs.Capture.Termination
import DirWatch.Proofs.Session.Loops
import DirWatch.Proofs.Session.Retries

/-!
# Polls that nothing interferes with

If all that observers and faults do is to fail, a poll of a job runs to its end by itself (`steps_poll`). What it finds,
whom it calls and the baseline it leaves are read off the outcome of its capture, the baseline before it and the
observers attached. It does nothing to other registrations.
-/

namespace DirWatch

/-! ## The outcome of a poll -/

/-- What a poll finds if its capture comes out so. -/
def Snapshot.changesTo (baseline : Snapshot) : Except CaptureError Snapshot → List Change
  | .ok captured => (diff (some baseline) captured).changes
  | .error _ => []

/-- The baseline that the poll leaves. -/
def Snapshot.following (baseline : Snapshot) : Except CaptureError Snapshot → Snapshot
  | .ok captured => (diff (some baseline) captured).baseline
  | .error _ => baseline

namespace Snapshot

variable {baseline other : Snapshot} {outcome : Except CaptureError Snapshot}

/-- What a poll finds does not depend on when it captured. -/
theorem changesTo_timed (baseline : Snapshot) (outcome : Except CaptureError Snapshot) (time : Int) :
    baseline.changesTo (outcome.map (·.timed time)) = baseline.changesTo outcome := by
  cases outcome with
  | ok captured => exact changes_diff_timed _ _ _
  | error e => rfl

/-- Nor does the tree that it leaves. -/
theorem following_timed (baseline : Snapshot) (outcome : Except CaptureError Snapshot) (time : Int) :
    (baseline.following (outcome.map (·.timed time))).tree = (baseline.following outcome).tree := by
  cases outcome with
  | ok captured =>
    obtain ⟨root, tree, capturedAt⟩ := captured
    cases tree <;> rfl
  | error e => rfl

/-- Only the tree of the baseline matters. -/
theorem diff_congr (h : baseline.tree = other.tree) (captured : Snapshot) :
    diff (some baseline) captured = diff (some other) captured := by
  unfold diff
  rw [Option.bind_some, Option.bind_some, h]

/-- What a poll finds depends on the tree of the baseline alone. -/
theorem changesTo_congr (h : baseline.tree = other.tree) : baseline.changesTo outcome = other.changesTo outcome := by
  cases outcome with
  | ok captured => exact congrArg Change.Report.changes (diff_congr h captured)
  | error e => rfl

theorem following_congr (h : baseline.tree = other.tree) :
    (baseline.following outcome).tree = (other.following outcome).tree := by
  cases outcome with
  | ok captured => exact congrArg (fun r : Change.Report => r.baseline.tree) (diff_congr h captured)
  | error e => exact h

end Snapshot

/-! ## Tables -/

namespace Table

variable {table : Table} {id : RegistrationId}

/-- A change that changes nothing. -/
theorem modifyRegistration_self {f : Registration → Registration} (h : ∀ r, table.registrations[id]? = some r → f r = r) :
    table.modifyRegistration id f = table := by
  have hsame : table.registrations.modify id f = table.registrations := by
    refine Array.ext_getElem? fun k => ?_
    rw [Array.getElem?_modify]
    split
    · rename_i heq
      subst heq
      cases hr : table.registrations[id]? with
      | none => rfl
      | some r => exact congrArg some (h r hr)
    · rfl
  rw [modifyRegistration, hsame]

/-- Two changes to one registration are one change. -/
theorem modifyRegistration_modifyRegistration (f g : Registration → Registration) :
    (table.modifyRegistration id f).modifyRegistration id g = table.modifyRegistration id fun r => g (f r) := by
  have hboth : (table.registrations.modify id f).modify id g = table.registrations.modify id fun r => g (f r) := by
    refine Array.ext_getElem? fun k => ?_
    rw [Array.getElem?_modify, Array.getElem?_modify, Array.getElem?_modify]
    split
    · exact Option.map_map g f _
    · rfl
  exact congrArg (fun registrations => { table with registrations }) hboth

/-- Of two marks, the later one counts. -/
theorem setPolling_setPolling (polling polling' : Bool) :
    (table.setPolling id polling).setPolling id polling' = table.setPolling id polling' :=
  modifyRegistration_modifyRegistration _ _

/-- A registration that is not being polled stays so. -/
theorem setPolling_idle {r : Registration} (hr : table.registrations[id]? = some r) (hidle : r.polling = false) :
    table.setPolling id false = table := by
  refine modifyRegistration_self fun r' hr' => ?_
  rw [hr] at hr'
  cases hr'
  rw [← hidle]

/-- The baseline of a registration is replaced by itself. -/
theorem setBaseline_self {r : Registration} (hr : table.registrations[id]? = some r) :
    table.setBaseline id r.baseline = table := by
  refine modifyRegistration_self fun r' hr' => ?_
  rw [hr] at hr'
  cases hr'
  rfl

end Table

namespace Session

open Capture (Ends)

/-- Steps that follow each other, each with the session before it and the session after it. -/
inductive Steps : Session → List (Session × Session) → Session → Prop
  | refl {s} : Steps s [] s
  | step {s t u ms} (ht : s.step = some t) (h : Steps t ms u) : Steps s ((s, t) :: ms) u

/-- The calls that polls of a registration make at the turns they give. -/
def callsFor (id : RegistrationId) (ms : List (Session × Session)) : List (Observer × List Change) :=
  (servicesOf id ms).flatMap (·.calls)

/-- An action of an observer that can only make its call fail. -/
def isMild : Action → Bool
  | .raise | .clearChanges => true
  | _ => false

/-- Whether no observer does more in a call than to fail. -/
def isDocile (s : Session) : Bool :=
  s.scripts.all fun entry => entry.2.all fun actions => actions.all isMild

/-- What captures and observers depend on is left alone. -/
structure Sheltered (s t : Session) : Prop where
  disk : t.disk = s.disk
  faults : t.faults = s.faults
  patterns : t.patterns = s.patterns
  docile : s.isDocile = true → t.isDocile = true

/-- Steps that make these calls for a registration and none for others, and change nothing else. -/
structure Serves (id : RegistrationId) (calls : List (Observer × List Change)) (s : Session) (ms : List (Session × Session))
    (t : Session) : Prop where
  steps : Steps s ms t
  sheltered : Sheltered s t
  table : t.table = s.table
  scheduler : t.scheduler = s.scheduler
  calls : callsFor id ms = calls
  others : ∀ k ≠ id, callsFor k ms = []

/-- The call of a delivery through one handle, if there is one. -/
def owedTo (table : Table) (changes : List Change) (h : HandleId) : List (Observer × List Change) :=
  match table.handles[h]? with
  | some handle => if handle.active && handle.observer.isCallable then [(handle.observer, changes)] else []
  | none => []

/-- The calls of a poll that finds these changes. -/
def callsOn (table : Table) (id : RegistrationId) (changes : List Change) : List (Observer × List Change) :=
  if changes.isEmpty then [] else (table.handlesOf id).flatMap (owedTo table changes)

/-- A poll of a job runs to its end by itself: the job has found these changes, the poll makes these calls, and the
registration gets this baseline. -/
structure Polled (id : RegistrationId) (a : JobId) (changes : List Change) (calls : List (Observer × List Change))
    (baseline : Snapshot) (s : Session) (ms : List (Session × Session)) (t : Session) : Prop where
  steps : Steps s ms t
  sheltered : Sheltered s t
  table : t.table = (s.table.setPolling id false).setBaseline id baseline
  scheduler : t.scheduler = s.scheduler.leave a (.ok changes)
  calls : callsFor id ms = calls
  others : ∀ k ≠ id, callsFor k ms = []

variable {s t u : Session} {ms more : List (Session × Session)} {id k : RegistrationId} {owner : PollOwner} {below : List Frame}
  {r : Registration} {report : Change.Report} {waiting : List HandleId} {current : Option HandleId} {h : HandleId} {a : JobId}
  {outcome : Except CaptureError Snapshot}

/-! ## Steps -/

/-- The step of a poll in control. -/
theorem step_polling {gate : Gate} {stage : PollStage} (hstack : s.stack = .polling id owner gate stage :: below) :
    s.step = (s.popped below).stepPoll s.signal id owner gate stage := by
  unfold step
  rw [hstack]
  rfl

theorem Steps.single (ht : s.step = some t) : Steps s [(s, t)] t :=
  Steps.step ht Steps.refl

theorem Steps.trans (hs : Steps s ms t) (ht : Steps t more u) : Steps s (ms ++ more) u := by
  induction hs with
  | refl => exact ht
  | step hstep _ ih => exact Steps.step hstep (ih ht)

/-- Steps that follow each other are the first ones of the session. -/
theorem Steps.run (hs : Steps s ms t) : ∃ n, movesOf n s = ms ∧ Session.run n s = t := by
  induction hs with
  | refl => exact ⟨0, rfl, rfl⟩
  | step hstep _ ih =>
    obtain ⟨n, hmoves, hrun⟩ := ih
    refine ⟨n + 1, ?_, ?_⟩
    · rw [movesOf, hstep, ← hmoves]
    · rw [Session.run, hstep, ← hrun]

/-- There is one way only to where no step is left. -/
theorem Steps.unique (hs : Steps s ms t) (hs' : Steps s more u) (ht : t.step = none) (hu : u.step = none) :
    ms = more ∧ t = u := by
  induction hs generalizing more with
  | refl =>
    cases hs' with
    | refl => exact ⟨rfl, rfl⟩
    | step hstep _ =>
      rw [ht] at hstep
      cases hstep
  | step hstep _ ih =>
    cases hs' with
    | refl =>
      rw [hu] at hstep
      cases hstep
    | step hstep' hrest =>
      rw [hstep] at hstep'
      cases hstep'
      obtain ⟨rfl, rfl⟩ := ih hrest ht
      exact ⟨rfl, rfl⟩

/-- The listed moves of a session are its first steps. -/
theorem steps_run (n : Nat) (s : Session) : Steps s (movesOf n s) (Session.run n s) := by
  induction n generalizing s with
  | zero => exact Steps.refl
  | succ n ih =>
    rw [movesOf, Session.run]
    cases ht : s.step with
    | none => exact Steps.refl
    | some t => exact Steps.step ht (ih t)

@[simp] theorem callsFor_nil (id : RegistrationId) : callsFor id [] = [] := rfl

/-- The calls of more steps come after those of the first. -/
theorem callsFor_append (id : RegistrationId) (ms more : List (Session × Session)) :
    callsFor id (ms ++ more) = callsFor id ms ++ callsFor id more := by
  rw [callsFor, servicesOf, List.filterMap_append, List.flatMap_append]
  rfl

/-- Without a step of a poll of the registration nobody is called for it. -/
theorem callsFor_of_polled (hms : ∀ m ∈ ms, m.1.polled? ≠ some id) : callsFor id ms = [] := by
  have hnone : servicesOf id ms = [] := List.filterMap_eq_nil_iff.mpr fun m hm => serviceOf?_of_polled (hms m hm)
  rw [callsFor, hnone]
  rfl

/-- Steps in which no poll is in control call nobody through a poll. -/
theorem callsFor_unpolled (hms : ∀ m ∈ ms, m.1.polled? = none) (k : RegistrationId) : callsFor k ms = [] := by
  refine callsFor_of_polled fun m hm => ?_
  rw [hms m hm]
  exact (Option.some_ne_none k).symm

theorem callsFor_quiet (hnone : s.polled? = none) (t : Session) (k : RegistrationId) : callsFor k [(s, t)] = [] :=
  callsFor_unpolled (fun _ hm => List.mem_singleton.mp hm ▸ hnone) k

/-- A step that gives no turn calls nobody. -/
theorem callsFor_single (hnone : serviceOf? id (s, t) = none) : callsFor id [(s, t)] = [] := by
  rw [callsFor, servicesOf, List.filterMap_cons_none hnone]
  rfl

/-- A step of a poll calls nobody, unless a handle gets its turn. -/
theorem callsFor_stage {gate : Gate} {stage : PollStage} (hstack : s.stack = .polling id owner gate stage :: below)
    (hstage : ∀ current h waiting report, stage ≠ .delivering current (h :: waiting) report) (t : Session)
    (k : RegistrationId) :
    callsFor k [(s, t)] = [] := by
  refine callsFor_single ?_
  by_cases hk : k = id
  · subst hk
    exact serviceOf?_of_stage hstack hstage
  · refine serviceOf?_of_polled ?_
    rw [polled?_of_stack hstack]
    exact fun heq => hk (Option.some.inj heq).symm

/-! ## What is left alone -/

theorem Sheltered.refl (s : Session) : Sheltered s s :=
  ⟨rfl, rfl, rfl, fun hd => hd⟩

theorem Sheltered.trans (hs : Sheltered s t) (ht : Sheltered t u) : Sheltered s u where
  disk := ht.disk.trans hs.disk
  faults := ht.faults.trans hs.faults
  patterns := ht.patterns.trans hs.patterns
  docile := fun hd => ht.docile (hs.docile hd)

/-- What is undisturbed is sheltered. -/
theorem Undisturbed.sheltered (hs : Undisturbed s t) : Sheltered s t :=
  ⟨hs.disk, hs.faults, hs.patterns, fun hd => by rwa [isDocile, hs.scripts]⟩

/-- Calls on the files are answered as before. -/
theorem Sheltered.answerTo? (hs : Sheltered s t) (call : Call) : t.answerTo? call = s.answerTo? call :=
  answerTo?_congr (by rw [faultOf?, faultOf?, hs.faults, hs.disk]) (by rw [hs.disk])

/-- A poll goes on to its end after it has made some calls. -/
theorem Serves.polled {calls calls' : List (Observer × List Change)} {changes : List Change} {baseline : Snapshot}
    (hs : Serves id calls s ms t) (ht : Polled id a changes calls' baseline t more u) :
    Polled id a changes (calls ++ calls') baseline s (ms ++ more) u where
  steps := hs.steps.trans ht.steps
  sheltered := hs.sheltered.trans ht.sheltered
  table := by rw [ht.table, hs.table]
  scheduler := by rw [ht.scheduler, hs.scheduler]
  calls := by rw [callsFor_append, hs.calls, ht.calls]
  others := fun k hk => by rw [callsFor_append, hs.others k hk, ht.others k hk]; rfl

/-- An observer takes one of its scripts, and is docile afterwards. -/
theorem takeScript_docile (hd : s.isDocile = true) (name : String) : (s.takeScript name).1.all isMild = true ∧
    Sheltered s (s.takeScript name).2 ∧ (s.takeScript name).2.table = s.table ∧
    (s.takeScript name).2.scheduler = s.scheduler ∧ (s.takeScript name).2.stack = s.stack ∧
    (s.takeScript name).2.trace = s.trace := by
  unfold takeScript
  split
  · rename_i actions rest hlookup
    have hentry := List.all_eq_true.mp hd _ (Listing.mem_of_lookup hlookup)
    rw [List.all_cons, Bool.and_eq_true] at hentry
    refine ⟨hentry.1, ⟨rfl, rfl, rfl, fun _ => ?_⟩, rfl, rfl, rfl, rfl⟩
    refine List.all_eq_true.mpr fun entry hmem => ?_
    obtain ⟨old, hold, rfl⟩ := List.mem_map.mp hmem
    split
    · exact hentry.2
    · exact List.all_eq_true.mp hd old hold
  · exact ⟨rfl, Sheltered.refl s, rfl, rfl, rfl, rfl⟩

/-! ## Calls of observers -/

/-- A docile observer returns from its call, or fails in an ordinary way. -/
theorem steps_observing {received : List Change} {actions : List Action}
    (hstack : s.stack = .observing h received actions none :: below) (hmild : actions.all isMild = true) :
    ∃ ms t, Steps s ms t ∧ t.stack = below ∧ aborts t.signal = false ∧ Undisturbed s t ∧ ∀ k, callsFor k ms = [] := by
  have hstep : ∀ {s : Session} {received actions}, s.stack = .observing h received actions none :: below →
      s.step = (s.popped below).stepObserver s.signal h received actions none ∧ ∀ k t, callsFor k [(s, t)] = [] := by
    intro s received actions hstack
    refine ⟨?_, fun k t => callsFor_quiet ?_ t k⟩
    · unfold step
      rw [hstack]
      rfl
    · rw [polled?, hstack]
  induction actions generalizing s received with
  | nil =>
    obtain ⟨hnext, hsilent⟩ := hstep hstack
    exact ⟨_, _, Steps.single hnext, rfl, rfl, ⟨rfl, rfl, rfl, rfl, rfl, rfl⟩, fun k => hsilent k _⟩
  | cons action actions ih =>
    obtain ⟨hnext, hsilent⟩ := hstep hstack
    rw [List.all_cons, Bool.and_eq_true] at hmild
    cases action with
    | raise => exact ⟨_, _, Steps.single hnext, rfl, rfl, ⟨rfl, rfl, rfl, rfl, rfl, rfl⟩, fun k => hsilent k _⟩
    | clearChanges =>
      have hgoes : ((s.popped below).push (.observing h [] actions none)).stack = .observing h [] actions none :: below := rfl
      obtain ⟨ms, t, hsteps, hbelow, hsignal, hsame, hrest⟩ := ih hgoes hmild.2
      have hfirst : Undisturbed s ((s.popped below).push (.observing h [] actions none)) := ⟨rfl, rfl, rfl, rfl, rfl, rfl⟩
      refine ⟨_, t, (Steps.single hnext).trans hsteps, hbelow, hsignal, hfirst.trans hsame, fun k => ?_⟩
      rw [callsFor_append, hrest, hsilent]
      rfl
    | _ => cases hmild.1

/-! ## Deliveries -/

/-- Noting that an observer failed is all that happens before the next turn. -/
theorem reportFailed_undisturbed (s : Session) (root : Path) (current : Option HandleId) (report : Change.Report) :
    Undisturbed s (s.reportFailed root current report) ∧ (s.reportFailed root current report).stack = s.stack ∧
      (s.reportFailed root current report).signal = s.signal ∧ (s.reportFailed root current report).calls = s.calls := by
  unfold reportFailed
  split
  · exact ⟨⟨rfl, rfl, rfl, rfl, rfl, rfl⟩, rfl, rfl, rfl⟩
  · exact ⟨Undisturbed.refl s, rfl, rfl, rfl⟩

/-- A delivery that is not aborted goes on. -/
theorem step_delivering (hstack : s.stack = .polling id owner .scheduler (.delivering current waiting report) :: below)
    (hr : s.table.registrations[id]? = some r) (hsignal : aborts s.signal = false) :
    ∃ u, s.step = some (u.deliver id owner .scheduler waiting report) ∧ Undisturbed s u ∧ u.stack = below ∧
    u.signal = none ∧
      u.calls = s.calls := by
  have hstep := step_polling hstack
  have hr' : (s.popped below).table.registrations[id]? = some r := hr
  have hpopped := Undisturbed.popped s below
  rw [hstep, stepPoll, hr']
  cases hs : s.signal with
  | none => exact ⟨s.popped below, rfl, hpopped, rfl, rfl, rfl⟩
  | some signal =>
    cases signal with
    | raised f =>
      rw [hs] at hsignal
      obtain ⟨hsame, hbelow, hquiet, hcalls⟩ := reportFailed_undisturbed (s.popped below) r.root current report
      refine ⟨(s.popped below).reportFailed r.root current report, ?_, hpopped.trans hsame, hbelow, hquiet, hcalls⟩
      exact if_neg (Bool.eq_false_iff.mp hsignal)
    | _ => exact ⟨s.popped below, rfl, hpopped, rfl, rfl, rfl⟩

/-- A turn calls nobody, or it calls an observer. -/
theorem deliver_cases (hr : s.table.registrations[id]? = some r) (hopen : s.scheduler.isStopped = false)
    (hdocile : s.isDocile = true) {v : Session} (hv : s.deliver id owner .scheduler (h :: waiting) report = v) :
    (∃ current, v.stack = .polling id owner .scheduler (.delivering current waiting report) :: s.stack ∧
      v.signal = s.signal ∧ Undisturbed s v ∧ v.calls = s.calls ∧ owedTo s.table report.changes h = []) ∨
    ∃ observer received actions, v.stack = .observing h received actions none ::
        .polling id owner .scheduler (.delivering (some h) waiting report) :: s.stack ∧ actions.all isMild = true ∧
      Sheltered s v ∧ v.table = s.table ∧ v.scheduler = s.scheduler ∧ v.calls = (observer, report.changes) :: s.calls ∧
      owedTo s.table report.changes h = [(observer, report.changes)] := by
  have hgate : s.passGate .scheduler = (true, .scheduler) := by
    rw [passGate, hopen]
    rfl
  unfold deliver at hv
  rw [hgate] at hv
  dsimp only at hv
  rw [if_neg (by simp), hr] at hv
  cases hget : s.table.handles[h]? with
  | none =>
    rw [hget] at hv
    subst hv
    exact Or.inl ⟨none, rfl, rfl, ⟨rfl, rfl, rfl, rfl, rfl, rfl⟩, rfl, by rw [owedTo, hget]⟩
  | some handle =>
    rw [hget] at hv
    dsimp only at hv
    have howed : owedTo s.table report.changes h =
        if handle.active && handle.observer.isCallable then [(handle.observer, report.changes)] else [] := by
      rw [owedTo, hget]
    rw [howed]
    by_cases hactive : handle.active = true
    · rw [if_pos hactive] at hv
      rw [hactive, Bool.true_and]
      -- what is no callable cannot be called; the printer has no script, and any other observer takes its next one
      cases hobserver : handle.observer with
      | plain value =>
        rw [hobserver] at hv
        subst hv
        exact Or.inl ⟨some h, rfl, rfl, ⟨rfl, rfl, rfl, rfl, rfl, rfl⟩, rfl, rfl⟩
      | printer number title =>
        rw [hobserver] at hv
        subst hv
        exact Or.inr ⟨_, _, _, rfl, rfl, ⟨rfl, rfl, rfl, fun hd => hd⟩, rfl, rfl, rfl, rfl⟩
      | named name key =>
        rw [hobserver] at hv
        obtain ⟨hmild, hsheltered, htable, hscheduler, hstack, htrace⟩ := takeScript_docile
          (s := s.push (.polling id owner .scheduler (.delivering (some h) waiting report))) hdocile name
        subst hv
        refine Or.inr ⟨_, _, _, congrArg (_ :: ·) hstack, hmild,
          ⟨hsheltered.disk, hsheltered.faults, hsheltered.patterns, hsheltered.docile⟩, htable, hscheduler, ?_, rfl⟩
        exact congrArg (_ :: ·) (congrArg _ htrace)
    · rw [if_neg hactive] at hv
      subst hv
      refine Or.inl ⟨none, rfl, rfl, ⟨rfl, rfl, rfl, rfl, rfl, rfl⟩, rfl, if_neg ?_⟩
      simp [hactive]

/-- A handle gets its turn, and the delivery goes on. -/
theorem steps_turn (hstack : s.stack = .polling id owner .scheduler (.delivering current (h :: waiting) report) :: below)
    (hr : s.table.registrations[id]? = some r) (hsignal : aborts s.signal = false) (hopen : s.scheduler.isStopped = false)
    (hdocile : s.isDocile = true) : ∃ ms t current, Serves id (owedTo s.table report.changes h) s ms t ∧
      t.stack = .polling id owner .scheduler (.delivering current waiting report) :: below ∧ aborts t.signal = false := by
  obtain ⟨u, hstep, hsame, hbelow, hquiet, hcalls⟩ := step_delivering hstack hr hsignal
  have hother : ∀ k ≠ id, ∀ v, callsFor k [(s, v)] = [] := by
    intro k hk v
    refine callsFor_of_polled fun m hm => ?_
    rw [List.mem_singleton.mp hm, polled?_of_stack hstack]
    exact fun heq => hk (Option.some.inj heq).symm
  have hours : ∀ v, callsFor id [(s, v)] = callsOf (s, v) := by
    intro v
    rw [callsFor, servicesOf, List.filterMap_cons_some (serviceOf?_of_stack hstack hsignal)]
    exact List.append_nil _
  generalize hserved : u.deliver id owner .scheduler (h :: waiting) report = v at hstep
  have hturn := deliver_cases (hsame.table ▸ hr) (hsame.scheduler ▸ hopen) (hsame.sheltered.docile hdocile) hserved
  rw [hsame.table, hbelow] at hturn
  rcases hturn with ⟨next, hv, hnone, huv, hsilent, howed⟩ | ⟨observer, received, actions, hv, hmild, huv, htable,
    hscheduler, hone, howed⟩
  · have hall := hsame.trans huv
    refine ⟨_, _, next, ⟨Steps.single hstep, hall.sheltered, hall.table, hall.scheduler, ?_, fun k hk => hother k hk _⟩,
      hv, ?_⟩
    · rw [hours, howed]
      exact callsOf_same (hsilent.trans hcalls)
    · rw [hnone, hquiet]
      rfl
  · obtain ⟨ms, t, hsteps, ht, haborts, hrest, hidle⟩ := steps_observing hv hmild
    refine ⟨_, t, some h, ⟨(Steps.single hstep).trans hsteps, hsame.sheltered.trans (huv.trans hrest.sheltered),
      hrest.table.trans htable, hrest.scheduler.trans (hscheduler.trans hsame.scheduler), ?_, fun k hk => ?_⟩, ht, haborts⟩
    · rw [callsFor_append, hidle, hours, List.append_nil, callsOf_cons (hone.trans (congrArg _ hcalls)), howed]
    · rw [callsFor_append, hother k hk, hidle]
      rfl

/-! ## The end of a poll -/

/-- A poll calls by the handles of the table and the list of its registration. -/
theorem callsOn_congr {table table' : Table} {changes : List Change} (hhandles : table'.handles = table.handles)
    (hlisted : table'.handlesOf id = table.handlesOf id) : callsOn table' id changes = callsOn table id changes := by
  have howed : owedTo table' changes = owedTo table changes := by
    funext h
    rw [owedTo, owedTo, hhandles]
  rw [callsOn, callsOn, hlisted, howed]

/-- A poll of a job ends in a step that calls nobody. -/
theorem polled_endPoll (hsame : Undisturbed s u) (hsilent : ∀ t k, callsFor k [(s, t)] = [])
    (hstep : s.step = some (u.endPoll id (.job a) (.ok report))) :
    Polled id a report.changes [] report.baseline s [(s, u.endPoll id (.job a) (.ok report))]
      (u.endPoll id (.job a) (.ok report)) where
  steps := Steps.single hstep
  sheltered := hsame.sheltered.trans ⟨rfl, rfl, rfl, fun hd => hd⟩
  table := congrArg (fun table : Table => (table.setPolling id false).setBaseline id report.baseline) hsame.table
  scheduler := congrArg (fun scheduler : Scheduler => scheduler.leave a (.ok report.changes)) hsame.scheduler
  calls := hsilent _ id
  others := fun k _ => hsilent _ k

/-- A poll of a job ends in a step that calls nobody, because its capture has failed. -/
theorem polled_endPoll_error {f : Failure} (hfatal : f.isFatal = false) (hr : s.table.registrations[id]? = some r)
    (hsame : Undisturbed s u) (hsilent : ∀ t k, callsFor k [(s, t)] = [])
    (hstep : s.step = some (u.endPoll id (.job a) (.error f))) : ∃ t, Polled id a [] [] r.baseline s [(s, t)] t ∧
    t.stack = u.stack := by
  have hnot : ¬f.isFatal = true := by
    rw [hfatal]
    exact Bool.false_ne_true
  unfold endPoll at hstep
  dsimp only [Except.map] at hstep
  unfold endJob at hstep
  dsimp only at hstep
  rw [if_neg hnot] at hstep
  have hkept : (s.table.setPolling id false).registrations[id]? = some { r with polling := false } := by
    rw [Table.setPolling, Table.registrations_modify, if_pos rfl, hr]
    rfl
  refine ⟨_, ⟨Steps.single hstep, hsame.sheltered.trans ⟨rfl, rfl, rfl, fun hd => hd⟩, ?_, ?_, hsilent _ id,
    fun k _ => hsilent _ k⟩,
    rfl⟩
  · exact (congrArg (Table.setPolling · id false) hsame.table).trans (Table.setBaseline_self hkept).symm
  · exact congrArg (Scheduler.leave · a (.ok [])) hsame.scheduler

/-- The handles get their turns, and the poll ends with its report. -/
theorem steps_delivery (hstack : s.stack = .polling id (.job a) .scheduler (.delivering current waiting report) :: below)
    (hr : s.table.registrations[id]? = some r) (hsignal : aborts s.signal = false) (hopen : s.scheduler.isStopped = false)
    (hdocile : s.isDocile = true) : ∃ ms t,
      Polled id a report.changes (waiting.flatMap (owedTo s.table report.changes)) report.baseline s ms t ∧
      t.stack = below := by
  induction waiting generalizing s current with
  | nil =>
    obtain ⟨u, hstep, hsame, hbelow, -, -⟩ := step_delivering hstack hr hsignal
    exact ⟨_, _, polled_endPoll hsame (callsFor_stage hstack fun _ _ _ _ heq => by cases heq) hstep, hbelow⟩
  | cons h waiting ih =>
    obtain ⟨ms, v, next, hserves, hv, haborts⟩ := steps_turn hstack hr hsignal hopen hdocile
    obtain ⟨rest, t, hpolled, hbelow⟩ := ih hv (hserves.table ▸ hr) haborts (hserves.scheduler ▸ hopen)
      (hserves.sheltered.docile hdocile)
    rw [hserves.table] at hpolled
    exact ⟨_, t, hserves.polled hpolled, hbelow⟩

/-- A poll that has its capture runs to its end by itself. -/
theorem steps_captured (hstack : s.stack = .polling id (.job a) .scheduler .capturing :: below)
    (hsignal : s.signal = some (.captured (outcome.mapError Failure.ofCapture))) (hr : s.table.registrations[id]? = some r)
    (hopen : s.scheduler.isStopped = false) (hdocile : s.isDocile = true) : ∃ ms t,
      Polled id a (r.baseline.changesTo outcome) (callsOn s.table id (r.baseline.changesTo outcome))
      (r.baseline.following outcome) s ms t ∧ t.stack = below := by
  have hstep := step_polling hstack
  have hr' : (s.popped below).table.registrations[id]? = some r := hr
  have hsilent := callsFor_stage hstack fun _ _ _ _ heq => by cases heq
  rw [stepPoll, hr', hsignal] at hstep
  cases outcome with
  | error e =>
    obtain ⟨t, hpolled, hbelow⟩ := polled_endPoll_error (isFatal_ofCapture e) hr (Undisturbed.popped s below) hsilent hstep
    exact ⟨_, t, hpolled, hbelow⟩
  | ok captured =>
    change s.step = some ((s.popped below).compareCapture id (.job a) .scheduler r captured) at hstep
    change ∃ ms t, Polled id a (Snapshot.diff (some r.baseline) captured).changes
      (callsOn s.table id (Snapshot.diff (some r.baseline) captured).changes)
        (Snapshot.diff (some r.baseline) captured).baseline s ms t ∧ _
    unfold compareCapture at hstep
    generalize Snapshot.diff (some r.baseline) captured = report at hstep
    dsimp only at hstep
    split at hstep
    · rename_i hsome
      have hcalls : callsOn s.table id report.changes = r.handles.flatMap (owedTo s.table report.changes) := by
        have hnot : report.changes.isEmpty = false := by simpa [Change.Report.hasChanges] using hsome
        rw [callsOn, hnot, Table.handlesOf, hr]
        rfl
      generalize hv : Session.push _ _ = v at hstep
      have hbegins : Serves id [] s [(s, v)] v := by
        refine ⟨Steps.single hstep, ?_, ?_, ?_, hsilent v id, fun k _ => hsilent v k⟩ <;> subst hv
        · exact ⟨rfl, rfl, rfl, fun hd => hd⟩
        · rfl
        · rfl
      have hdelivers : v.stack = .polling id (.job a) .scheduler (.delivering none r.handles report) :: below := by
        subst hv
        rfl
      have hunsignalled : aborts v.signal = false := by
        subst hv
        rfl
      obtain ⟨ms, t, hpolled, hbelow⟩ :=
        steps_delivery hdelivers (hbegins.table ▸ hr) hunsignalled (hbegins.scheduler ▸ hopen)
        (hbegins.sheltered.docile hdocile)
      rw [hbegins.table, ← hcalls] at hpolled
      exact ⟨_, t, hbegins.polled hpolled, hbelow⟩
    · rename_i hnone
      have hempty : report.changes.isEmpty = true := by simpa [Change.Report.hasChanges] using hnone
      rw [callsOn, if_pos hempty]
      exact ⟨_, _, polled_endPoll (Undisturbed.popped s below) hsilent hstep, rfl⟩

/-! ## Polls -/

/-- A poll of a registration that is not polled begins with a capture of its root. -/
theorem step_entering {gate : Gate} (hstack : s.stack = .polling id owner gate .entering :: below)
    (hr : s.table.registrations[id]? = some r) (hidle : r.polling = false) : ∃ t capturedAt, s.step = some t ∧
      t.stack = .capturing { root := r.root, patterns := s.patterns, capturedAt } false ::
      .polling id owner gate .capturing :: below ∧ t.table = s.table.setPolling id true ∧ t.scheduler = s.scheduler ∧
        Sheltered s t := by
  have hstep := step_polling hstack
  have hr' : (s.popped below).table.registrations[id]? = some r := hr
  rw [stepPoll, hr'] at hstep
  dsimp only at hstep
  rw [if_neg (by rw [hidle]; exact Bool.false_ne_true)] at hstep
  exact ⟨_, _, hstep, rfl, rfl, rfl, rfl, rfl, rfl, fun hd => hd⟩

/-- A poll of a job runs to its end by itself. If a capture of its root at any time comes out so, this says what the
poll finds, whom it calls and which baseline it leaves. -/
theorem steps_poll (hstack : s.stack = .polling id (.job a) .scheduler .entering :: below)
    (hr : s.table.registrations[id]? = some r) (hidle : r.polling = false) (hopen : s.scheduler.isStopped = false)
    (hdocile : s.isDocile = true)
    (hends : Ends s.answerTo? { root := r.root, patterns := s.patterns, capturedAt := 0 } outcome) : ∃ ms t baseline,
      Polled id a (r.baseline.changesTo outcome) (callsOn s.table id (r.baseline.changesTo outcome)) baseline s ms t ∧
      t.stack = below ∧ baseline.tree = (r.baseline.following outcome).tree := by
  obtain ⟨u, capturedAt, hstep, hcaptures, htable, hscheduler, hfirst⟩ := step_entering hstack hr hidle
  have hanswers : Answers r.root s.answerTo? u := fun call _ => hfirst.answerTo? call
  obtain ⟨n, hbelow, hsignal, hsame, hunpolled⟩ := run_capture (hends.timed capturedAt) hcaptures hanswers fun h => h
  have hr' : (run n u).table.registrations[id]? = some { r with polling := true } := by
    rw [hsame.table, htable, Table.setPolling, Table.registrations_modify, if_pos rfl, hr]
    rfl
  have hcaptured : Sheltered s (run n u) := hfirst.trans hsame.sheltered
  obtain ⟨ms, t, hpolled, ht⟩ := steps_captured hbelow hsignal hr' (by rw [hsame.scheduler, hscheduler, hopen])
    (hcaptured.docile hdocile)
  have hbegins := callsFor_stage hstack (fun _ _ _ _ heq => by cases heq) u
  have hsilent : ∀ k, callsFor k (movesOf n u) = [] := callsFor_unpolled hunpolled
  have hlisted : ∀ changes, callsOn (run n u).table id changes = callsOn s.table id changes := by
    intro changes
    refine callsOn_congr (by rw [hsame.table, htable]; rfl) ?_
    rw [Table.handlesOf, Table.handlesOf, hr', hr]
  rw [Snapshot.changesTo_timed, hlisted] at hpolled
  refine ⟨_, t, _,
    ⟨(Steps.single hstep).trans ((steps_run n u).trans hpolled.steps), hcaptured.trans hpolled.sheltered, ?_, ?_, ?_,
    fun k hk => ?_⟩, ht, Snapshot.following_timed r.baseline outcome capturedAt⟩
  · rw [hpolled.table, hsame.table, htable, Table.setPolling_setPolling]
  · rw [hpolled.scheduler, hsame.scheduler, hscheduler]
  · rw [callsFor_append, callsFor_append, hbegins, hsilent, hpolled.calls]
    rfl
  · rw [callsFor_append, callsFor_append, hbegins, hsilent, hpolled.others k hk]
    rfl

end Session

end DirWatch
