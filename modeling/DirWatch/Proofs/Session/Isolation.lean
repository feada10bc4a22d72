import DirWatch.Proofs.Session.Submissions
import DirWatch.Proofs.Session.Uninterrupted

/-!
# Roots do not disturb each other

If nothing interferes with a tick (`Poised`), it polls the registrations in force one after another, each poll to its
end (`steps_rounds`), and it returns what they find (`steps_tick`). What a poll finds, whom it calls and the baseline
that it leaves are told by the outcome of its own capture, by its own baseline and by its own observers (`Swept`). So
two sessions that agree on the registration of a root get the same from it in one tick, whatever else they watch
(`isolated_of_moves`).
-/

namespace DirWatch

/-- Whether a fault only makes a call fail. -/
def Fault.isPlain {α : Type} : Fault α → Bool
  | .precede _ => false
  | _ => true

/-! ## Schedulers between two polls -/

namespace Scheduler

/-- No job waits or runs, and the pool takes jobs. -/
structure Resting (s : Scheduler) : Prop where
  isOpen : s.isStopped = false
  accepts : s.pool.isShut = false
  staffed : 0 < s.pool.workers
  queue : s.pool.queue = []
  finished : ∀ {a : JobId} {j : Job}, s.pool.jobs[a]? = some j → j.isFinished = true

variable {s : Scheduler} {id : RegistrationId}

/-- The scheduler after a job was submitted, started and ended. -/
def round (s : Scheduler) (id : RegistrationId) (outcome : Except Failure (List Change)) : Scheduler :=
  ((s.submit id).1.enter s.pool.jobs.size).leave s.pool.jobs.size outcome

/-- A round adds a job that is finished. -/
theorem jobs_round (s : Scheduler) (id : RegistrationId) (outcome : Except Failure (List Change)) :
    (s.round id outcome).pool.jobs = s.pool.jobs.push ⟨id, .finished outcome⟩ := by
  refine Array.ext_getElem? fun a => ?_
  change (((s.pool.jobs.push ⟨id, .queued⟩).modify s.pool.jobs.size fun j => { j with status := .running }).modify
    s.pool.jobs.size fun j => { j with status := .finished outcome })[a]? = _
  rw [Array.getElem?_modify, Array.getElem?_modify, Array.getElem?_push, Array.getElem?_push]
  by_cases ha : a = s.pool.jobs.size
  · rw [if_pos ha, if_pos ha.symm, if_pos ha.symm, if_pos ha]
    rfl
  · rw [if_neg ha, if_neg (Ne.symm ha), if_neg (Ne.symm ha), if_neg ha]

/-- After a round the scheduler rests again. -/
theorem Resting.round (h : s.Resting) (id : RegistrationId) (outcome : Except Failure (List Change)) :
    (s.round id outcome).Resting where
  isOpen := h.isOpen
  accepts := h.accepts
  staffed := h.staffed
  queue := by
    change (s.pool.queue ++ [s.pool.jobs.size]).tail = []
    rw [h.queue]
    rfl
  finished := by
    intro a j hj
    rw [jobs_round, Array.getElem?_push] at hj
    split at hj
    · cases hj
      rfl
    · exact h.finished hj

/-- The job that was just submitted can start at once. -/
theorem Resting.ready (h : s.Resting) (id : RegistrationId) : (s.submit id).1.pool.ready? = some s.pool.jobs.size := by
  have hbusy : (s.submit id).1.pool.busy = 0 := by
    refine Array.countP_eq_zero.mpr fun j hj => ?_
    rcases Array.mem_push.mp hj with hj | rfl
    · obtain ⟨a, ha⟩ := Array.mem_iff_getElem?.mp hj
      have hfinished := h.finished ha
      unfold Job.isFinished at hfinished
      unfold Job.isRunning
      split at hfinished <;> simp_all
    · exact Bool.false_ne_true
  have hqueue : (s.submit id).1.pool.queue = [s.pool.jobs.size] := by
    change s.pool.queue ++ [s.pool.jobs.size] = _
    rw [h.queue]
    rfl
  rw [Pool.ready?, hbusy, hqueue]
  exact if_pos h.staffed

/-- A scheduler at rest has no job to start. -/
theorem Resting.unready (h : s.Resting) : s.pool.ready? = none := by
  rw [Pool.ready?, h.queue]
  exact ite_self _

end Scheduler

namespace Session

open Capture (Ends Truthful)

section

variable (outcomeOf : RegistrationId → Except CaptureError Snapshot)

/-- What the next poll of a registration finds, if its capture comes out as given. -/
def findsBy (table : Table) (id : RegistrationId) : List Change :=
  match table.registrations[id]? with
  | some r => r.baseline.changesTo (outcomeOf id)
  | none => []

/-- A registration is not being polled, and a capture of its root comes out as given. -/
def Foreseen (s : Session) (id : RegistrationId) : Prop :=
  ∃ r, s.table.registrations[id]? = some r ∧ r.polling = false ∧
    Ends s.answerTo? { root := r.root, patterns := s.patterns, capturedAt := 0 } (outcomeOf id)

/-- A job of a registration that has ended. -/
def endedJob (table : Table) (id : RegistrationId) : Job :=
  ⟨id, .finished (.ok (findsBy outcomeOf table id))⟩

/-- Some registrations have been polled, each to the end of its poll, and nothing else has happened. -/
structure Swept (ids : List RegistrationId) (s : Session) (ms : List (Session × Session)) (t : Session) : Prop where
  steps : Steps s ms t
  sheltered : Sheltered s t
  jobs : t.scheduler.pool.jobs = s.scheduler.pool.jobs ++ (ids.map (endedJob outcomeOf s.table)).toArray
  handles : t.table.handles = s.table.handles
  current : t.table.current = s.table.current
  registration : ∀ {k : RegistrationId} {r : Registration}, s.table.registrations[k]? = some r → ∃ baseline,
    t.table.registrations[k]? = some { r with baseline } ∧
      baseline.tree = (if k ∈ ids then r.baseline.following (outcomeOf k) else r.baseline).tree
  calls : ∀ k, callsFor k ms = if k ∈ ids then callsOn s.table k (findsBy outcomeOf s.table k) else []

end

variable {outcomeOf : RegistrationId → Except CaptureError Snapshot} {s t u : Session} {ms more : List (Session × Session)}
  {ids rest waiting : List RegistrationId} {id k : RegistrationId} {owner : TickOwner} {below : List Frame} {all : Nat}
  {submitted : List JobId} {r : Registration}

/-! ## Polls one after another -/

/-- What a poll finds is read off the baseline of its registration. -/
theorem findsBy_of_get (hr : s.table.registrations[id]? = some r) :
    findsBy outcomeOf s.table id = r.baseline.changesTo (outcomeOf id) := by
  rw [findsBy, hr]

/-- Nothing but the polls happens to the registrations. -/
theorem Foreseen.swept (hf : Foreseen outcomeOf s id) (h : Swept outcomeOf ids s ms t) : Foreseen outcomeOf t id := by
  obtain ⟨r, hr, hidle, hends⟩ := hf
  obtain ⟨baseline, ht, -⟩ := h.registration hr
  refine ⟨_, ht, hidle, ?_⟩
  have hanswers : t.answerTo? = s.answerTo? := funext h.sheltered.answerTo?
  rw [hanswers, h.sheltered.patterns]
  exact hends

/-- A poll finds the same after polls of other registrations. -/
theorem Swept.findsBy (h : Swept outcomeOf ids s ms t) (hf : Foreseen outcomeOf s k) (hk : k ∉ ids) :
    findsBy outcomeOf t.table k = findsBy outcomeOf s.table k := by
  obtain ⟨r, hr, -, -⟩ := hf
  obtain ⟨baseline, ht, htree⟩ := h.registration hr
  rw [if_neg hk] at htree
  rw [findsBy_of_get ht, findsBy_of_get hr]
  exact Snapshot.changesTo_congr htree

/-- Polling some registrations changes nothing for the calls of the others. -/
theorem Swept.callsOn (h : Swept outcomeOf ids s ms t) (hf : Foreseen outcomeOf s k) (changes : List Change) :
    callsOn t.table k changes = callsOn s.table k changes := by
  obtain ⟨r, hr, -, -⟩ := hf
  obtain ⟨baseline, ht, -⟩ := h.registration hr
  refine callsOn_congr h.handles ?_
  rw [Table.handlesOf, Table.handlesOf, ht, hr]

/-- Polls of some registrations and then of others are polls of them all. -/
theorem Swept.trans (h : Swept outcomeOf ids s ms t) (h' : Swept outcomeOf rest t more u) (hdisjoint : ids.Disjoint rest)
    (hall : ∀ k ∈ rest, Foreseen outcomeOf s k) : Swept outcomeOf (ids ++ rest) s (ms ++ more) u where
  steps := h.steps.trans h'.steps
  sheltered := h.sheltered.trans h'.sheltered
  jobs := by
    have hsame : rest.map (endedJob outcomeOf t.table) = rest.map (endedJob outcomeOf s.table) :=
      List.map_congr_left fun k hk => by rw [endedJob, endedJob, h.findsBy (hall k hk) fun hmem => hdisjoint hmem hk]
    rw [h'.jobs, h.jobs, hsame, List.map_append]
    simp
  handles := h'.handles.trans h.handles
  current := h'.current.trans h.current
  registration := by
    intro k r hr
    obtain ⟨between, ht, htree⟩ := h.registration hr
    obtain ⟨baseline, hu, htree'⟩ := h'.registration ht
    refine ⟨baseline, hu, htree'.trans ?_⟩
    by_cases hrest : k ∈ rest
    · have hnot : k ∉ ids := fun hmem => hdisjoint hmem hrest
      rw [if_neg hnot] at htree
      rw [if_pos hrest, if_pos (List.mem_append_right ids hrest)]
      exact Snapshot.following_congr htree
    · rw [if_neg hrest]
      simpa [hrest] using htree
  calls := by
    intro k
    rw [callsFor_append, h.calls, h'.calls]
    by_cases hrest : k ∈ rest
    · have hnot : k ∉ ids := fun hmem => hdisjoint hmem hrest
      rw [if_neg hnot, if_pos hrest, if_pos (List.mem_append_right ids hrest), h.findsBy (hall k hrest) hnot,
        h.callsOn (hall k hrest)]
      rfl
    · rw [if_neg hrest, List.append_nil]
      simp [hrest]

/-- A step that polls nothing. -/
theorem Swept.quiet (ht : s.step = some t) (hpolled : s.polled? = none) (hsheltered : Sheltered s t) (htable : t.table = s.table)
    (hpool : t.scheduler.pool = s.scheduler.pool) : Swept outcomeOf [] s [(s, t)] t where
  steps := Steps.single ht
  sheltered := hsheltered
  jobs := by
    rw [hpool]
    exact Array.append_empty.symm
  handles := by rw [htable]
  current := by rw [htable]
  registration := by
    intro k r hr
    rw [htable]
    exact ⟨r.baseline, hr, rfl⟩
  calls := callsFor_quiet hpolled t

/-! ## The rounds of a tick -/

/-- While a tick is in control, no poll is. -/
theorem polled?_of_ticking {stage : TickStage} (hstack : s.stack = .ticking owner stage :: below) : s.polled? = none := by
  rw [polled?, hstack]

/-- The step of a tick in control. -/
theorem step_ticking {stage : TickStage} (hstack : s.stack = .ticking owner stage :: below) :
    s.step = (s.popped below).stepTick owner stage := by
  unfold step
  rw [hstack]
  rfl

/-- A tick submits a poll of the next registration. -/
theorem step_submits (hstack : s.stack = .ticking owner (.submitting (id :: waiting) all submitted) :: below)
    (hrest : s.scheduler.Resting) (hfree : s.scheduler.isBusy id = false) : ∃ u, s.step = some u ∧
      u.stack = .ticking owner (.submitting waiting all (submitted ++ [s.scheduler.pool.jobs.size])) :: below ∧
      u.scheduler = (s.scheduler.submit id).1 ∧ u.table = s.table ∧ Sheltered s u := by
  refine ⟨{ s.popped below with scheduler := (s.scheduler.submit id).1 }.push _, ?_, rfl, rfl, rfl, rfl, rfl, rfl,
    fun hd => hd⟩
  have hnone : (s.popped below).scheduler.pool.ready? = none := hrest.unready
  have hbusy : (s.popped below).scheduler.isBusy id = false := hfree
  have hshut : (s.popped below).scheduler.pool.isShut = false := hrest.accepts
  rw [step_ticking hstack]
  unfold stepTick
  dsimp only
  rw [hnone]
  dsimp only
  rw [hbusy, hshut]
  rfl

/-- A worker that is free starts the poll of a job. -/
theorem step_starts {a : JobId} {j : Job} (hstack : s.stack = .ticking owner (.submitting waiting all submitted) :: below)
    (hready : s.scheduler.pool.ready? = some a) (hj : s.scheduler.pool.jobs[a]? = some j) : ∃ u, s.step = some u ∧
      u.stack = .polling j.registration (.job a) .scheduler .entering ::
      .ticking owner (.submitting waiting all submitted) :: below ∧ u.scheduler = s.scheduler.enter a ∧
      u.table = s.table ∧ Sheltered s u := by
  have hstep : s.step = some (((s.popped below).push (.ticking owner (.submitting waiting all submitted))).startJob a) := by
    have hready' : (s.popped below).scheduler.pool.ready? = some a := hready
    rw [step_ticking hstack]
    unfold stepTick
    dsimp only
    rw [hready']
  have hj' : ((s.popped below).push (.ticking owner (.submitting waiting all submitted))).scheduler.pool.jobs[a]? = some j := hj
  rw [startJob, hj'] at hstep
  exact ⟨_, hstep, rfl, rfl, rfl, rfl, rfl, rfl, fun hd => hd⟩

/-- A tick submits a poll of the next registration, and the poll runs to its end by itself. -/
theorem steps_round (hstack : s.stack = .ticking owner (.submitting (id :: waiting) all submitted) :: below)
    (hrest : s.scheduler.Resting) (hfree : s.scheduler.isBusy id = false) (hf : Foreseen outcomeOf s id)
    (hdocile : s.isDocile = true) :
    ∃ ms t, Swept outcomeOf [id] s ms t ∧ t.scheduler = s.scheduler.round id (.ok (findsBy outcomeOf s.table id)) ∧
      t.stack = .ticking owner (.submitting waiting all (submitted ++ [s.scheduler.pool.jobs.size])) :: below := by
  obtain ⟨r, hr, hidle, hends⟩ := hf
  -- the tick submits a job, the pool starts it, and the poll of the job runs to its end
  obtain ⟨u, hu, hustack, huscheduler, hutable, husheltered⟩ := step_submits hstack hrest hfree
  have hready : u.scheduler.pool.ready? = some s.scheduler.pool.jobs.size := by
    rw [huscheduler]
    exact hrest.ready id
  have hj : u.scheduler.pool.jobs[s.scheduler.pool.jobs.size]? = some { registration := id } := by
    rw [huscheduler]
    exact Array.getElem?_push_size
  obtain ⟨v, hv, hvstack, hvscheduler, hvtable, hvsheltered⟩ := step_starts hustack hready hj
  have hsheltered := husheltered.trans hvsheltered
  have htable := hvtable.trans hutable
  have hanswers : v.answerTo? = s.answerTo? := funext hsheltered.answerTo?
  rw [← hanswers, ← hsheltered.patterns] at hends
  have hopen : v.scheduler.isStopped = false := by
    rw [hvscheduler, huscheduler]
    exact hrest.isOpen
  obtain ⟨ms, t, baseline, hpolled, ht, htree⟩ :=
    steps_poll hvstack (htable ▸ hr) hidle hopen (hsheltered.docile hdocile) hends
  have hended : t.table = s.table.setBaseline id baseline := by
    rw [hpolled.table, htable, Table.setPolling_idle hr hidle]
  have hscheduler : t.scheduler = s.scheduler.round id (.ok (findsBy outcomeOf s.table id)) := by
    rw [hpolled.scheduler, hvscheduler, huscheduler, findsBy_of_get hr]
    rfl
  have hsubmits := callsFor_quiet (polled?_of_ticking hstack) u
  have hstarts := callsFor_quiet (polled?_of_ticking hustack) v
  refine ⟨_, t, ⟨(Steps.single hu).trans ((Steps.single hv).trans hpolled.steps), hsheltered.trans hpolled.sheltered, ?_,
    ?_, ?_, ?_, ?_⟩,
    hscheduler, ht⟩
  · rw [hscheduler, Scheduler.jobs_round]
    rfl
  · rw [hended]
    rfl
  · rw [hended]
    rfl
  · -- the swap of the baseline is the only change of a registration, and it is one of this registration
    intro k r' hr'
    rw [hended, Table.setBaseline, Table.registrations_modify, hr']
    by_cases hk : id = k
    · subst hk
      rw [hr] at hr'
      cases hr'
      rw [if_pos rfl, if_pos (List.mem_singleton_self id)]
      exact ⟨baseline, rfl, htree⟩
    · rw [if_neg hk, if_neg fun hmem => hk (List.mem_singleton.mp hmem).symm]
      exact ⟨r'.baseline, rfl, rfl⟩
  · intro k
    rw [callsFor_append, callsFor_append, hsubmits, hstarts, List.nil_append, List.nil_append]
    split
    · rename_i hmem
      obtain rfl := List.mem_singleton.mp hmem
      rw [hpolled.calls, htable, findsBy_of_get hr]
    · rename_i hmem
      exact hpolled.others k fun heq => hmem (heq ▸ List.mem_singleton_self id)

/-- A tick submits polls of all the registrations that wait, and each poll runs to its end by itself. -/
theorem steps_rounds (hstack : s.stack = .ticking owner (.submitting waiting all submitted) :: below)
    (hrest : s.scheduler.Resting) (hfree : ∀ id ∈ waiting, s.scheduler.isBusy id = false) (hnodup : waiting.Nodup)
    (hall : ∀ id ∈ waiting, Foreseen outcomeOf s id) (hdocile : s.isDocile = true) :
    ∃ ms t, Swept outcomeOf waiting s ms t ∧ t.scheduler.Resting ∧
      t.stack = .ticking owner
        (.submitting [] all (submitted ++ List.range' s.scheduler.pool.jobs.size waiting.length)) :: below := by
  induction waiting generalizing s submitted with
  | nil =>
    refine ⟨[], s,
      ⟨Steps.refl, Sheltered.refl s, Array.append_empty.symm, rfl, rfl, fun {k r} hr => ⟨r.baseline, hr, rfl⟩,
      fun _ => rfl⟩,
      hrest, ?_⟩
    rw [hstack]
    simp
  | cons id waiting ih =>
    obtain ⟨hnot, hnodup⟩ := List.nodup_cons.mp hnodup
    obtain ⟨ms, u, hfirst, hscheduler, hu⟩ :=
      steps_round hstack hrest (hfree id List.mem_cons_self) (hall id List.mem_cons_self) hdocile
    have hurest : u.scheduler.Resting := by
      rw [hscheduler]
      exact hrest.round id _
    have hufree : ∀ k ∈ waiting, u.scheduler.isBusy k = false := by
      intro k hk
      have hne : id ≠ k := fun heq => hnot (heq ▸ hk)
      rw [hscheduler]
      change (s.scheduler.inFlight ++ [(id, s.scheduler.pool.jobs.size)]).any (·.1 == k) = false
      rw [List.any_append, show s.scheduler.inFlight.any (·.1 == k) = false from hfree k (List.mem_cons_of_mem id hk)]
      simpa using hne
    have huall : ∀ k ∈ waiting, Foreseen outcomeOf s k := fun k hk => hall k (List.mem_cons_of_mem id hk)
    obtain ⟨more, t, hlater, htrest, ht⟩ := ih hu hurest hufree hnodup (fun k hk => (huall k hk).swept hfirst)
      (hfirst.sheltered.docile hdocile)
    have hdisjoint : [id].Disjoint waiting := List.disjoint_singleton.mpr hnot |>.symm
    refine ⟨_, t, hfirst.trans hlater hdisjoint huall, htrest, ?_⟩
    rw [ht, hscheduler, Scheduler.jobs_round, Array.size_push, List.append_assoc]
    rfl

/-! ## A tick from its beginning to its end -/

/-- A tick is about to enter, and nothing stands in its way or interferes with it: the pool takes jobs, and the
registrations in force can be read. -/
structure Poised (s : Session) (owner : TickOwner) (below : List Frame) : Prop where
  stack : s.stack = .ticking owner .entering :: below
  isFree : s.scheduler.isTicking = false
  isOpen : s.scheduler.isStopped = false
  accepts : s.scheduler.pool.isShut = false
  works : (s.takeDisabled .registrations).1 = false
  /-- No poll is unfinished. -/
  finished : s.scheduler.pool.jobs.all Job.isFinished = true
  idle : s.table.registrations.all (fun r => !r.polling) = true
  /-- Observers and faults only fail. -/
  docile : s.isDocile = true
  plain : s.faults.all (·.2.isPlain) = true

/-- What a tick returns, if the captures come out as given. -/
def foundBy (outcomeOf : RegistrationId → Except CaptureError Snapshot) (table : Table) : List (Path × List Change) :=
  table.current.filterMap fun entry => (endedJob outcomeOf table entry.2).found?.map fun changes => (entry.1, changes)

/-- No call has to wait for anything else. -/
theorem Poised.truthful (h : Poised s owner below) : Truthful s.disk s.answerTo? := by
  intro call
  unfold answerTo? ask
  cases hfault : s.faultOf? call with
  | none => exact ⟨_, rfl, Or.inl rfl⟩
  | some fault =>
    cases fault with
    | refuse reason => exact ⟨_, rfl, Or.inr ⟨_, rfl⟩⟩
    | disrupt => exact ⟨_, rfl, Or.inr ⟨_, rfl⟩⟩
    | precede steps =>
      exfalso
      have hplain := List.all_eq_true.mp h.plain _ (mem_faults hfault)
      cases hplain

/-- The scheduler rests before an undisturbed tick, since no job is unfinished. -/
theorem Poised.resting (h : Poised s owner below) (htracked : s.outline.Tracked) (hstaffed : 0 < s.scheduler.pool.workers) :
    s.scheduler.Resting where
  isOpen := h.isOpen
  accepts := h.accepts
  staffed := hstaffed
  queue := by
    refine List.eq_nil_iff_forall_not_mem.mpr fun a ha => ?_
    have hqueued : s.outline.books.status? a = some .queued := htracked.books.queued.mp ha
    obtain ⟨j, hj, hstatus⟩ := Option.map_eq_some_iff.mp hqueued
    have hfinished := Array.all_eq_true_iff_forall_mem.mp h.finished j (Array.mem_of_getElem? hj)
    rw [Job.isFinished, hstatus] at hfinished
    cases hfinished
  finished := fun hj => Array.all_eq_true_iff_forall_mem.mp h.finished _ (Array.mem_of_getElem? hj)

/-- An operation that is to work now is not made to fail later. -/
theorem takeDisabled_of_works {operation : Operation} (h : (s.takeDisabled operation).1 = false)
    (hsame : t.disabled = s.disabled) :
    t.takeDisabled operation = (false, t) := by
  unfold takeDisabled at h ⊢
  rw [hsame]
  split at h
  · rfl
  · rfl
  · cases h
  · cases h

/-- The tick enters and has all registrations in force to poll. -/
theorem Poised.step (h : Poised s owner below) (hsome : s.table.current ≠ []) : ∃ u, s.step = some u ∧
    u.stack = .ticking owner (.submitting (s.table.current.map (·.2)) (s.table.current.map (·.2)).length []) :: below ∧
    u.scheduler = { s.scheduler.prune with isTicking := true } ∧ u.table = s.table ∧ Sheltered s u := by
  have hstep : s.step =
      some ({ s.popped below with scheduler := { s.scheduler with isTicking := true } }.enterTick owner) := by
    have hfree : (s.popped below).scheduler.isTicking = false := h.isFree
    rw [step_ticking h.stack]
    unfold stepTick
    dsimp only
    rw [hfree]
    rfl
  generalize hv : { s.popped below with scheduler := { s.scheduler with isTicking := true } } = v at hstep
  have htake : v.takeDisabled .registrations = (false, v) := takeDisabled_of_works h.works (by rw [← hv]; rfl)
  have hopen : v.scheduler.isStopped = false := by
    rw [← hv]
    exact h.isOpen
  unfold enterTick at hstep
  rw [hopen, htake] at hstep
  subst hv
  cases hids : s.table.current.map (·.2) with
  | nil => exact absurd (List.map_eq_nil_iff.mp hids) hsome
  | cons id ids =>
    refine ⟨_, hstep, ?_⟩
    simp only [popped, hids]
    exact ⟨rfl, rfl, rfl, rfl, rfl, rfl, fun hd => hd⟩

/-- Jobs that have ended without a failure are collected. -/
theorem collect_of_finished {ids : List JobId} (h : ∀ a ∈ ids, ∀ f, ¬s.HasFailed a f) :
    s.collect ids = .ok ((ids.filterMap (s.scheduler.pool.jobs[·]?)).filterMap s.foundOf?) := by
  cases hcollect : s.collect ids with
  | ok changes => rw [collect_ok hcollect]
  | error f =>
    obtain ⟨a, ha, hfailed⟩ := collect_error hcollect
    exact absurd hfailed (h a ha f)

/-- A tick that has submitted all its polls ends. -/
theorem step_completes {found : List (Path × List Change)}
    (hstack : s.stack = .ticking owner (.submitting [] all submitted) :: below)
    (hrest : s.scheduler.Resting) (hcollect : s.collect submitted = .ok found) : ∃ t, s.step = some t ∧ t.stack = below ∧
      t.signal = some (tickSignal owner (.ok found)) ∧ t.table = s.table ∧ t.scheduler.pool = s.scheduler.pool ∧
      Sheltered s t := by
  have hstep : s.step = some ((s.popped below).completeTick owner all submitted) := by
    have hnone : (s.popped below).scheduler.pool.ready? = none := hrest.unready
    rw [step_ticking hstack]
    unfold stepTick
    dsimp only
    rw [hnone]
  refine ⟨_, hstep, ?_⟩
  have hsame : (s.popped below).collect submitted = .ok found :=
    (@collect_congr s (s.popped below) rfl rfl submitted).trans hcollect
  unfold completeTick
  rw [hsame]
  dsimp only
  split <;> cases owner <;> exact ⟨rfl, rfl, rfl, rfl, rfl, rfl, rfl, fun hd => hd⟩

/-- A registration keeps its root while others are polled. -/
theorem Swept.rootOf? {root : Path} (h : Swept outcomeOf ids s ms t) (hroot : s.table.rootOf? id = some root) :
    t.table.rootOf? id = some root := by
  obtain ⟨r, hr, rfl⟩ := Option.map_eq_some_iff.mp hroot
  obtain ⟨baseline, ht, -⟩ := h.registration hr
  rw [Table.rootOf?, ht]
  rfl

/-- The jobs of a tick have found what it returns. -/
theorem Swept.collect (h : Swept outcomeOf (s.table.current.map (·.2)) s ms t) (hlinked : s.table.Linked) :
    t.collect (List.range' s.scheduler.pool.jobs.size (s.table.current.map (·.2)).length) = .ok (foundBy outcomeOf s.table) := by
  generalize hjobs : (s.table.current.map (·.2)).map (endedJob outcomeOf s.table) = jobs
  have hnew : (List.range' s.scheduler.pool.jobs.size (s.table.current.map (·.2)).length).filterMap
      (t.scheduler.pool.jobs[·]?) = jobs := by
    have hlist := filterMap_getElem? s.scheduler.pool.jobs.toList jobs
    have hlength : jobs.length = (s.table.current.map (·.2)).length := by rw [← hjobs, List.length_map]
    rw [Array.length_toList, hlength] at hlist
    refine Eq.trans (List.filterMap_congr fun a _ => ?_) hlist
    rw [h.jobs, hjobs, ← Array.getElem?_toList, Array.toList_append]
  have hfine : ∀ a ∈ List.range' s.scheduler.pool.jobs.size (s.table.current.map (·.2)).length, ∀ f,
    ¬t.HasFailed a f := by
    intro a ha f hfailed
    obtain ⟨j, hj, hstatus⟩ := Option.map_eq_some_iff.mp hfailed
    have hmem : j ∈ jobs := hnew ▸ List.mem_filterMap.mpr ⟨a, ha, hj⟩
    rw [← hjobs] at hmem
    obtain ⟨id, -, rfl⟩ := List.mem_map.mp hmem
    cases hstatus
  rw [collect_of_finished hfine, hnew, ← hjobs, List.map_map, List.filterMap_map, foundBy]
  refine congrArg Except.ok (List.filterMap_congr fun entry hentry => ?_)
  have hroot : t.table.rootOf? entry.2 = some entry.1 := h.rootOf? (hlinked.root_eq hentry)
  change t.foundOf? (endedJob outcomeOf s.table entry.2) = _
  rw [foundOf?, show (endedJob outcomeOf s.table entry.2).registration = entry.2 from rfl, hroot]
  rfl

/-- A tick that nothing interferes with polls every registration in force to the end, and returns what the polls have
found. -/
theorem steps_tick (hp : Poised s owner below) (hlinked : s.table.Linked) (hrest : s.scheduler.Resting)
    (hsome : s.table.current ≠ []) (hall : ∀ id ∈ s.table.current.map (·.2), Foreseen outcomeOf s id) : ∃ ms t,
      Swept outcomeOf (s.table.current.map (·.2)) s ms t ∧ t.stack = below ∧
      t.signal = some (tickSignal owner (.ok (foundBy outcomeOf s.table))) := by
  obtain ⟨u, hu, hustack, huscheduler, hutable, husheltered⟩ := hp.step hsome
  have hpool : u.scheduler.pool = s.scheduler.pool := by
    rw [huscheduler]
    rfl
  have hbegins : Swept outcomeOf [] s [(s, u)] u := Swept.quiet hu (polled?_of_ticking hp.stack) husheltered hutable hpool
  have hurest : u.scheduler.Resting := by
    rw [huscheduler]
    exact ⟨hrest.isOpen, hrest.accepts, hrest.staffed, hrest.queue, hrest.finished⟩
  have hfree : ∀ id ∈ s.table.current.map (·.2), u.scheduler.isBusy id = false := by
    intro id _
    have hnone : s.scheduler.prune.inFlight = [] := by
      refine List.filter_eq_nil_iff.mpr fun entry _ => ?_
      unfold Pool.isFinished
      split
      · rename_i j hj
        rw [hrest.finished hj]
        exact Bool.false_ne_true
      · exact Bool.false_ne_true
    rw [huscheduler]
    change s.scheduler.prune.inFlight.any _ = false
    rw [hnone]
    rfl
  obtain ⟨ms, v, hrounds, hvrest, hv⟩ := steps_rounds hustack hurest hfree (nodup_ids hlinked)
    (fun id hid => (hall id hid).swept hbegins) (husheltered.docile hp.docile)
  have hswept := hbegins.trans hrounds (List.disjoint_nil_left _) hall
  have hcollect := hswept.collect hlinked
  rw [List.nil_append, hpool] at hv
  obtain ⟨t, ht, hbelow, hsignal, htable, htpool, hsheltered⟩ := step_completes hv hvrest hcollect
  have hends : Swept outcomeOf [] v [(v, t)] t := Swept.quiet ht (polled?_of_ticking hv) hsheltered htable htpool
  have hwhole := hswept.trans hends (List.disjoint_nil_right _) fun _ hk => absurd hk List.not_mem_nil
  rw [List.append_nil] at hwhole
  exact ⟨_, t, hwhole, hbelow, hsignal⟩

/-! ## Two sessions -/

/-- The tick in control ends with these changes for a root. On the way it makes these calls for the registration of the
root, and it leaves the registration a baseline with this tree. -/
def Brings (s : Session) (owner : TickOwner) (below : List Frame) (root : Path) (id : RegistrationId) (changes : List Change)
    (calls : List (Observer × List Change)) (tree : Option Entry) : Prop :=
  ∃ n found, (run n s).stack = below ∧ (run n s).signal = some (tickSignal owner (.ok found)) ∧
    found.lookup root = (if changes.isEmpty then none else some changes) ∧ callsFor id (movesOf n s) = calls ∧
    ((run n s).baseline? id).map (·.tree) = some tree

/-- The observers attached to a registration, in the order in which they were attached. -/
def observersOf (table : Table) (id : RegistrationId) : List Observer :=
  (table.handlesOf id).filterMap fun h =>
    match table.handles[h]? with
    | some handle => if handle.active then some handle.observer else none
    | none => none

/-- Two sessions see the same files and the same faults, and the registrations that they have of a root agree. -/
structure Shares (root : Path) (id id' : RegistrationId) (s s' : Session) : Prop where
  disk : s'.disk = s.disk
  faults : s'.faults = s.faults
  patterns : s'.patterns = s.patterns
  inForce : s.table.find? root = some id
  inForce' : s'.table.find? root = some id'
  tree : (s'.baseline? id').map (·.tree) = (s.baseline? id).map (·.tree)
  observers : observersOf s'.table id' = observersOf s.table id

/-- A poll with changes calls all observers attached, but for those that are no callables. -/
theorem callsOn_eq (table : Table) (id : RegistrationId) (changes : List Change) : callsOn table id changes =
    if changes.isEmpty then [] else ((observersOf table id).filter (·.isCallable)).map fun observer => (observer, changes) := by
  have hflat : (table.handlesOf id).flatMap (owedTo table changes) =
      ((observersOf table id).filter (·.isCallable)).map fun observer => (observer, changes) := by
    unfold observersOf
    induction table.handlesOf id with
    | nil => rfl
    | cons h hs ih =>
      rw [List.flatMap_cons, ih, List.filterMap_cons, owedTo]
      cases table.handles[h]? with
      | none => rfl
      | some handle =>
        dsimp only
        cases handle.active with
        | false => rfl
        | true =>
          rw [Bool.true_and, if_pos rfl, List.filter_cons]
          split <;> rfl
  rw [callsOn, hflat]

/-- What a list of entries yields is found under the key of its entry. -/
theorem lookup_filterMap {entries : List (Path × RegistrationId)} (found? : RegistrationId → Option (List Change))
    {root : Path} (hnodup : (entries.map (·.1)).Nodup) (hmem : (root, id) ∈ entries) :
    (entries.filterMap fun entry => (found? entry.2).map fun changes => (entry.1, changes)).lookup root = found? id := by
  induction entries with
  | nil => cases hmem
  | cons entry entries ih =>
    obtain ⟨hnot, hnodup⟩ := List.nodup_cons.mp hnodup
    rw [List.filterMap_cons]
    rcases List.mem_cons.mp hmem with rfl | hmem
    · cases hfound : found? id with
      | some changes =>
        dsimp only [Option.map]
        rw [List.lookup_cons_self]
      | none =>
        refine List.lookup_eq_none_iff.mpr fun pair hpair => ?_
        obtain ⟨other, hother, heq⟩ := List.mem_filterMap.mp hpair
        obtain ⟨changes, -, rfl⟩ := Option.map_eq_some_iff.mp heq
        exact bne_iff_ne.mpr fun heq => hnot (List.mem_map.mpr ⟨other, hother, heq.symm⟩)
    · have hne : root ≠ entry.1 := fun heq => hnot (List.mem_map.mpr ⟨(root, id), hmem, heq⟩)
      cases found? entry.2 with
      | none => exact ih hnodup hmem
      | some changes =>
        dsimp only [Option.map]
        rw [List.lookup_cons, beq_false_of_ne hne]
        exact ih hnodup hmem

/-- If nothing interferes, captures of all registrations in force come out somehow. -/
theorem Poised.foreseen (hp : Poised s owner below) (hlinked : s.table.Linked) (hregular : s.disk.Regular) :
    ∃ outcomeOf, ∀ id ∈ s.table.current.map (·.2), Foreseen outcomeOf s id := by
  have hone : ∀ id, ∃ outcome, id ∈ s.table.current.map (·.2) → Foreseen (fun _ => outcome) s id := by
    intro id
    by_cases hmem : id ∈ s.table.current.map (·.2)
    · obtain ⟨⟨root, id⟩, hentry, rfl⟩ := List.mem_map.mp hmem
      obtain ⟨r, hr, -⟩ := Option.map_eq_some_iff.mp (hlinked.root_eq hentry)
      have hidle := Array.all_eq_true_iff_forall_mem.mp hp.idle r (Array.mem_of_getElem? hr)
      obtain ⟨outcome, hends⟩ := Capture.halts_of_regular hp.truthful hregular r.root s.patterns 0
      exact ⟨outcome, fun _ => ⟨r, hr, by simpa using hidle, hends⟩⟩
    · exact ⟨.error default, fun h => absurd h hmem⟩
  obtain ⟨outcomeOf, hall⟩ := Classical.axiomOfChoice hone
  exact ⟨outcomeOf, hall⟩

/-- What a tick brings for a root is told by the outcome of a capture of the root, the baseline and the observers. -/
theorem Poised.brings {w : World} {first : Session} {root : Path} (hs : Opens w first) (h : Moves first ms s)
    (hp : Poised s owner below) (hregular : s.disk.Regular) (hforce : s.table.find? root = some id) :
    ∃ r outcome, s.table.registrations[id]? = some r ∧
      Ends s.answerTo? { root, patterns := s.patterns, capturedAt := 0 } outcome ∧
      Brings s owner below root id (r.baseline.changesTo outcome) (callsOn s.table id (r.baseline.changesTo outcome))
        (r.baseline.following outcome).tree := by
  have hlinked : s.table.Linked := h.edits.linked hs.linked
  have htracked : s.outline.Tracked := h.keeps (fun h hm => hm.tracked h) hs.tracked
  have hstaffed : 0 < s.scheduler.pool.workers := by
    refine h.keeps (P := fun t => 0 < t.scheduler.pool.workers) (fun h hm => hm.workers.symm ▸ h) ?_
    obtain ⟨name, interval, workers, isStarted, hworkers, hsame⟩ := hs.scheduler
    rw [hsame]
    exact hworkers
  have hentry := (Table.find?_eq_some hlinked.roots_nodup).mp hforce
  have hmem : id ∈ s.table.current.map (·.2) := List.mem_map_of_mem (f := (·.2)) hentry
  obtain ⟨outcomeOf, hall⟩ := hp.foreseen hlinked hregular
  obtain ⟨r, hr, -, hends⟩ := hall id hmem
  have hroot := hlinked.root_eq hentry
  rw [Table.rootOf?, hr] at hroot
  cases hroot
  obtain ⟨moves, t, hswept, hbelow, hsignal⟩ :=
    steps_tick hp hlinked (hp.resting htracked hstaffed) (List.ne_nil_of_mem hentry) hall
  obtain ⟨n, rfl, rfl⟩ := hswept.steps.run
  refine ⟨r, outcomeOf id, hr, hends, n, _, hbelow, hsignal, ?_, ?_, ?_⟩
  · rw [foundBy, lookup_filterMap (fun k => (endedJob outcomeOf s.table k).found?) hlinked.roots_nodup hentry, endedJob,
      findsBy_of_get hr, Job.found?]
    cases r.baseline.changesTo (outcomeOf id) <;> rfl
  · rw [hswept.calls, if_pos hmem, findsBy_of_get hr]
  · obtain ⟨baseline, hafter, htree⟩ := hswept.registration hr
    rw [if_pos hmem] at htree
    rw [baseline?_of_get hafter, ← htree]
    rfl

/-- Roots do not disturb each other. Take two sessions, however they have come about, in each of which a tick is about
to enter that nothing interferes with. If they see the same files and faults and agree on the registration of a root,
the two ticks bring the same for this root: the changes since its baseline, the calls of its observers with them, and
the tree of the next baseline. -/
theorem isolated_of_moves {w w' : World} {first first' s' : Session} {ms' : List (Session × Session)} {owner' : TickOwner}
    {below' : List Frame} {root : Path} {id' : RegistrationId} (hs : Opens w first) (h : Moves first ms s) (hs' : Opens w' first')
    (h' : Moves first' ms' s') (hp : Poised s owner below) (hp' : Poised s' owner' below') (hregular : s.disk.Regular)
    (hshares : Shares root id id' s s') : ∃ r outcome, s.table.registrations[id]? = some r ∧
      Ends s.answerTo? { root, patterns := s.patterns, capturedAt := 0 } outcome ∧
      Brings s owner below root id (r.baseline.changesTo outcome) (callsOn s.table id (r.baseline.changesTo outcome))
        (r.baseline.following outcome).tree ∧
      Brings s' owner' below' root id' (r.baseline.changesTo outcome) (callsOn s.table id (r.baseline.changesTo outcome))
        (r.baseline.following outcome).tree := by
  obtain ⟨r, outcome, hr, hends, hbrings⟩ := hp.brings hs h hregular hshares.inForce
  obtain ⟨r', outcome', hr', hends', hbrings'⟩ := hp'.brings hs' h' (hshares.disk ▸ hregular) hshares.inForce'
  have hanswers : s'.answerTo? = s.answerTo? := by
    funext call
    exact answerTo?_congr (by rw [faultOf?, faultOf?, hshares.faults, hshares.disk]) (by rw [hshares.disk])
  rw [hanswers, hshares.patterns] at hends'
  obtain rfl := hends.deterministic hends'
  have htree : r'.baseline.tree = r.baseline.tree := by
    have htree := hshares.tree
    rw [baseline?_of_get hr, baseline?_of_get hr'] at htree
    exact Option.some.inj htree
  have hcalls : ∀ changes, callsOn s'.table id' changes = callsOn s.table id changes := by
    intro changes
    rw [callsOn_eq, callsOn_eq, hshares.observers]
  rw [Snapshot.changesTo_congr htree, Snapshot.following_congr htree, hcalls] at hbrings'
  exact ⟨r, outcome, hr, hends, hbrings, hbrings'⟩

/-- A world like the narrow one, in which one file cannot be looked at and the first call of one observer fails. -/
def quarrelsome : World where
  disk := narrow.disk
  faults := [(("/v/x", .member), .disrupt)]
  scripts := [("c", [[.raise]])]

/-- There is a new file in each directory. -/
def filled (s : Session) : Session :=
  ((s.after (.put "/u/x" (.file 2)) 0).after (.put "/v/x" (.file 2)) 0).after (.put "/w/x" (.file 2)) 0

/-- The tree of files after that. -/
def filledDisk : Disk where
  root := .directory [("u", .directory [("x", .file 2)] 1), ("v", .directory [("x", .file 2)] 1),
    ("w", .directory [("x", .file 2)] 1)] 0

def lonelyTable : Session :=
  (createTable quarrelsome (.text "poll") 1000 1 []).toOption.getD default

/-- One directory is watched, and a tick is about to enter. -/
def lonelyTick : Session :=
  { (lonelyTable.after (.attach ⟨.root, ["w"]⟩ (.named "a" (.text "a")) "a") 9).filled with signal := none }.perform .tick

def sociableTable : Session :=
  (createTable quarrelsome (.text "poll") 1000 2 []).toOption.getD default

/-- All directories are watched, and a tick is about to enter. Of the others, one cannot be captured, and one has an
observer that fails. -/
def sociableTick : Session :=
  { (((sociableTable.after (.attach ⟨.root, ["v"]⟩ (.named "b" (.text "b")) "b") 9).after
    (.attach ⟨.root, ["u"]⟩ (.named "c" (.text "c")) "c") 9).after
    (.attach ⟨.root, ["w"]⟩ (.named "a" (.text "a")) "a") 9).filled with signal := none }.perform .tick

/-- The names in this world are proper ones. -/
theorem filledDisk_regular : filledDisk.Regular := by
  have hnamed : (Node.directory [("x", .file 2)] 1).Named := ⟨⟨by decide, trivial⟩, trivial⟩
  have hupless : (Node.directory [("x", .file 2)] 1).Upless := Node.upless_directory fun name n hmem => by
    cases List.mem_singleton.mp hmem
    refine ⟨by decide, fun names hup => ?_⟩
    cases names with
    | nil => cases hup
    | cons name names => rfl
  refine ⟨⟨⟨by decide, hnamed⟩, ⟨by decide, hnamed⟩, ⟨by decide, hnamed⟩, trivial⟩,
    Node.upless_directory fun name n hmem => ?_⟩
  simp only [List.mem_cons, List.not_mem_nil, or_false, Prod.mk.injEq] at hmem
  rcases hmem with ⟨rfl, rfl⟩ | ⟨rfl, rfl⟩ | ⟨rfl, rfl⟩
  all_goals exact ⟨by decide, hupless⟩

/-- The new file is found and told of in both, whatever becomes of the other directories and their observers. -/
theorem isolated_of_moves_sociable :
    ∃ changes calls tree, Brings lonelyTick .caller [] ⟨.root, ["w"]⟩ 0 changes calls tree ∧
    Brings sociableTick .caller [] ⟨.root, ["w"]⟩ 2 changes calls tree ∧
      calls.map (·.2) = [[⟨.added, ⟨.root, ["w", "x"]⟩⟩]] := by
  have hlonely : ∃ ms, Moves lonelyTable ms lonelyTick := by
    refine ⟨_, ((((Moves.refl.acts _ 9 ?_).acts _ 0 ?_).acts _ 0 ?_).acts _ 0 ?_).move (Move.act .tick
      (Option.isNone_iff_eq_none.mp ?_))⟩
    all_goals decide +kernel
  have hsociable : ∃ ms, Moves sociableTable ms sociableTick := by
    refine ⟨_, ((((((Moves.refl.acts _ 9 ?_).acts _ 9 ?_).acts _ 9 ?_).acts _ 0 ?_).acts _ 0 ?_).acts _ 0 ?_).move
      (Move.act .tick
      (Option.isNone_iff_eq_none.mp ?_))⟩
    all_goals decide +kernel
  obtain ⟨ms, hlonely⟩ := hlonely
  obtain ⟨ms', hsociable⟩ := hsociable
  have hp : Poised lonelyTick .caller [] :=
    ⟨rfl, rfl, rfl, rfl, by decide +kernel, by decide +kernel, by decide +kernel, by decide +kernel, by decide +kernel⟩
  have hp' : Poised sociableTick .caller [] :=
    ⟨rfl, rfl, rfl, rfl, by decide +kernel, by decide +kernel, by decide +kernel, by decide +kernel, by decide +kernel⟩
  -- a tree is compared by what is at its top, and there is nothing below
  have hempty : ∀ {tree : Option (Option Entry)},
      tree.map (·.map fun e => (e.path, e.kind, e.mtime, e.children.isEmpty)) =
        some (some (⟨.root, ["w"]⟩, .directory, 1, true)) →
      tree = some (some (.directory ⟨.root, ["w"]⟩ 1 [])) := by
    intro tree h
    obtain ⟨present, rfl, htop⟩ := Option.map_eq_some_iff.mp h
    obtain ⟨⟨path, kind, mtime, children⟩, rfl, heq⟩ := Option.map_eq_some_iff.mp htop
    cases children with
    | nil =>
      cases heq
      rfl
    | cons first rest => cases heq
  have htree : (sociableTick.baseline? 2).map (·.tree) = (lonelyTick.baseline? 0).map (·.tree) :=
    (hempty (by decide +kernel)).trans (hempty (by decide +kernel)).symm
  have hobserver : observersOf lonelyTick.table 0 = [.named "a" (.text "a")] := rfl
  have hobserver' : observersOf sociableTick.table 2 = [.named "a" (.text "a")] := rfl
  have hdisk : lonelyTick.disk = filledDisk := rfl
  have hdisk' : sociableTick.disk = filledDisk := rfl
  have hfaults : lonelyTick.faults = quarrelsome.faults := rfl
  have hfaults' : sociableTick.faults = quarrelsome.faults := rfl
  have hshares : Shares ⟨.root, ["w"]⟩ 0 2 lonelyTick sociableTick :=
    ⟨hdisk'.trans hdisk.symm, hfaults'.trans hfaults.symm, by decide +kernel, by decide +kernel, by decide +kernel, htree,
      hobserver'.trans hobserver.symm⟩
  have hmade : createTable quarrelsome (.text "poll") 1000 1 [] = .ok lonelyTable := rfl
  have hmade' : createTable quarrelsome (.text "poll") 1000 2 [] = .ok sociableTable := rfl
  obtain ⟨r, outcome, -, -, hlonely, hsociable⟩ :=
    isolated_of_moves (Opens.table hmade) hlonely (Opens.table hmade') hsociable hp hp'
    (hdisk ▸ filledDisk_regular) hshares
  refine ⟨_, _, _, hlonely, hsociable, ?_⟩
  obtain ⟨n, found, hover, -, -, hcalls, -⟩ := hlonely
  have hrest : (run n lonelyTick).step = none := by
    unfold step
    rw [hover]
  obtain ⟨hmoves, -⟩ :=
    (steps_run n lonelyTick).unique (steps_run 30 lonelyTick) hrest (Option.isNone_iff_eq_none.mp (by decide +kernel))
  rw [← hcalls, hmoves]
  decide +kernel

end Session

end DirWatch
