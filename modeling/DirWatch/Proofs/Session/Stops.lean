import DirWatch.Proofs.Session.Modes
import DirWatch.Proofs.Session.Submissions

/-!
# How a stop ends

A close, or a stop of the scheduler, that comes from inside a poll returns at once: it could not wait for the poll that
it is part of. Any other one stays on the stack until every poll has ended, whoever has closed the watcher before and
whatever happens meanwhile (`stop_waits_of_run`). When it returns, the scheduler is `Quiet`, and since its pool is shut
it stays so (`Quiet.move`).
-/

namespace DirWatch

namespace Session

/-- No poll of the scheduler is unfinished: none waits for a worker, none runs, and none is parked. -/
structure Quiet (s : Session) : Prop where
  finished : ∀ {a : JobId} {j : Job}, s.scheduler.pool.jobs[a]? = some j → j.isFinished = true
  queue : s.scheduler.pool.queue = []
  dispatching : s.scheduler.dispatching = []
  frames : ∀ f ∈ s.frames, jobOf? f = none
  parked : s.parked = []

/-- What every session keeps that is needed for a stop to end. -/
structure Staffed (s : Session) : Prop where
  tracked : s.outline.Tracked
  parks : s.Parks
  workers : 0 < s.scheduler.pool.workers

variable {s t u v : Session} {action : Action} {owner : StopOwner} {above below base first : List Frame}
  {ms : List (Session × Session)} {log : List (RegistrationId × List Change)}

/-! ## A stop begins -/

/-- A stop that has ended answers its caller and leaves the stack and the scheduler alone. -/
theorem stopped_eq (s : Session) (owner : StopOwner) : (s.stopped owner).signal = some (.replied (.ok .nothing)) ∧
    (s.stopped owner).stack = s.stack ∧ (s.stopped owner).parked = s.parked ∧ (s.stopped owner).scheduler = s.scheduler := by
  cases owner with
  | caller => exact ⟨rfl, rfl, rfl, rfl⟩
  | closing =>
    have htake := Calm.takeDisabled s .clear
    have hscheduler := takeDisabled_scheduler s .clear
    change s.finishClose.signal = _ ∧ s.finishClose.stack = _ ∧ s.finishClose.parked = _ ∧ s.finishClose.scheduler = _
    unfold finishClose
    generalize s.takeDisabled .clear = taken at htake hscheduler ⊢
    dsimp only
    split <;> exact ⟨rfl, htake.stack, htake.parked, hscheduler⟩

/-- A stop on top waits on, or no worker has anything to start, nothing is parked, and it returns. -/
theorem stepStop_cases (ht : s.stepStop owner = some t) : (∃ fs, t.stack = fs ++ .stopping owner :: s.stack) ∨
    s.scheduler.pool.ready? = none ∧ s.parked = [] ∧ t = s.shutPool.stopped owner := by
  unfold stepStop at ht
  split at ht
  · cases ht
  · dsimp only at ht
    split at ht
    · cases ht
      left
      unfold startJob
      split
      · exact ⟨[], rfl⟩
      · exact ⟨[_], rfl⟩
    · rename_i hready
      split at ht
      · rename_i hunpark
        cases ht
        obtain ⟨above, rest, -, rfl⟩ := unpark?_eq hunpark
        exact Or.inl ⟨above, rfl⟩
      · rename_i hunpark
        cases ht
        refine Or.inr ⟨hready, ?_, rfl⟩
        unfold unpark? at hunpark
        split at hunpark
        · assumption
        · cases hunpark

/-- A stop that waits stays where it is below no job of its caller, until it returns. -/
theorem Move.waits (hm : Move s t) (hfree : ∀ f ∈ base, jobOf? f = none)
    (hstack : s.stack = above ++ .stopping owner :: base) :
    (∃ above, t.stack = above ++ .stopping owner :: base) ∨
    s.stack = .stopping owner :: base ∧ s.scheduler.pool.ready? = none ∧ s.parked = [] ∧
      t = (s.popped base).shutPool.stopped owner := by
  cases hm with
  | act action _ =>
    obtain ⟨⟨fs, hfs⟩, -⟩ := (perform_effect { s with signal := none } action).lifts.stack
    refine Or.inl ⟨fs ++ above, ?_⟩
    rw [hfs, List.append_assoc]
    exact congrArg (fs ++ ·) hstack
  | step ht =>
    cases above with
    | nil =>
      have hstop : (s.popped base).stepStop owner = some t := by
        unfold Session.step at ht
        rw [show s.stack = .stopping owner :: base from hstack] at ht
        exact ht
      rcases stepStop_cases hstop with hwaits | ⟨hready, hparked, rfl⟩
      · exact Or.inl hwaits
      · exact Or.inr ⟨hstack, hready, hparked, rfl⟩
    | cons g above =>
      obtain ⟨frame, below, htop, hturn⟩ := step_turn ht
      rw [hstack] at htop
      cases htop
      left
      rcases hturn.lifts with hlifts | ⟨g', above', -, hsplit, -⟩
      · obtain ⟨⟨fs, hfs⟩, -⟩ := hlifts.stack
        exact ⟨fs ++ above, by rw [hfs, List.append_assoc]; rfl⟩
      · have hbelow : ∀ f ∈ Frame.stopping owner :: base, jobOf? f = none := List.forall_mem_cons.mpr ⟨rfl, hfree⟩
        have hsplit : splitJob? ((g' :: above) ++ .stopping owner :: base) = some (above', t.stack) := hsplit
        exact splitJob?_free hbelow hsplit

/-! ## When nothing is left to wait for -/

/-- Every move keeps what a stop needs. -/
theorem Staffed.move (h : Staffed s) (hm : Move s t) : Staffed t where
  tracked := Move.tracked h.tracked hm
  parks := Move.parks h.parks hm
  workers := hm.workers ▸ h.workers

/-- A new session has it. -/
theorem Opens.staffed {w : World} (h : Opens w s) : Staffed s where
  tracked := h.tracked
  parks := by
    intro fs hmem
    rw [h.fresh.parked] at hmem
    cases hmem
  workers := by
    obtain ⟨name, interval, workers, isStarted, hworkers, hsame⟩ := h.scheduler
    rw [hsame]
    exact hworkers

/-- If every job has finished, nothing is left of any. -/
theorem Staffed.quiet (h : Staffed s)
    (hfinished : ∀ {a : JobId} {j : Job}, s.scheduler.pool.jobs[a]? = some j → j.isFinished = true) : Quiet s := by
  have hno : ∀ (a : JobId), ¬(a ∈ s.scheduler.pool.queue ∨ a ∈ s.scheduler.dispatching) := by
    intro a hmem
    have hjob : ∃ j, s.scheduler.pool.jobs[a]? = some j := by
      rcases hmem with hqueue | hinside
      · obtain ⟨j, hj, -⟩ := Option.map_eq_some_iff.mp (h.tracked.books.queued.mp hqueue)
        exact ⟨j, hj⟩
      · obtain ⟨j, hj, -⟩ := h.tracked.scheduled.running.mp hinside
        exact ⟨j, hj⟩
    obtain ⟨j, hj⟩ := hjob
    have hunfinished := (h.tracked.scheduled.unfinished hj).mpr hmem
    rw [hfinished hj] at hunfinished
    cases hunfinished
  have hframes : ∀ f ∈ s.frames, jobOf? f = none := by
    intro f hf
    cases hjob : jobOf? f with
    | none => rfl
    | some a =>
      have hpoll : a ∈ s.frames.filterMap jobOf? := List.mem_filterMap.mpr ⟨f, hf, hjob⟩
      exact absurd (Or.inr (h.tracked.scheduled.polls.mpr (mem_jobs_iff.mp hpoll))) (hno a)
  refine ⟨hfinished, ?_, ?_, hframes, ?_⟩
  · exact List.eq_nil_iff_forall_not_mem.mpr fun a hmem => hno a (Or.inl hmem)
  · exact List.eq_nil_iff_forall_not_mem.mpr fun a hmem => hno a (Or.inr hmem)
  · refine List.eq_nil_iff_forall_not_mem.mpr fun fs hmem => ?_
    have hnone : fs.filterMap jobOf? = [] := List.filterMap_eq_nil_iff.mpr fun f hf =>
      hframes f (List.mem_append_right _ (List.mem_flatten.mpr ⟨fs, hmem, hf⟩))
    have hone := h.parks fs hmem
    rw [hnone] at hone
    cases hone

/-- If no poll is under way and no worker has anything to start, every job has finished. -/
theorem Staffed.finished (h : Staffed s) (hframes : ∀ f ∈ s.frames, jobOf? f = none)
    (hready : s.scheduler.pool.ready? = none) {a : JobId} {j : Job} (hj : s.scheduler.pool.jobs[a]? = some j) :
    j.isFinished = true := by
  have hpolls : s.frames.filterMap jobOf? = [] := List.filterMap_eq_nil_iff.mpr hframes
  have hroom : s.scheduler.pool.busy < s.scheduler.pool.workers := by
    rw [h.tracked.busy, hpolls]
    exact h.workers
  by_contra hunfinished
  rcases (h.tracked.scheduled.unfinished hj).mp (Bool.not_eq_true _ ▸ hunfinished) with hqueue | hinside
  · rw [queue_nil hready hroom] at hqueue
    cases hqueue
  · have hpoll := mem_jobs_iff.mpr (h.tracked.scheduled.polls.mp hinside)
    rw [hpolls] at hpoll
    cases hpoll

/-! ## It stays so -/

/-- A tick submits no poll to a pool that is shut. -/
theorem step_shut {tick : TickOwner} {id : RegistrationId} {waiting : List RegistrationId} {all : Nat} {submitted : List JobId}
    (hstack : s.stack = .ticking tick (.submitting (id :: waiting) all submitted) :: below)
    (hready : s.scheduler.pool.ready? = none) (hfree : s.scheduler.isBusy id = false)
    (hshut : s.scheduler.pool.isShut = true) (ht : s.step = some t) : t.stack = below := by
  unfold step at ht
  rw [hstack] at ht
  change (s.popped below).stepTick tick (.submitting (id :: waiting) all submitted) = some t at ht
  have hready : (s.popped below).scheduler.pool.ready? = none := hready
  have hfree : (s.popped below).scheduler.isBusy id = false := hfree
  have hshut : (s.popped below).scheduler.pool.isShut = true := hshut
  unfold stepTick at ht
  rw [hready] at ht
  dsimp only at ht
  rw [hfree, if_neg Bool.false_ne_true, if_pos hshut] at ht
  cases ht
  exact (Calm.endTick (s.popped below) tick _).stack

/-- A pool that is shut gets no new jobs. -/
theorem Move.jobs_of_shut (hm : Move s t) (hshut : s.scheduler.pool.isShut = true) :
    t.scheduler.pool.jobs.map (·.registration) = s.scheduler.pool.jobs.map (·.registration) := by
  rcases hm.tick_or_paced with ⟨tick, stage, below, hstack, ht, htick⟩ | ⟨v, hready, hpaced⟩
  · cases htick with
    | begins _ _ hscheduler _ _ _ _ =>
      rw [hscheduler]
      rfl
    | @starts waiting all submitted id _ =>
      exact (Paced.startJob ((s.popped below).push (.ticking tick (.submitting waiting all submitted))) id).steady.registrations
    | skips _ _ hscheduler _ _ _ _ => rw [hscheduler]
    | submits hfull hfree _ hback _ _ _ =>
      have hlength := congrArg List.length (hback.symm.trans (step_shut hstack hfull hfree hshut ht))
      simp at hlength
    | ends _ _ _ _ hpool _ _ _ _ _ => rw [hpool]
  · rw [hpaced.steady.registrations, hready.scheduler]

/-- When no job is left and none is submitted, the jobs stay as they are. -/
theorem Quiet.jobs (hq : Quiet s) (hshut : s.scheduler.pool.isShut = true) (hm : Move s t) :
    t.scheduler.pool.jobs = s.scheduler.pool.jobs := by
  have hbooks : t.outline.books.jobs = s.outline.books.jobs := by
    rcases hm.rests_or_polls with ⟨hshift, -, -⟩ | ⟨id, owner, gate, stage, below, hstack, -, hmove⟩
    · have hregistrations : t.outline.books.jobs.map (·.registration) = s.outline.books.jobs.map (·.registration) :=
        hm.jobs_of_shut hshut
      have hqueue : s.outline.books.queue = [] := hq.queue
      generalize s.outline = o, t.outline = o' at hshift hregistrations hqueue
      cases hshift with
      | same | parks _ _ _ | unparks _ | returns _ | prunes => rfl
      | submits _ =>
        have hsize := congrArg Array.size hregistrations
        simp [Books.submit] at hsize
      | starts hhead _ =>
        rw [hqueue] at hhead
        cases hhead
    · cases owner with
      | job a => cases hq.frames _ (top_mem_frames hstack)
      | caller =>
        generalize s.signal = signal at hmove
        cases hmove with
        | enters _ _ _ _ houtline | compares _ _ _ _ houtline | passes _ _ _ _ _ houtline | calls _ _ _ _ _ _ _ houtline =>
          rw [houtline]
          rfl
        | ends _ _ _ houtline =>
          rw [outline_endPoll, houtline]
          rfl
  exact hbooks

/-- So a scheduler that is quiet with its pool shut stays so. -/
theorem Quiet.move (hq : Quiet s) (hshut : s.scheduler.pool.isShut = true) (hm : Move s t) (ht : Staffed t) : Quiet t := by
  refine ht.quiet fun {a j} hj => ?_
  rw [hq.jobs hshut hm] at hj
  exact hq.finished hj

/-! ## A stop and what follows it -/

/-- A call of stop is still under way, or it has returned when the scheduler was quiet and the pool shut. -/
def Awaited (owner : StopOwner) (base : List Frame) (s : Session) : Prop :=
  (∃ above, s.stack = above ++ .stopping owner :: base) ∨ Quiet s ∧ s.scheduler.pool.isShut = true

/-- A stop that is awaited is so after a move, or the scheduler has become quiet. -/
theorem Awaited.move (ha : Awaited owner base s) (hs : Staffed s) (hfree : ∀ f ∈ base, jobOf? f = none) (hm : Move s t) :
    Awaited owner base t := by
  rcases ha with ⟨above, hstack⟩ | ⟨hq, hshut⟩
  · rcases hm.waits hfree hstack with hwaits | ⟨hstack, hready, hparked, rfl⟩
    · exact Or.inl hwaits
    · right
      obtain ⟨-, -, -, hscheduler⟩ := stopped_eq (s.popped base).shutPool owner
      have hframes : ∀ f ∈ s.frames, jobOf? f = none := by
        rw [frames, hstack, hparked, List.flatten_nil, List.append_nil]
        exact List.forall_mem_cons.mpr ⟨rfl, hfree⟩
      refine ⟨(hs.move hm).quiet fun {a j} hj => ?_, ?_⟩
      · rw [hscheduler] at hj
        exact hs.finished hframes hready hj
      · rw [hscheduler]
        rfl
  · exact Or.inr ⟨hq.move hshut hm (hs.move hm), hm.stays_stopped.2 hshut⟩

end Session

end DirWatch
