import DirWatch.Proofs.Session.Exclusion

/-!
# The books of the scheduler

The scheduler keeps its jobs in several places: the pool with a status for each, the queue, the latest job of each
registration and the jobs inside a poll. `Books.Tracked` says how these fit together, and `Tracked` that the polls under
way are those of the jobs inside a poll. Every move keeps this, whatever ticks, observers and stops do
(`scheduled_of_run`).
-/

namespace DirWatch

namespace Books

/-- The status of a job. -/
def status? (b : Books) (a : JobId) : Option JobStatus :=
  b.jobs[a]?.map (·.status)

/-- How the books of a scheduler fit together. -/
structure Tracked (b : Books) : Prop where
  /-- A registration is in flight at most once. -/
  keys : (b.inFlight.map (·.1)).Nodup
  /-- An unfinished job is in flight for its registration. -/
  recorded : ∀ {a j}, b.jobs[a]? = some j → j.isFinished = false → (j.registration, a) ∈ b.inFlight
  queue : b.queue.Nodup
  /-- The queue holds the jobs that wait for a worker. -/
  queued : ∀ {a}, a ∈ b.queue ↔ b.status? a = some .queued
  dispatching : b.dispatching.Nodup
  /-- The jobs inside a poll are those that run. -/
  running : ∀ {a}, a ∈ b.dispatching ↔ b.status? a = some .running

variable {b : Books} {a id : JobId} {registration : RegistrationId} {outcome : Except Failure (List Change)}

/-! ## Jobs and their status -/

/-- A job that is submitted waits in the queue. -/
theorem status?_submit (b : Books) (registration : RegistrationId) (a : JobId) :
    (b.submit registration).status? a = if a = b.jobs.size then some .queued else b.status? a := by
  unfold status? submit
  rw [Array.getElem?_push]
  split <;> rfl

/-- A status that is set on one job leaves the others alone. -/
theorem status_modify (jobs : Array Job) (id a : JobId) (status : JobStatus) :
    (jobs.modify id fun j => { j with status })[a]?.map (·.status) =
      if id = a then (jobs[a]?.map (·.status)).map fun _ => status else jobs[a]?.map (·.status) := by
  rw [Array.getElem?_modify]
  split
  · simp [Function.comp_def]
  · rfl

/-- The job that starts is running, the others are as they were. -/
theorem status?_start (b : Books) (id a : JobId) :
    (b.start id).status? a = if id = a then (b.status? a).map fun _ => .running else b.status? a :=
  status_modify b.jobs id a .running

/-- The job that finishes has its outcome, the others are as they were. -/
theorem status?_finish (b : Books) (id a : JobId) (outcome : Except Failure (List Change)) :
    (b.finish id outcome).status? a = if id = a then (b.status? a).map fun _ => .finished outcome else b.status? a :=
  status_modify b.jobs id a (.finished outcome)

/-- The number of the next job is free. -/
theorem status?_size (b : Books) : b.status? b.jobs.size = none := by
  simp [status?]

/-- The books have the status of every job in the pool. -/
theorem status?_of_get {j : Job} (h : b.jobs[a]? = some j) : b.status? a = some j.status := by
  rw [status?, h]
  rfl

/-- A job keeps its registration, whatever its status becomes. -/
theorem get_modify {jobs : Array Job} {status : JobStatus} {j : Job}
    (h : (jobs.modify id fun j => { j with status })[a]? = some j) :
    ∃ j₀, jobs[a]? = some j₀ ∧ j.registration = j₀.registration ∧ (id ≠ a → j = j₀) ∧
    (id = a → j.status = status) := by
  rw [Array.getElem?_modify] at h
  split at h
  · obtain ⟨j₀, hj₀, rfl⟩ := Option.map_eq_some_iff.mp h
    exact ⟨j₀, hj₀, rfl, fun hne => absurd ‹_› hne, fun _ => rfl⟩
  · exact ⟨j, h, rfl, fun _ => rfl, fun heq => absurd heq ‹_›⟩

/-- A job stays with its registration. -/
theorem registration_modify {jobs : Array Job} {j : Job} (h : jobs[a]? = some j) (id : JobId) (status : JobStatus) :
    ∃ j', (jobs.modify id fun j => { j with status })[a]? = some j' ∧ j'.registration = j.registration := by
  rw [Array.getElem?_modify, h]
  split
  · exact ⟨_, rfl, rfl⟩
  · exact ⟨j, rfl, rfl⟩

/-! ## What the scheduler does to its books -/

/-- To prune is to forget finished jobs among those in flight, and no other. -/
theorem Tracked.prune (h : b.Tracked) : b.prune.Tracked where
  keys := h.keys.sublist (List.filter_sublist.map _)
  recorded := by
    intro a j hj hunfinished
    refine List.mem_filter.mpr ⟨h.recorded hj hunfinished, ?_⟩
    dsimp only
    rw [show b.jobs[a]? = some j from hj, Option.elim_some, hunfinished]
    rfl
  queue := h.queue
  queued := h.queued
  dispatching := h.dispatching
  running := h.running

/-- A job is submitted for a registration that is not in flight. -/
theorem Tracked.submit (h : b.Tracked) (hfree : ∀ entry ∈ b.inFlight, entry.1 ≠ registration) :
    (b.submit registration).Tracked where
  keys := by
    have hnew : registration ∉ b.inFlight.map (·.1) := by
      intro hmem
      obtain ⟨entry, hentry, heq⟩ := List.mem_map.mp hmem
      exact hfree entry hentry heq
    change ((b.inFlight ++ [(registration, b.jobs.size)]).map (·.1)).Nodup
    rw [List.map_append, List.map_singleton, ← List.concat_eq_append]
    exact h.keys.concat hnew
  recorded := by
    intro a j hj hunfinished
    refine List.mem_append.mpr ?_
    rw [show (b.submit registration).jobs = b.jobs.push { registration } from rfl, Array.getElem?_push] at hj
    split at hj
    · rename_i hsize
      cases hj
      exact Or.inr (List.mem_singleton.mpr (by rw [hsize]))
    · exact Or.inl (h.recorded hj hunfinished)
  queue := by
    have hnew : b.jobs.size ∉ b.queue := by
      rw [h.queued, status?_size]
      exact fun h => nomatch h
    change (b.queue ++ [b.jobs.size]).Nodup
    rw [← List.concat_eq_append]
    exact h.queue.concat hnew
  queued := by
    intro a
    rw [status?_submit, show (b.submit registration).queue = b.queue ++ [b.jobs.size] from rfl, List.mem_append,
      List.mem_singleton, h.queued]
    split <;> simp_all
  dispatching := h.dispatching
  running := by
    intro a
    rw [status?_submit, show (b.submit registration).dispatching = b.dispatching from rfl, h.running]
    split
    · rename_i hsize
      rw [hsize, status?_size]
      simp
    · rfl

/-- The job that has waited longest starts. -/
theorem Tracked.start (h : b.Tracked) (hqueue : b.queue.head? = some id) : (b.start id).Tracked := by
  obtain ⟨rest, hrest⟩ := List.head?_eq_some_iff.mp hqueue
  have hqueued : b.status? id = some .queued := h.queued.mp (hrest ▸ List.mem_cons_self)
  have hnodup : id ∉ rest ∧ rest.Nodup := List.nodup_cons.mp (hrest ▸ h.queue)
  have hwaits : id ∉ b.dispatching := by
    rw [h.running, hqueued]
    exact fun h => nomatch h
  have htail : (b.start id).queue = rest := by
    change b.queue.tail = rest
    rw [hrest, List.tail_cons]
  exact
    { keys := h.keys
      recorded := by
        intro a j hj hunfinished
        obtain ⟨j₀, hj₀, hregistration, hother, -⟩ := get_modify hj
        rw [hregistration]
        refine h.recorded hj₀ ?_
        by_cases ha : id = a
        · subst ha
          rw [status?_of_get hj₀] at hqueued
          simp [Job.isFinished, Option.some.inj hqueued]
        · rw [← hother ha, hunfinished]
      queue := htail ▸ hnodup.2
      queued := by
        intro a
        have hmem : a ∈ b.queue ↔ a = id ∨ a ∈ rest := by rw [hrest, List.mem_cons]
        rw [htail, status?_start]
        split
        · rename_i ha
          subst ha
          rw [hqueued]
          simpa using hnodup.1
        · rename_i ha
          rw [← h.queued, hmem]
          simp [Ne.symm ha]
      dispatching := by
        change (b.dispatching ++ [id]).Nodup
        rw [← List.concat_eq_append]
        exact h.dispatching.concat hwaits
      running := by
        intro a
        rw [status?_start, show (b.start id).dispatching = b.dispatching ++ [id] from rfl, List.mem_append, List.mem_singleton,
          h.running]
        split
        · rename_i ha
          subst ha
          simp [hqueued]
        · rename_i ha
          simp [Ne.symm ha] }

/-- A job that runs ends. -/
theorem Tracked.finish (h : b.Tracked) (hmem : id ∈ b.dispatching) (outcome : Except Failure (List Change)) :
    (b.finish id outcome).Tracked := by
  have hrunning : b.status? id = some .running := h.running.mp hmem
  exact
    { keys := h.keys
      recorded := by
        intro a j hj hunfinished
        obtain ⟨j₀, hj₀, hregistration, hother, hstatus⟩ := get_modify hj
        by_cases ha : id = a
        · simp [Job.isFinished, hstatus ha] at hunfinished
        · rw [hregistration]
          exact h.recorded hj₀ (by rw [← hother ha, hunfinished])
      queue := h.queue
      queued := by
        intro a
        rw [status?_finish, show (b.finish id outcome).queue = b.queue from rfl, h.queued]
        split
        · rename_i ha
          subst ha
          simp [hrunning]
        · rfl
      dispatching := h.dispatching.filter _
      running := by
        intro a
        rw [status?_finish, show (b.finish id outcome).dispatching = b.dispatching.filter (· != id) from rfl, List.mem_filter,
          h.running]
        split
        · rename_i ha
          subst ha
          simp [hrunning]
        · rename_i ha
          simp [Ne.symm ha] }

end Books

namespace Session

/-- How the polls under way belong to the jobs in the books. -/
structure Outline.Tracked (o : Outline) : Prop where
  books : o.books.Tracked
  /-- The jobs inside a poll are those whose polls are under way. -/
  polls : (o.all.filterMap Duty.job?).Perm o.books.dispatching
  /-- A job polls its registration. -/
  owned : ∀ {id a stage}, Duty.poll id (.job a) stage ∈ o.all → ∃ j, o.books.jobs[a]? = some j ∧ j.registration = id

variable {s t : Session} {o o' : Outline} {id : RegistrationId} {owner : PollOwner} {gate : Gate} {stage : PollStage}
  {below : List Frame} {signal : Option Signal} {allowed : Action → Prop} {log : List (RegistrationId × List Change)}

/-- Where the duties stand does not matter. -/
theorem Outline.Tracked.perm (h : o.Tracked) (hall : o'.all.Perm o.all) (hbooks : o'.books = o.books) : o'.Tracked where
  books := hbooks ▸ h.books
  polls := hbooks ▸ (hall.filterMap _).trans h.polls
  owned := fun hmem => hbooks ▸ h.owned (hall.mem_iff.mp hmem)

/-- A duty that belongs to no job counts for nothing. -/
theorem Outline.tracked_push {duty : Duty} (h : duty.job? = none) : (o.push duty).Tracked ↔ o.Tracked := by
  have hall : (o.push duty).all.filterMap Duty.job? = o.all.filterMap Duty.job? := List.filterMap_cons_none h
  have hmem : ∀ {id a stage}, Duty.poll id (.job a) stage ∈ (o.push duty).all ↔ Duty.poll id (.job a) stage ∈ o.all := by
    intro id a stage
    rw [Outline.all_push, List.mem_cons, or_iff_right]
    rintro rfl
    cases h
  constructor
  · intro ht
    exact ⟨ht.books, hall ▸ ht.polls, fun h => ht.owned (hmem.mpr h)⟩
  · intro ht
    exact ⟨ht.books, hall.symm ▸ ht.polls, fun h => ht.owned (hmem.mp h)⟩

/-- The books fit the polls after whatever happens without a step of a poll. -/
theorem Shift.tracked (hshift : Shift o o') (h : o.Tracked) : o'.Tracked := by
  cases hshift with
  | same => exact h
  | parks hduties _ _ => exact h.perm (Outline.all_park hduties) rfl
  | unparks hparked => exact h.perm (Outline.all_unpark hparked) rfl
  | @returns handle below hduties =>
    have hall := Outline.all_return hduties
    refine ⟨h.books, ?_, fun hmem => h.owned (hall ▸ List.mem_cons_of_mem _ hmem)⟩
    have hpolls := h.polls
    rw [hall, List.filterMap_cons_none rfl] at hpolls
    exact hpolls
  | prunes => exact ⟨h.books.prune, h.polls, h.owned⟩
  | submits hfree =>
    refine ⟨h.books.submit hfree, h.polls, fun hmem => ?_⟩
    obtain ⟨j, hj, hregistration⟩ := h.owned hmem
    refine ⟨j, ?_, hregistration⟩
    have hlt := (Array.getElem?_eq_some_iff.mp hj).1
    change (o.books.jobs.push _)[_]? = some j
    rw [Array.getElem?_push, if_neg (Nat.ne_of_lt hlt), hj]
  | @starts a job hqueue hjob =>
    refine ⟨h.books.start hqueue, ?_, ?_⟩
    · change (a :: o.all.filterMap Duty.job?).Perm (o.books.dispatching ++ [a])
      exact (h.polls.cons a).trans (List.perm_append_singleton a _).symm
    · intro id b stage hmem
      rcases List.mem_cons.mp hmem with heq | hmem
      · cases heq
        exact Books.registration_modify hjob _ _
      · obtain ⟨j, hj, rfl⟩ := h.owned hmem
        exact Books.registration_modify hj _ _

/-- Which stage a poll is at makes no difference. -/
theorem tracked_stage (hstack : s.stack = .polling id owner gate stage :: below) (h : s.outline.Tracked) (stage' : PollStage) :
    ((s.popped below).outline.push (.poll id owner stage')).Tracked := by
  cases owner with
  | caller =>
    refine (Outline.tracked_push rfl).mpr ?_
    rcases outline_of_polling hstack with heq | ⟨-, heq⟩
    · rw [heq] at h
      exact (Outline.tracked_push rfl).mp h
    · rwa [heq] at h
  | job a =>
    have heq : s.outline = (s.popped below).outline.push (.poll id (.job a) stage) := outline_popped_push hstack rfl
    rw [heq] at h
    refine ⟨h.books, h.polls, fun hmem => ?_⟩
    rcases List.mem_cons.mp hmem with hfirst | hmem
    · cases hfirst
      exact h.owned List.mem_cons_self
    · exact h.owned (List.mem_cons_of_mem _ hmem)

/-- The poll of a job ends. -/
theorem Outline.Tracked.finish {a : JobId} (h : (o.push (.poll id (.job a) stage)).Tracked)
    (outcome : Except Failure (List Change)) :
    ({ o with books := o.books.finish a outcome } : Outline).Tracked := by
  have hpolls : (a :: o.all.filterMap Duty.job?).Perm o.books.dispatching := h.polls
  have hmem : a ∈ o.books.dispatching := hpolls.mem_iff.mp List.mem_cons_self
  have hnodup : a ∉ o.all.filterMap Duty.job? ∧ _ := List.nodup_cons.mp (hpolls.nodup_iff.mpr h.books.dispatching)
  refine ⟨h.books.finish hmem outcome, ?_, ?_⟩
  · have hfilter := hpolls.filter (· != a)
    have hothers : (o.all.filterMap Duty.job?).filter (· != a) = o.all.filterMap Duty.job? := by
      refine List.filter_eq_self.mpr fun b hb => ?_
      rw [bne_iff_ne]
      rintro rfl
      exact hnodup.1 hb
    rw [List.filter_cons_of_neg (by simp), hothers] at hfilter
    exact hfilter
  · intro id b stage hmem
    obtain ⟨j, hj, rfl⟩ := h.owned (List.mem_cons_of_mem _ hmem)
    exact Books.registration_modify hj _ _

/-- They fit after the step of a poll, which finishes its job if it ends. -/
theorem PollMove.tracked (hmove : PollMove s below id owner gate stage signal t)
    (hstack : s.stack = .polling id owner gate stage :: below) (h : s.outline.Tracked) : t.outline.Tracked := by
  have hstage := tracked_stage hstack h
  cases hmove with
  | enters _ _ _ _ houtline => exact houtline ▸ hstage _
  | compares _ _ _ _ houtline => exact houtline ▸ hstage _
  | passes _ _ _ _ _ houtline => exact houtline ▸ hstage _
  | @calls _ k waiting report _ _ _ _ _ _ _ _ _ _ _ _ houtline =>
    have hcalled :
      (((s.popped below).outline.push (.poll id owner (.delivering (some k) waiting report))).push (.call k)).Tracked :=
      (Outline.tracked_push rfl).mpr (hstage _)
    rw [houtline]
    exact ⟨hcalled.books, hcalled.polls, hcalled.owned⟩
  | @ends _ _ outcome u r _ _ _ houtline =>
    rw [outline_endPoll, houtline]
    have hnow := hstage stage
    cases owner with
    | caller => exact (Outline.tracked_push rfl).mp hnow
    | job a => exact hnow.finish (jobOutcome outcome)

/-- They fit after every move. -/
theorem Move.tracked (h : s.outline.Tracked) (hm : Move s t) : t.outline.Tracked := by
  rcases hm.rests_or_polls with ⟨hshift, -, -⟩ | ⟨id, owner, gate, stage, below, hstack, -, hmove⟩
  · exact hshift.tracked h
  · exact hmove.tracked hstack h

/-! ## Sessions -/

/-- A scheduler is created with at least one worker and nothing in its books. -/
theorem scheduler_create {name : Value} {intervalMs workers : Int} {scheduler : Scheduler}
    (h : Scheduler.create name intervalMs workers = .ok scheduler) :
    ∃ interval n, 0 < n ∧ scheduler = { name, interval, pool := { workers := n } } := by
  unfold Scheduler.create at h
  split at h
  · cases h
  · split at h
    · cases h
    · rename_i hworkers
      cases h
      exact ⟨_, _, Int.lt_toNat.mpr (Int.not_le.mp hworkers), rfl⟩

/-- A session opens with a scheduler that has done nothing yet. -/
theorem Opens.scheduler {w : World} (h : Opens w s) : ∃ name interval workers isStarted, 0 < workers ∧
    s.scheduler = { name, interval, pool := { workers }, isStarted } := by
  have hcreated : ∀ {args : WatcherArguments} {made : Session}, create w args = .ok made →
      ∃ name interval workers, 0 < workers ∧ made.scheduler = { name, interval, pool := { workers } } := by
    intro args made hmade
    unfold create at hmade
    obtain ⟨_, -, hmade⟩ := ok_of_bind hmade
    obtain ⟨_, -, hmade⟩ := ok_of_bind hmade
    obtain ⟨_, -, hmade⟩ := ok_of_bind hmade
    obtain ⟨_, hscheduler, hmade⟩ := ok_of_bind hmade
    cases hmade
    obtain ⟨interval, workers, hworkers, rfl⟩ := scheduler_create hscheduler
    exact ⟨_, interval, workers, hworkers, rfl⟩
  cases h with
  | watcher h =>
    obtain ⟨name, interval, workers, hworkers, hsame⟩ := hcreated h
    exact ⟨name, interval, workers, false, hworkers, hsame⟩
  | running h =>
    obtain ⟨made, hmade, rfl⟩ := Capture.ok_of_map h
    obtain ⟨name, interval, workers, hworkers, hsame⟩ := hcreated hmade
    have hstate := (create_fresh hmade).2
    refine ⟨name, interval, workers, true, hworkers, ?_⟩
    unfold start startScheduler
    rw [hstate, hsame]
    rfl
  | table h =>
    obtain ⟨made, hmade, rfl⟩ := Capture.ok_of_map h
    obtain ⟨interval, workers, hworkers, hsame⟩ := scheduler_create hmade
    exact ⟨_, interval, workers, false, hworkers, hsame⟩

/-- The books are empty when a session is made. -/
theorem Opens.books {w : World} (h : Opens w s) : s.scheduler.books = ⟨#[], [], [], []⟩ := by
  obtain ⟨name, interval, workers, isStarted, -, hsame⟩ := h.scheduler
  rw [hsame]
  rfl

/-- In a new session there are no jobs and no polls. -/
theorem Opens.tracked {w : World} (h : Opens w s) : s.outline.Tracked := by
  have hall : s.outline.all = [] := by
    rw [outline_all, frames, h.fresh.stack, h.fresh.parked]
    rfl
  have hbooks : s.outline.books = ⟨#[], [], [], []⟩ := h.books
  refine ⟨?_, ?_, ?_⟩
  · rw [hbooks]
    constructor <;> simp [Books.status?]
  · rw [hall, hbooks]
    rfl
  · rw [hall]
    exact fun hmem => absurd hmem List.not_mem_nil

/-! ## What the books say about a session -/

/-- The books of a session tell what its jobs do. -/
structure Scheduled (s : Session) : Prop where
  /-- At most one job of a registration is unfinished. -/
  single : ∀ {a b : JobId} {j k}, s.scheduler.pool.jobs[a]? = some j → s.scheduler.pool.jobs[b]? = some k →
    j.isFinished = false → k.isFinished = false → j.registration = k.registration → a = b
  /-- An unfinished job is the one that is recorded for its registration. -/
  recorded : ∀ {a : JobId} {j}, s.scheduler.pool.jobs[a]? = some j → j.isFinished = false →
    s.scheduler.inFlight.lookup j.registration = some a
  /-- It waits for a worker, or it is inside its poll. -/
  unfinished : ∀ {a : JobId} {j}, s.scheduler.pool.jobs[a]? = some j →
    (j.isFinished = false ↔ a ∈ s.scheduler.pool.queue ∨ a ∈ s.scheduler.dispatching)
  /-- The jobs known to be inside a poll are those that have started and not finished. -/
  running : ∀ {a : JobId}, a ∈ s.scheduler.dispatching ↔ ∃ j, s.scheduler.pool.jobs[a]? = some j ∧ j.isRunning = true
  /-- They are those whose polls are under way, on the stack or parked. -/
  polls : ∀ {a : JobId}, a ∈ s.scheduler.dispatching ↔ ∃ id gate stage, Frame.polling id (.job a) gate stage ∈ s.frames
  /-- No job has two polls under way. -/
  once : (s.frames.filterMap jobOf?).Nodup
  /-- A job polls its registration. -/
  owned : ∀ {id a gate stage}, Frame.polling id (.job a) gate stage ∈ s.frames →
    ∃ j, s.scheduler.pool.jobs[a]? = some j ∧ j.registration = id
  /-- The threads that dispatch are that of the loop and those inside a poll of a job. -/
  threads : ∀ {thread}, s.scheduler.isDispatch thread = true ↔ (thread = .loop ∧ s.scheduler.isStarted = true) ∨
    ∃ a id gate stage, thread = .worker a ∧ Frame.polling id (.job a) gate stage ∈ s.frames
  /-- Who is in control dispatches if and only if a poll of a job is below. -/
  inDispatch : s.inDispatch = true ↔ ∃ a id gate stage, Frame.polling id (.job a) gate stage ∈ s.stack

/-- The frame of a job is its poll. -/
theorem jobOf?_eq_some {f : Frame} {a : JobId} :
    jobOf? f = some a ↔ ∃ id gate stage, f = .polling id (.job a) gate stage := by
  constructor
  · intro h
    cases f with
    | polling id owner gate stage =>
      cases owner with
      | caller => cases h
      | job b =>
        cases h
        exact ⟨id, gate, stage, rfl⟩
    | _ => cases h
  · rintro ⟨id, gate, stage, rfl⟩
    rfl

/-- A job is inside its poll if there is a frame for it. -/
theorem mem_jobs_iff {fs : List Frame} {a : JobId} :
    a ∈ fs.filterMap jobOf? ↔ ∃ id gate stage, Frame.polling id (.job a) gate stage ∈ fs := by
  simp only [List.mem_filterMap, jobOf?_eq_some]
  constructor
  · rintro ⟨_, hmem, id, gate, stage, rfl⟩
    exact ⟨id, gate, stage, hmem⟩
  · rintro ⟨id, gate, stage, hmem⟩
    exact ⟨_, hmem, id, gate, stage, rfl⟩

/-- The job in control is the first one on the stack. -/
theorem inDispatch_iff (h : ∀ a ∈ s.stack.filterMap jobOf?, a ∈ s.scheduler.dispatching) :
    s.inDispatch = true ↔ ∃ a, a ∈ s.stack.filterMap jobOf? := by
  unfold inDispatch thread currentJob?
  rw [← List.head?_filterMap]
  cases hjobs : s.stack.filterMap jobOf? with
  | nil => simp [Scheduler.isDispatch]
  | cons a rest =>
    have hin := h a (hjobs ▸ List.mem_cons_self)
    simp [Scheduler.isDispatch, hin]

/-- The duty of a frame belongs to the same job as the frame. -/
theorem job?_dutyOf? (f : Frame) : (dutyOf? f).bind Duty.job? = jobOf? f := by
  cases f with
  | polling id owner gate stage => cases owner <;> cases stage <;> rfl
  | _ => rfl

/-- So the outline has the jobs of the frames, parked or not. -/
theorem jobs_outline (s : Session) : s.outline.all.filterMap Duty.job? = s.frames.filterMap jobOf? := by
  rw [outline_all, List.filterMap_filterMap, funext job?_dutyOf?]

/-- With no key twice, the lookup finds the entry. -/
theorem lookup_of_mem {α β : Type} [BEq α] [LawfulBEq α] {l : List (α × β)} {a : α} {b : β}
    (hkeys : (l.map (·.1)).Nodup) (hmem : (a, b) ∈ l) : l.lookup a = some b := by
  obtain ⟨before, after, rfl⟩ := List.append_of_mem hmem
  refine List.lookup_eq_some_iff.mpr ⟨before, after, rfl, fun p hp => ?_⟩
  rw [List.map_append] at hkeys
  have hdisjoint := List.disjoint_of_nodup_append hkeys (List.mem_map_of_mem hp)
  rw [bne_iff_ne]
  rintro rfl
  exact hdisjoint List.mem_cons_self

/-- What the books say of an outline, said of the session itself. -/
theorem Outline.Tracked.scheduled (h : s.outline.Tracked) : Scheduled s := by
  have hrecorded : ∀ {a : JobId} {j}, s.scheduler.pool.jobs[a]? = some j → j.isFinished = false →
      s.scheduler.inFlight.lookup j.registration = some a :=
    fun hj hunfinished => lookup_of_mem h.books.keys (h.books.recorded hj hunfinished)
  have hstatus : ∀ {a : JobId} {j}, s.scheduler.pool.jobs[a]? = some j → s.outline.books.status? a = some j.status :=
    fun hj => Books.status?_of_get hj
  have hpolls : (s.frames.filterMap jobOf?).Perm s.scheduler.dispatching := jobs_outline s ▸ h.polls
  have hinside : ∀ {a : JobId}, a ∈ s.scheduler.dispatching ↔
    ∃ id gate stage, Frame.polling id (.job a) gate stage ∈ s.frames :=
    hpolls.mem_iff.symm.trans mem_jobs_iff
  exact
    { single := by
        intro a b j k hj hk hunfinished hunfinished' heq
        have ha := hrecorded hj hunfinished
        rw [heq, hrecorded hk hunfinished'] at ha
        exact (Option.some.inj ha).symm
      recorded := hrecorded
      unfinished := by
        intro a j hj
        have hqueued : a ∈ s.scheduler.pool.queue ↔ _ := h.books.queued
        have hrunning : a ∈ s.scheduler.dispatching ↔ _ := h.books.running
        rw [hqueued, hrunning, hstatus hj, Job.isFinished]
        cases j.status <;> simp
      running := by
        intro a
        have hrunning : a ∈ s.scheduler.dispatching ↔ _ := h.books.running
        rw [hrunning, Books.status?, Option.map_eq_some_iff]
        refine exists_congr fun j => and_congr_right fun _ => ?_
        rw [Job.isRunning]
        cases j.status <;> simp
      polls := hinside
      once := hpolls.nodup_iff.mpr h.books.dispatching
      owned := by
        intro id a gate stage hmem
        have hduty : Duty.poll id (.job a) stage ∈ s.outline.all := by
          rw [outline_all]
          exact List.mem_filterMap.mpr ⟨_, hmem, rfl⟩
        exact h.owned hduty
      threads := by
        intro thread
        cases thread with
        | loop => simp [Scheduler.isDispatch]
        | worker a => simp [Scheduler.isDispatch, hinside]
        | other => simp [Scheduler.isDispatch]
      inDispatch := by
        rw [inDispatch_iff fun a ha => hpolls.mem_iff.mp (List.filterMap_append ▸ List.mem_append_left _ ha)]
        exact exists_congr fun a => mem_jobs_iff }

/-- A world with three empty directories, in which the first call of an observer waits. -/
def narrow : World where
  disk := { root := .directory [("u", .directory [] 1), ("v", .directory [] 1), ("w", .directory [] 1)] 0 }
  scripts := [("a", [[.park]])]

end Session

end DirWatch
