import DirWatch.Proofs.Session.Loops
import DirWatch.Proofs.Session.Stacks

/-!
# What a tick does

While a tick submits its polls, its frame stands on the stack with at most one of its jobs on top (`Submitting`), and
nobody else submits. So when the tick ends, it has submitted a poll of each registration that was in force at its
beginning and had no unfinished job, in their order, and it returns what those of them found that have finished
(`tick_of_run`). If a worker is left over, none of them waits for one.
-/

namespace DirWatch

/-- The changes that a job has found, if it has ended and there are any. -/
def Job.found? (j : Job) : Option (List Change) :=
  match j.status with
  | .finished (.ok (c :: cs)) => some (c :: cs)
  | _ => none

namespace Session

/-- Whether a registration has a job that has not finished. -/
def isUnfinished (s : Session) (id : RegistrationId) : Bool :=
  s.scheduler.pool.jobs.any fun j => j.registration == id && !j.isFinished

/-- The registrations in force, with their roots, that have no unfinished job. -/
def idle (s : Session) : List (Path × RegistrationId) :=
  s.table.current.filter fun entry => !s.isUnfinished entry.2

/-- The jobs submitted from one session to another. -/
def submittedSince (s t : Session) : List Job :=
  t.scheduler.pool.jobs.toList.drop s.scheduler.pool.jobs.size

/-- What they have found, by root, when they were submitted for the idle registrations. -/
def foundSince (s t : Session) : List (Path × List Change) :=
  (s.idle.zip (submittedSince s t)).filterMap fun p => p.2.found?.map fun changes => (p.1.1, changes)

/-- The number of polls that wait inside an observer: those that are parked, and those from inside which the one in
control was called. Outside of polls only the parked ones count (`waitingPolls_eq`). -/
def waitingPolls (s : Session) : Nat :=
  s.parked.length + (s.stack.filterMap jobOf?).length

/-- The poll of a job is parked. -/
def IsParked (s : Session) (a : JobId) : Prop :=
  ∃ fs ∈ s.parked, a ∈ fs.filterMap jobOf?

/-- What a tick has done when it ends. -/
structure Ticked (s t : Session) (owner : TickOwner) (below : List Frame) : Prop where
  stack : t.stack = below
  /-- A poll has been submitted of each registration in force that had no unfinished job, in the order of registration. -/
  submitted : (submittedSince s t).map (·.registration) = s.idle.map (·.2)
  once : (s.idle.map (·.2)).Nodup
  /-- If not all workers wait inside an observer, each of the polls has finished or is parked. -/
  settled : t.waitingPolls < t.scheduler.pool.workers → ∀ a, s.scheduler.pool.jobs.size ≤ a →
    ∀ j, t.scheduler.pool.jobs[a]? = some j → j.isFinished = true ∨ t.IsParked a
  /-- The owner gets what the polls found that have finished. -/
  returned : t.signal = some (tickSignal owner (.ok (foundSince s t)))
  ticks : t.scheduler.ticks = s.scheduler.ticks + 1

variable {s t u v : Session} {owner : TickOwner} {stage : TickStage} {below above : List Frame} {id : RegistrationId} {a : JobId}
  {ms : List (Session × Session)} {done waiting : List RegistrationId}

/-- Outside of all polls, those that wait are the parked ones. -/
theorem waitingPolls_eq (h : ∀ f ∈ s.stack, jobOf? f = none) : s.waitingPolls = s.parked.length := by
  rw [waitingPolls, List.filterMap_eq_nil_iff.mpr h]
  rfl

/-! ## Jobs in flight -/

/-- A job in flight is one of the registration it is recorded for. -/
def Booked (s : Session) : Prop :=
  ∀ entry ∈ s.scheduler.inFlight, (s.scheduler.pool.jobs.map (·.registration))[entry.2]? = some entry.1

/-- This depends on the registrations of the jobs and on what is in flight. -/
theorem Booked.congr (h : s.Booked)
    (hjobs : t.scheduler.pool.jobs.map (·.registration) = s.scheduler.pool.jobs.map (·.registration))
    (hinFlight : ∀ entry ∈ t.scheduler.inFlight, entry ∈ s.scheduler.inFlight) : t.Booked := by
  intro entry hmem
  rw [hjobs]
  exact h entry (hinFlight entry hmem)

/-- Every move keeps it: what comes into flight was submitted for its registration. -/
theorem Move.booked (h : s.Booked) (hm : Move s t) : t.Booked := by
  rcases hm.tick_or_paced with ⟨owner, stage, below, -, -, htick⟩ | ⟨v, hready, hpaced⟩
  · cases htick with
    | begins _ _ hscheduler _ _ _ _ =>
      refine h.congr (by rw [hscheduler]; rfl) ?_
      rw [hscheduler]
      exact fun entry hmem => List.mem_of_mem_filter hmem
    | @starts waiting all submitted id _ =>
      have hsteady := (Paced.startJob ((s.popped below).push (.ticking owner (.submitting waiting all submitted))) id).steady
      exact h.congr hsteady.registrations fun entry hmem => hsteady.inFlight ▸ hmem
    | skips _ _ hscheduler _ _ _ _ => exact h.congr (by rw [hscheduler]) fun entry hmem => hscheduler ▸ hmem
    | submits _ _ hscheduler _ _ _ _ =>
      intro entry hmem
      rw [hscheduler] at hmem ⊢
      change _ ∈ _ ++ [_] at hmem
      change (Array.map _ (s.scheduler.pool.jobs.push _))[_]? = _
      rw [Array.map_push, Array.getElem?_push, Array.size_map]
      rcases List.mem_append.mp hmem with hmem | hmem
      · rw [if_neg]
        · exact h entry hmem
        · have hlt := (Array.getElem?_eq_some_iff.mp (h entry hmem)).1
          rw [Array.size_map] at hlt
          exact Nat.ne_of_lt hlt
      · rw [List.mem_singleton.mp hmem]
        exact if_pos rfl
    | ends _ _ _ _ hpool hinFlight _ _ _ _ => exact h.congr (by rw [hpool]) hinFlight
  · refine h.congr ?_ fun entry hmem => ?_
    · rw [hpaced.steady.registrations, hready.scheduler]
    · rwa [hpaced.steady.inFlight, hready.scheduler] at hmem

/-- A registration is busy while a job of it is in flight. -/
theorem isBusy_iff (s : Scheduler) : s.isBusy id = true ↔ id ∈ s.inFlight.map (·.1) := by
  simp [Scheduler.isBusy]

/-- After the finished jobs have been forgotten, the registrations in flight are those with an unfinished job. -/
theorem mem_prune_iff (ht : s.outline.Tracked) (hb : s.Booked) :
    id ∈ s.scheduler.prune.inFlight.map (·.1) ↔ s.isUnfinished id = true := by
  constructor
  · intro hmem
    obtain ⟨⟨k, a⟩, hentry, rfl⟩ := List.mem_map.mp hmem
    obtain ⟨hentry, hunfinished⟩ := List.mem_filter.mp hentry
    have hjob := hb _ hentry
    rw [Array.getElem?_map] at hjob
    obtain ⟨j, hj, rfl⟩ := Option.map_eq_some_iff.mp hjob
    have hunfinished : (!s.scheduler.pool.isFinished a) = true := hunfinished
    rw [Pool.isFinished, hj] at hunfinished
    obtain ⟨hlt, hget⟩ := Array.getElem?_eq_some_iff.mp hj
    refine Array.any_eq_true.mpr ⟨a, hlt, ?_⟩
    rw [hget, beq_self_eq_true, Bool.true_and]
    exact hunfinished
  · intro hunfinished
    obtain ⟨a, hlt, hjob⟩ := Array.any_eq_true.mp hunfinished
    have hget : s.scheduler.pool.jobs[a]? = some s.scheduler.pool.jobs[a] := Array.getElem?_eq_getElem hlt
    generalize s.scheduler.pool.jobs[a] = j at hget hjob
    rw [Bool.and_eq_true, beq_iff_eq, Bool.not_eq_true'] at hjob
    obtain ⟨rfl, hfinished⟩ := hjob
    refine List.mem_map.mpr ⟨(j.registration, a), List.mem_filter.mpr ⟨ht.books.recorded hget hfinished, ?_⟩, rfl⟩
    change (!s.scheduler.pool.isFinished a) = true
    rw [Pool.isFinished, hget]
    exact congrArg (!·) hfinished

/-- A worker is offered jobs of the pool only. -/
theorem Outline.Tracked.ready (h : s.outline.Tracked) (hready : s.scheduler.pool.ready? = some a) :
    ∃ j, s.scheduler.pool.jobs[a]? = some j := by
  have hqueued : s.outline.books.status? a = some .queued :=
    h.books.queued.mp (List.mem_of_mem_head? (Scheduler.head?_of_ready? hready))
  obtain ⟨j, hj, -⟩ := Option.map_eq_some_iff.mp hqueued
  exact ⟨j, hj⟩

/-! ## A tick under way -/

/-- How far a tick has come that began in `t`. -/
structure Submitting (t v : Session) (owner : TickOwner) (below : List Frame) (done waiting : List RegistrationId)
    (above : List Frame) : Prop where
  stack : v.stack = above ++ .ticking owner (.submitting waiting (t.table.current.map (·.2)).length
    (List.range' t.scheduler.pool.jobs.size done.length)) :: below
  rooted : Rooted above
  ticking : v.scheduler.isTicking = true
  /-- The jobs submitted since are those for the registrations that are done. -/
  jobs : v.scheduler.pool.jobs.map (·.registration) = t.scheduler.pool.jobs.map (·.registration) ++ done.toArray
  inFlight : v.scheduler.inFlight.map (·.1) = t.scheduler.prune.inFlight.map (·.1) ++ done
  /-- With those of the waiting ones that are not passed over they are all that had no unfinished job. -/
  split : done ++ waiting.filter (fun id => !t.isUnfinished id) = t.idle.map (·.2)
  ticks : v.scheduler.ticks = t.scheduler.ticks

/-- A tick that submits is never stuck. -/
theorem step_submitting {waiting : List RegistrationId} {all : Nat} {submitted : List JobId}
    (hstack : s.stack = .ticking owner (.submitting waiting all submitted) :: below) : s.step ≠ none := by
  unfold step
  rw [hstack]
  change stepTick _ _ _ ≠ none
  unfold stepTick
  dsimp only
  split
  · exact Option.some_ne_none _
  · exact Option.some_ne_none _
  · split
    · exact Option.some_ne_none _
    · split <;> exact Option.some_ne_none _

/-- No other tick submits polls. -/
theorem Submitting.light (h : Submitting t v owner below done waiting above) (hv : v.Ticking) :
    ∀ f ∈ above, isSubmitting f = false := by
  have hcount : v.submitting = 1 := hv.trans (by rw [h.ticking]; rfl)
  rw [submitting, frames, h.stack, List.countP_append, List.countP_append, List.countP_cons_of_pos rfl] at hcount
  have hnone : above.countP isSubmitting = 0 := by omega
  intro f hf
  exact Bool.not_eq_true _ ▸ List.countP_eq_zero.mp hnone f hf

/-- The next move is one of the tick itself, or one of what stands on top of it. -/
theorem Submitting.next (h : Submitting t v owner below done waiting above) (hv : v.Ticking) (hm : Move v u) :
    (above = [] ∧ TickMove v below owner (.submitting waiting (t.table.current.map (·.2)).length
      (List.range' t.scheduler.pool.jobs.size done.length)) u) ∨
    ∃ first f, above = first ++ [f] ∧ (jobOf? f).isSome = true ∧ v.scheduler.Steady u.scheduler := by
  have hstack := h.stack
  rcases hm.tick_or_paced with ⟨owner', stage', below', htop, -, htick⟩ | ⟨w, hready, hpaced⟩
  · cases above with
    | nil =>
      rw [List.nil_append, htop] at hstack
      cases hstack
      exact Or.inl ⟨rfl, htick⟩
    | cons f rest =>
      exfalso
      rw [List.cons_append, htop] at hstack
      cases hstack
      have hlight := h.light hv _ List.mem_cons_self
      have hentering : stage' = .entering := by
        cases stage' with
        | entering => rfl
        | submitting waiting all submitted => cases hlight
      subst hentering
      have hfree : v.scheduler.isTicking = false := by
        cases htick with
        | begins hfree _ _ _ _ _ _ => exact hfree
        | ends hc _ _ _ _ _ _ _ _ _ => cases hc <;> assumption
      rw [h.ticking] at hfree
      cases hfree
  · have hsteady : v.scheduler.Steady u.scheduler := hready.scheduler ▸ hpaced.steady
    rcases h.rooted with rfl | ⟨first, f, rfl, hjob⟩
    · exfalso
      cases hready with
      | act hrest => exact step_submitting hstack hrest
      | step htop hframe =>
        rw [List.nil_append, htop] at hstack
        cases hstack
        exact hframe _ _ rfl
    · exact Or.inr ⟨first, f, rfl, hjob, hsteady⟩

/-- A tick that goes on submits the next poll, or passes over it, or waits for what stands on top of it. -/
theorem Submitting.move (h : Submitting t v owner below done waiting above) (hv : v.Ticking) (ht : v.outline.Tracked)
    (hm : Move v u) (hkeys : ∀ id, id ∈ t.scheduler.prune.inFlight.map (·.1) ↔ t.isUnfinished id = true)
    (honce : (t.idle.map (·.2)).Nodup) (hu : u.scheduler.isTicking = true) :
    ∃ done waiting above, Submitting t u owner below done waiting above := by
  have hbusy : ∀ id, v.scheduler.isBusy id = true ↔ t.isUnfinished id = true ∨ id ∈ done := by
    intro id
    rw [isBusy_iff, h.inFlight, List.mem_append, hkeys]
  rcases h.next hv hm with ⟨rfl, htick⟩ | ⟨first, f, rfl, hjob, hsteady⟩
  · generalize hall : (t.table.current.map (·.2)).length = all at htick
    generalize hsubmitted : List.range' t.scheduler.pool.jobs.size done.length = submitted at htick
    cases htick with
    | @starts _ _ _ a hready =>
      have hpaced := Paced.startJob ((v.popped below).push (.ticking owner (.submitting waiting all submitted))) a
      obtain ⟨j, hj⟩ := ht.ready hready
      have hleads := Leads.startJob ((v.popped below).push (.ticking owner (.submitting waiting all submitted))) hj
      refine ⟨done, waiting, [.polling j.registration (.job a) .scheduler .entering], ?_,
        Or.inr ⟨[], _, rfl, rfl⟩, hu, ?_, ?_,
        h.split, ?_⟩
      · rw [hleads.stack, hall, hsubmitted]
        rfl
      · exact hpaced.steady.registrations.trans h.jobs
      · exact (congrArg _ hpaced.steady.inFlight).trans h.inFlight
      · exact hpaced.steady.ticks.trans h.ticks
    | @skips id waiting _ _ _ hfull hskip hscheduler hstack _ _ _ =>
      -- what is skipped was unfinished when the tick began; it is not one the tick has submitted itself, as no
      -- registration waits twice
      refine ⟨done, waiting, [], ?_, Or.inl rfl, hu, ?_, ?_, ?_, ?_⟩
      · rw [hstack, hall, hsubmitted]
        rfl
      · rw [hscheduler]
        exact h.jobs
      · rw [hscheduler]
        exact h.inFlight
      · have hsplit := h.split
        rcases (hbusy id).mp hskip with hunfinished | hdone
        · rwa [List.filter_cons_of_neg (by simpa using hunfinished)] at hsplit
        · by_cases hunfinished : t.isUnfinished id = true
          · rwa [List.filter_cons_of_neg (by simpa using hunfinished)] at hsplit
          · rw [List.filter_cons_of_pos (by simpa using hunfinished)] at hsplit
            rw [← hsplit] at honce
            exact absurd List.mem_cons_self (List.disjoint_of_nodup_append honce hdone)
      · rw [hscheduler]
        exact h.ticks
    | @submits id waiting _ _ _ hfull hfree hscheduler hstack _ _ _ =>
      have hnot : ¬(t.isUnfinished id = true ∨ id ∈ done) := by
        rw [← hbusy id, hfree]
        exact Bool.false_ne_true
      have hsize : v.scheduler.pool.jobs.size = t.scheduler.pool.jobs.size + done.length := by
        have hsize := congrArg Array.size h.jobs
        simpa using hsize
      refine ⟨done ++ [id], waiting, [], ?_, Or.inl rfl, hu, ?_, ?_, ?_, ?_⟩
      · rw [hstack, hall, ← hsubmitted, hsize, List.length_append, List.length_singleton, List.range'_concat]
        simp
      · rw [hscheduler]
        change Array.map _ (v.scheduler.pool.jobs.push _) = _
        rw [Array.map_push, h.jobs]
        simp
      · rw [hscheduler]
        change List.map _ (v.scheduler.inFlight ++ [_]) = _
        rw [List.map_append, h.inFlight, List.append_assoc]
        rfl
      · have hsplit := h.split
        rw [List.filter_cons_of_pos (by simpa using fun hunfinished => hnot (Or.inl hunfinished))] at hsplit
        rw [List.append_assoc]
        exact hsplit
      · rw [hscheduler]
        exact h.ticks
    | ends _ hticking _ _ _ _ _ _ _ _ =>
      rw [hu] at hticking
      cases hticking
  · -- a move above the tick, inside one of its polls
    obtain ⟨above', hstack, hrooted⟩ := hm.stays hjob h.stack
    refine ⟨done, waiting, above', hstack, hrooted, hu, ?_, ?_, h.split, ?_⟩
    · exact hsteady.registrations.trans h.jobs
    · exact (congrArg _ hsteady.inFlight).trans h.inFlight
    · exact hsteady.ticks.trans h.ticks

/-! ## The end of a tick -/

/-- The numbers behind a list find what is appended to it. -/
theorem filterMap_getElem? {α : Type} (before l : List α) :
    (List.range' before.length l.length).filterMap ((before ++ l)[·]?) = l := by
  induction l generalizing before with
  | nil => rfl
  | cons x l ih =>
    rw [List.length_cons, List.range'_succ, List.filterMap_cons_some (b := x) (by simp)]
    have hrest := ih (before ++ [x])
    rw [List.length_append, List.append_assoc] at hrest
    exact congrArg (x :: ·) hrest

/-- What a job has found, with the root of its registration. -/
def foundOf? (s : Session) (j : Job) : Option (Path × List Change) :=
  j.found?.map fun found => ((s.table.rootOf? j.registration).getD default, found)

/-- What a tick collects is what its jobs have found. -/
theorem collect_ok {ids : List JobId} {changes : List (Path × List Change)} (h : s.collect ids = .ok changes) :
    changes = (ids.filterMap (s.scheduler.pool.jobs[·]?)).filterMap s.foundOf? := by
  induction ids generalizing changes with
  | nil =>
    cases h
    rfl
  | cons id ids ih =>
    unfold collect at h
    split at h
    · rename_i hnone
      rw [List.filterMap_cons_none hnone]
      exact ih h
    · rename_i job hjob
      rw [List.filterMap_cons_some hjob]
      split at h
      · cases h
      · rename_i c cs hstatus
        have hfound : s.foundOf? job = some ((s.table.rootOf? job.registration).getD default, c :: cs) := by
          rw [foundOf?, Job.found?, hstatus]
          rfl
        cases hcollect : s.collect ids with
        | error e =>
          rw [hcollect] at h
          cases h
        | ok rest =>
          rw [hcollect] at h
          cases h
          rw [List.filterMap_cons_some hfound, ← ih hcollect]
          rfl
      · rename_i hstatus
        have hnone : s.foundOf? job = none := by
          unfold foundOf? Job.found?
          split
          · rename_i c cs heq
            exact absurd heq (hstatus c cs)
          · rfl
        rw [List.filterMap_cons_none hnone]
        exact ih h

/-- Jobs stand next to the entries of the table that they were submitted for. -/
theorem filterMap_foundOf? {entries : List (Path × RegistrationId)} {jobs : List Job}
    (hsame : jobs.map (·.registration) = entries.map (·.2)) (hroots : ∀ e ∈ entries, s.table.rootOf? e.2 = some e.1) :
    jobs.filterMap s.foundOf? = (entries.zip jobs).filterMap fun p => p.2.found?.map fun found => (p.1.1, found) := by
  induction entries generalizing jobs with
  | nil => rw [List.map_eq_nil_iff.mp hsame, List.zip_nil_left, List.filterMap_nil, List.filterMap_nil]
  | cons e entries ih =>
    cases jobs with
    | nil => cases hsame
    | cons j jobs =>
      obtain ⟨hfirst, hrest⟩ := List.cons.inj hsame
      have hfirst : j.registration = e.2 := hfirst
      have hfound : s.foundOf? j = j.found?.map fun found => (e.1, found) := by
        rw [foundOf?, hfirst, hroots e List.mem_cons_self]
        rfl
      rw [List.zip_cons_cons, List.filterMap_cons, List.filterMap_cons,
        ih hrest fun e' he' => hroots e' (List.mem_cons_of_mem e he'), hfound]

/-- As many workers are busy as polls of jobs are under way. -/
theorem Outline.Tracked.busy (h : s.outline.Tracked) : s.scheduler.pool.busy = (s.frames.filterMap jobOf?).length := by
  have hrunning : ∀ a, a ∈ s.scheduler.dispatching ↔ ((s.scheduler.pool.jobs[a]?.map Job.isRunning).getD false) = true := by
    intro a
    have hstatus : a ∈ s.scheduler.dispatching ↔ s.scheduler.pool.jobs[a]?.map (·.status) = some .running := h.books.running
    rw [hstatus]
    cases s.scheduler.pool.jobs[a]? with
    | none => simp
    | some j =>
      rw [Option.map_some, Option.map_some, Option.getD_some, Job.isRunning]
      cases hj : j.status <;> simp
  have hcount : s.scheduler.pool.busy =
      (List.range s.scheduler.pool.jobs.size).countP fun a => (s.scheduler.pool.jobs[a]?.map Job.isRunning).getD false := by
    have hall := filterMap_getElem? [] s.scheduler.pool.jobs.toList
    rw [Pool.busy, ← Array.countP_toList, ← hall, List.countP_filterMap, List.range_eq_range']
    simp
  have hperm : s.scheduler.dispatching.Perm
      ((List.range s.scheduler.pool.jobs.size).filter fun a => (s.scheduler.pool.jobs[a]?.map Job.isRunning).getD false) := by
    refine (List.perm_ext_iff_of_nodup h.books.dispatching (List.nodup_range.filter _)).mpr fun a => ?_
    rw [List.mem_filter, List.mem_range, ← hrunning]
    refine (and_iff_right_of_imp fun hmem => ?_).symm
    by_contra hge
    have hmem := (hrunning a).mp hmem
    rw [Array.getElem?_eq_none (Nat.le_of_not_lt hge)] at hmem
    cases hmem
  have hpolls : (s.frames.filterMap jobOf?).Perm s.scheduler.dispatching := jobs_outline s ▸ h.polls
  rw [hcount, hpolls.length_eq, hperm.length_eq, List.countP_eq_length_filter]

/-- A worker that is left over leaves no job behind. -/
theorem queue_nil (hfull : s.scheduler.pool.ready? = none) (hroom : s.scheduler.pool.busy < s.scheduler.pool.workers) :
    s.scheduler.pool.queue = [] := by
  rw [Pool.ready?, if_pos hroom] at hfull
  exact List.head?_eq_none_iff.mp hfull

/-- If a worker is left over while a tick is in control, every job that is not one of those below has finished or is
parked. -/
theorem settled_of_room (ht : s.outline.Tracked) (hparks : s.Parks) (hstack : s.stack = .ticking owner stage :: below)
    (hfull : s.scheduler.pool.ready? = none)
    (hroom : s.parked.length + (below.filterMap jobOf?).length < s.scheduler.pool.workers) {j : Job}
    (hj : s.scheduler.pool.jobs[a]? = some j) (hbelow : a ∉ below.filterMap jobOf?) : j.isFinished = true ∨ s.IsParked a := by
  have hpolls : s.frames.filterMap jobOf? = below.filterMap jobOf? ++ s.parked.flatten.filterMap jobOf? := by
    rw [frames, hstack, List.filterMap_append, List.filterMap_cons_none rfl]
  have hfree : s.scheduler.pool.busy < s.scheduler.pool.workers := by
    rw [ht.busy, hpolls, List.length_append, hparks.length, Nat.add_comm]
    exact hroom
  by_cases hfinished : j.isFinished = true
  · exact Or.inl hfinished
  · right
    rcases (ht.scheduled.unfinished hj).mp (Bool.not_eq_true _ ▸ hfinished) with hqueued | hinside
    · rw [queue_nil hfull hfree] at hqueued
      cases hqueued
    · have hpoll : a ∈ s.frames.filterMap jobOf? := mem_jobs_iff.mpr (ht.scheduled.polls.mp hinside)
      rw [hpolls] at hpoll
      obtain ⟨f, hf, hjob⟩ := List.mem_filterMap.mp ((List.mem_append.mp hpoll).resolve_left hbelow)
      obtain ⟨fs, hfs, hmem⟩ := List.mem_flatten.mp hf
      exact ⟨fs, hfs, List.mem_filterMap.mpr ⟨f, hmem, hjob⟩⟩

/-- The jobs that a tick has submitted are those for the registrations that are done. -/
theorem Submitting.submitted (h : Submitting t v owner below done waiting above) :
    (submittedSince t v).map (·.registration) = done ∧
      (List.range' t.scheduler.pool.jobs.size done.length).filterMap (v.scheduler.pool.jobs[·]?) = submittedSince t v := by
  have hlist : v.scheduler.pool.jobs.toList.map (·.registration) =
      t.scheduler.pool.jobs.toList.map (·.registration) ++ done := by
    have hlist := congrArg Array.toList h.jobs
    simpa using hlist
  have hsame : (submittedSince t v).map (·.registration) = done := by
    rw [submittedSince, List.map_drop, hlist]
    exact List.drop_left' (by simp)
  have hlength : (submittedSince t v).length = done.length := by
    rw [← hsame, List.length_map]
  have hle : t.scheduler.pool.jobs.size ≤ v.scheduler.pool.jobs.toList.length := by
    have hlengths := congrArg List.length hlist
    simp only [List.length_map, List.length_append, Array.length_toList] at hlengths ⊢
    omega
  refine ⟨hsame, ?_⟩
  have hall := filterMap_getElem? (v.scheduler.pool.jobs.toList.take t.scheduler.pool.jobs.size) (submittedSince t v)
  rw [hlength, List.length_take, Nat.min_eq_left hle, submittedSince, List.take_append_drop] at hall
  rw [submittedSince, ← hall]
  simp

/-- A tick that has submitted all its polls ends with what they found. -/
theorem Submitting.ends (h : Submitting t v owner below done waiting above) (hv : v.Ticking) (ht : v.outline.Tracked)
    (hparks : v.Parks) (hm : Move v u) (hended : u.scheduler.isTicking = false) (hunshut : u.scheduler.pool.isShut = false)
    (honce : (t.idle.map (·.2)).Nodup) (hfine : ∀ a f, t.scheduler.pool.jobs.size ≤ a → ¬v.HasFailed a f)
    (hbelow : ∀ a ∈ below.filterMap jobOf?, a < t.scheduler.pool.jobs.size)
    (hroots : ∀ e ∈ t.table.current, v.table.rootOf? e.2 = some e.1) : Ticked t u owner below := by
  rcases h.next hv hm with ⟨rfl, htick⟩ | ⟨-, -, -, -, hsteady⟩
  swap
  · rw [hsteady.ticking, h.ticking] at hended
    cases hended
  have hstack := h.stack
  rw [List.nil_append] at hstack
  generalize hall : (t.table.current.map (·.2)).length = all at htick hstack
  generalize hsubmitted : List.range' t.scheduler.pool.jobs.size done.length = submitted at htick hstack
  -- a tick that starts a job, skips or submits goes on, so it can only be the end
  cases htick with
  | @starts _ _ _ a _ =>
    have hstart := Paced.startJob ((v.popped below).push (.ticking owner (.submitting waiting all submitted))) a
    rw [hstart.steady.ticking] at hended
    cases h.ticking.symm.trans hended
  | skips _ _ hscheduler _ _ _ _ =>
    rw [hscheduler] at hended
    cases h.ticking.symm.trans hended
  | submits _ _ hscheduler _ _ _ _ =>
    rw [hscheduler] at hended
    cases h.ticking.symm.trans hended
  | ends hc _ hticks _ hpool _ hbelow' hparked _ hsignal =>
    cases hc with
    | shut _ hshut =>
      rw [hpool, hshut] at hunshut
      cases hunshut
    | failed _ hcollect =>
      obtain ⟨a, hmem, hfailed⟩ := collect_error hcollect
      rw [← hsubmitted] at hmem
      exact absurd hfailed (hfine a _ (List.mem_range'_1.mp hmem).1)
    | completed hfull hcollect =>
      have hdone : done = t.idle.map (·.2) := by
        have hsplit := h.split
        rwa [List.filter_nil, List.append_nil] at hsplit
      obtain ⟨hsame, hjobs⟩ := h.submitted
      have hsince : submittedSince t u = submittedSince t v := by rw [submittedSince, hpool, submittedSince]
      rw [← hsince] at hsame hjobs
      rw [hdone] at hsame
      refine ⟨hbelow', hsame, honce, ?_, ?_, hticks.trans (congrArg (· + 1) h.ticks)⟩
      · intro hroom a ha j hj
        rw [waitingPolls, hbelow', hparked, hpool] at hroom
        rw [hpool] at hj
        rw [IsParked, hparked]
        exact settled_of_room ht hparks hstack hfull hroom hj fun hmem => Nat.not_lt.mpr ha (hbelow a hmem)
      · have hfound := collect_ok hcollect
        rw [← hsubmitted, hjobs] at hfound
        rw [hsignal, hfound, filterMap_foundOf? hsame fun e he => hroots e (List.mem_of_mem_filter he), foundSince]

/-- A tick that begins while nothing is registered is over at once, and any other begins to submit. -/
theorem entering_move (hstack : s.stack = .ticking owner .entering :: below) (hfree : s.scheduler.isTicking = false)
    (hm : Move s t) : TickMove s below owner .entering t := by
  rcases hm.tick_or_paced with ⟨owner', stage', below', htop, -, htick⟩ | ⟨v, hready, -⟩
  · rw [hstack] at htop
    cases htop
    exact htick
  · exfalso
    cases hready with
    | act hrest =>
      unfold step at hrest
      rw [hstack] at hrest
      change stepTick _ _ _ = none at hrest
      unfold stepTick at hrest
      dsimp only at hrest
      rw [if_neg (by rw [hfree]; exact Bool.false_ne_true)] at hrest
      cases hrest
    | step htop hframe =>
      rw [hstack] at htop
      cases htop
      exact hframe _ _ rfl

/-- A tick begins with all registrations in force before it. -/
theorem submitting_of_begins (h : TickMove s below owner .entering t) (ht : t.scheduler.isTicking = true) :
    Submitting s t owner below [] (s.table.current.map (·.2)) [] := by
  cases h with
  | begins _ _ hscheduler hstack _ _ _ =>
    refine ⟨hstack, Or.inl rfl, ht, ?_, ?_, ?_, ?_⟩
    · rw [hscheduler]
      simp [Scheduler.prune]
    · rw [hscheduler, List.append_nil]
    · rw [List.nil_append, List.filter_map, idle]
      rfl
    · rw [hscheduler]
      rfl
  | ends _ hticking _ _ _ _ _ _ _ _ =>
    rw [ht] at hticking
    cases hticking

/-- Without registrations a tick is over at once. -/
theorem ticked_of_idle (hnone : s.table.current = []) (hpool : t.scheduler.pool = s.scheduler.pool) (hstack : t.stack = below)
    (hsignal : t.signal = some (tickSignal owner (.ok []))) (hticks : t.scheduler.ticks = s.scheduler.ticks + 1) :
    Ticked s t owner below := by
  have hidle : s.idle = [] := by rw [idle, hnone, List.filter_nil]
  have hsubmitted : submittedSince s t = [] := by
    rw [submittedSince, hpool]
    exact List.drop_of_length_le (by simp)
  refine ⟨hstack, ?_, ?_, ?_, ?_, hticks⟩
  · rw [hsubmitted, hidle]
    rfl
  · rw [hidle]
    exact List.nodup_nil
  · intro _ a ha j hj
    rw [hpool, Array.getElem?_eq_none ha] at hj
    cases hj
  · rw [hsignal, foundSince, hidle]
    rfl

/-- No registration is in force under two roots. -/
theorem nodup_ids {table : Table} (h : table.Linked) : (table.current.map (·.2)).Nodup := by
  have hcurrent : table.current.Nodup := h.roots_nodup.of_map
  refine List.Nodup.map_on ?_ hcurrent
  rintro ⟨root, id⟩ hmem ⟨root', id'⟩ hmem' rfl
  have hroot := h.root_eq hmem
  rw [h.root_eq hmem'] at hroot
  cases hroot
  rfl

/-- The idle registrations are different ones. -/
theorem nodup_idle (h : s.table.Linked) : (s.idle.map (·.2)).Nodup :=
  (nodup_ids h).sublist (List.filter_sublist.map _)

/-- However a session has gone on, a tick that enters and is not disturbed does what it should: while it is under way
nobody stops the scheduler, and no observer aborts a poll of a job. -/
theorem tick_of_run {w : World} {allowed : Action → Prop} {log : List (RegistrationId × List Change)} (hs : Opens w s)
    (h : Run allowed s log t) (hstack : t.stack = .ticking owner .entering :: below) (hfree : t.scheduler.isTicking = false)
    (hworks : (t.takeDisabled .registrations).1 = false) (hms : Moves t ms v)
    (hduring : ∀ m ∈ ms, m.2.scheduler.isTicking = true) (hm : Move v u) (hended : u.scheduler.isTicking = false)
    (hopen : u.scheduler.isStopped = false) (hunshut : u.scheduler.pool.isShut = false)
    (hfine : ∀ m ∈ ms, m.1.abortedJob? = none) : Ticked t u owner below := by
  have htracked : t.outline.Tracked := h.keeps (fun h hm => hm.tracked h) hs.tracked
  have hbooked : t.Booked := by
    refine h.keeps Move.booked fun entry hmem => ?_
    have hnone : s.scheduler.inFlight = [] := congrArg Books.inFlight hs.books
    rw [hnone] at hmem
    cases hmem
  have hlinked : t.table.Linked := h.edits.linked (hs.fresh.table ▸ Table.linked_empty)
  have hmild : t.Mild := by
    obtain ⟨before, hbefore⟩ := h.moves
    exact hbefore.mild hs.mild
  have hticking : t.Ticking := ticking_of_run hs h
  -- the invariant of the moves in between: the tick has not moved yet, or it has submitted `done` and not `waiting`
  have hsubmitting : v = t ∧ ms = [] ∨ ∃ done waiting above, Submitting t v owner below done waiting above := by
    clear hm hfine
    induction hms with
    | refl => exact Or.inl ⟨rfl, rfl⟩
    | @move ms v v' hms hm ih =>
      have hnow := hduring (v, v') (List.mem_append_right _ List.mem_cons_self)
      rcases ih fun m hmem => hduring m (List.mem_append_left _ hmem) with ⟨rfl, -⟩ | ⟨done, waiting, above, hsub⟩
      · exact Or.inr ⟨_, _, _, submitting_of_begins (entering_move hstack hfree hm) hnow⟩
      · exact Or.inr (hsub.move (hms.keeps Move.ticking hticking) (hms.keeps (fun h hm => hm.tracked h) htracked) hm
          (fun id => mem_prune_iff htracked hbooked) (nodup_idle hlinked) hnow)
  rcases hsubmitting with ⟨rfl, -⟩ | ⟨done, waiting, above, hsub⟩
  · cases entering_move hstack hfree hm with
    | begins _ _ hscheduler _ _ _ _ =>
      rw [hscheduler] at hended
      cases hended
    | ends hc _ hticks hstopped hpool _ hbelow _ _ hsignal =>
      cases hc with
      | stopped _ hold =>
        rw [hstopped, hold] at hopen
        cases hopen
      | broken _ hbroken =>
        rw [hworks] at hbroken
        cases hbroken
      | idle _ hnone => exact ticked_of_idle hnone hpool hbelow hsignal hticks
  · refine hsub.ends (hms.keeps Move.ticking hticking) (hms.keeps (fun h hm => hm.tracked h) htracked)
      (hms.keeps Move.parks (parks_of_run hs h)) hm hended hunshut (nodup_idle hlinked) ?_ ?_ ?_
    · -- a job of this tick that failed fatally was aborted in one of its moves
      intro a f ha hfailed
      rcases hms.failed hmild hfailed with hbefore | ⟨m, hmem, haborted⟩
      · obtain ⟨j, hj, -⟩ := Option.map_eq_some_iff.mp hbefore
        exact absurd (Array.getElem?_eq_some_iff.mp hj).1 (Nat.not_lt.mpr ha)
      · rw [hfine m hmem] at haborted
        cases haborted
    · intro a ha
      obtain ⟨id, gate, stage, hmem⟩ := mem_jobs_iff.mp ha
      have hframe : Frame.polling id (.job a) gate stage ∈ t.frames := by
        rw [frames, hstack]
        exact List.mem_append_left _ (List.mem_cons_of_mem _ hmem)
      obtain ⟨j, hj, -⟩ := htracked.scheduled.owned hframe
      exact (Array.getElem?_eq_some_iff.mp hj).1
    · intro e he
      exact hms.edits.rootOf? (hlinked.root_eq he)

/-- A tick begins on top of the stack. -/
theorem stack_tick (s : Session) : ({ s with signal := none }.perform .tick).stack = .ticking .caller .entering :: s.stack := rfl

/-- A table in the narrow world, with two workers. -/
def broadTable : Session :=
  (createTable narrow (.text "poll") 1000 2 []).toOption.getD default

/-- One of two directories is still being polled, because its observer waits, and the other one has a new file. -/
def broadParked : Session :=
  ((((broadTable.after (.attach ⟨.root, ["w"]⟩ (.named "a" (.text "a")) "a") 9).after
    (.attach ⟨.root, ["v"]⟩ (.named "b" (.text "b")) "b") 9).after (.put "/w/x" (.file 2)) 0).after .tick 30).after
    (.put "/v/x" (.file 2)) 0

/-- Another tick is about to enter. -/
def broadTick : Session :=
  { broadParked with signal := none }.perform .tick

/-- The tick polls the directory that is idle, and returns what it found there. -/
theorem tick_of_run_parked : Ticked broadTick (run 14 broadTick) .caller [] ∧
    broadTick.idle = [(⟨.root, ["v"]⟩, 1)] ∧ (run 14 broadTick).waitingPolls = 1 ∧
      foundSince broadTick (run 14 broadTick) = [(⟨.root, ["v"]⟩, [⟨.added, ⟨.root, ["v", "x"]⟩⟩])] := by
  have hmade : createTable narrow (.text "poll") 1000 2 [] = .ok broadTable := rfl
  have hparked : ∃ ms, Moves broadTable ms broadParked := by
    refine ⟨_, ((((Moves.refl.acts _ 9 ?_).acts _ 9 ?_).acts _ 0 ?_).acts _ 30 ?_).acts _ 0 ?_⟩
    all_goals decide +kernel
  obtain ⟨before, hbefore⟩ := hparked
  have hrest : broadParked.step.isNone = true := by decide +kernel
  obtain ⟨log, hrun⟩ := (hbefore.move (Move.act .tick (Option.isNone_iff_eq_none.mp hrest))).run
  have hstack : broadTick.stack = [.ticking .caller .entering] := by
    have hempty : broadParked.stack.isEmpty = true := by decide +kernel
    rw [broadTick, stack_tick, List.isEmpty_iff.mp hempty]
  have hduring : ((movesOf 13 broadTick).all fun m => m.2.scheduler.isTicking && m.1.abortedJob?.isNone) = true := by
    decide +kernel
  rw [List.all_eq_true] at hduring
  have hm : Move (run 13 broadTick) (run 14 broadTick) := move_run (by decide +kernel)
  refine ⟨tick_of_run (Opens.table hmade) hrun hstack (by decide +kernel) (by decide +kernel) (moves_run 13 broadTick) ?_ hm
    (by decide +kernel) (by decide +kernel) (by decide +kernel) ?_, by decide +kernel, by decide +kernel, by decide +kernel⟩
  · intro m hmem
    exact (Bool.and_eq_true _ _ ▸ hduring m hmem).1
  · intro m hmem
    exact Option.isNone_iff_eq_none.mp (Bool.and_eq_true _ _ ▸ hduring m hmem).2

end Session

end DirWatch
