import DirWatch.Proofs.Session.Jobs
import DirWatch.Proofs.Session.Moves
import DirWatch.Proofs.Session.Pace

/-!
# The moves of a tick

`TickMove` lists exactly what one step of a tick does: it enters, it lets the pool start a job, it passes over a busy
registration, it submits a poll, or it ends, and `TickConcludes` says why. Every other move leaves ticks alone
(`Move.tick_or_paced`), so there is at most one tick that submits its polls (`ticking_of_run`).
-/

namespace DirWatch.Session

/-- What a tick leaves for its owner. -/
def tickSignal : TickOwner → Except Failure (List (Path × List Change)) → Signal
  | .caller, r => .replied (r.map .changesByRoot)
  | .loop, r => .ticked r

/-- Why a tick ends, what it returns, and by how much it counts. -/
inductive TickConcludes (s : Session) : TickStage → Except Failure (List (Path × List Change)) → Nat → Prop
  /-- The scheduler has been told to stop. -/
  | stopped (hfree : s.scheduler.isTicking = false) (hstopped : s.scheduler.isStopped = true) :
      TickConcludes s .entering (.ok []) 0
  /-- The registrations were made not to be read. -/
  | broken (hfree : s.scheduler.isTicking = false) (hbroken : (s.takeDisabled .registrations).1 = true) :
      TickConcludes s .entering (.error (.injected .registrations)) 0
  /-- Nothing is registered. -/
  | idle (hfree : s.scheduler.isTicking = false) (hnone : s.table.current = []) : TickConcludes s .entering (.ok []) 1
  /-- The pool has been shut before the next submission. -/
  | shut {id waiting all submitted} (hfull : s.scheduler.pool.ready? = none) (hshut : s.scheduler.pool.isShut = true) :
      TickConcludes s (.submitting (id :: waiting) all submitted)
        (if s.scheduler.isStopped then .ok [] else .error .poolShut) 0
  /-- A poll that was submitted has failed fatally. -/
  | failed {all submitted f} (hfull : s.scheduler.pool.ready? = none) (hcollect : s.collect submitted = .error f) :
      TickConcludes s (.submitting [] all submitted) (.error f) 0
  /-- All polls have been submitted. -/
  | completed {all submitted changes} (hfull : s.scheduler.pool.ready? = none)
      (hcollect : s.collect submitted = .ok changes) :
      TickConcludes s (.submitting [] all submitted) (.ok changes) 1

/-- Exactly what one step of the tick in control does. -/
inductive TickMove (s : Session) (below : List Frame) (owner : TickOwner) : TickStage → Session → Prop
  /-- No other tick is under way, and the registrations in force are to be polled. -/
  | begins {t} (hfree : s.scheduler.isTicking = false) (hopen : s.scheduler.isStopped = false)
      (hscheduler : t.scheduler = { s.scheduler.prune with isTicking := true })
      (hstack : t.stack = .ticking owner
        (.submitting (s.table.current.map (·.2)) (s.table.current.map (·.2)).length []) :: below)
      (hparked : t.parked = s.parked) (htable : t.table = s.table) (hsignal : t.signal = none) :
      TickMove s below owner .entering t
  /-- A worker is free and starts a job. -/
  | starts {waiting all submitted id} (hready : s.scheduler.pool.ready? = some id) :
      TickMove s below owner (.submitting waiting all submitted)
        (((s.popped below).push (.ticking owner (.submitting waiting all submitted))).startJob id)
  /-- The next registration has an unfinished job. -/
  | skips {id waiting all submitted t} (hfull : s.scheduler.pool.ready? = none) (hbusy : s.scheduler.isBusy id = true)
      (hscheduler : t.scheduler = s.scheduler) (hstack : t.stack = .ticking owner (.submitting waiting all submitted) :: below)
      (hparked : t.parked = s.parked) (htable : t.table = s.table) (hsignal : t.signal = none) :
      TickMove s below owner (.submitting (id :: waiting) all submitted) t
  /-- A poll of the next registration is submitted. -/
  | submits {id waiting all submitted t} (hfull : s.scheduler.pool.ready? = none) (hfree : s.scheduler.isBusy id = false)
      (hscheduler : t.scheduler = (s.scheduler.submit id).1)
      (hstack : t.stack = .ticking owner (.submitting waiting all (submitted ++ [s.scheduler.pool.jobs.size])) :: below)
      (hparked : t.parked = s.parked) (htable : t.table = s.table) (hsignal : t.signal = none) :
      TickMove s below owner (.submitting (id :: waiting) all submitted) t
  /-- The tick ends. -/
  | ends {stage r counted t} (hc : TickConcludes s stage r counted)
      (hticking : t.scheduler.isTicking = false) (hticks : t.scheduler.ticks = s.scheduler.ticks + counted)
      (hstopped : t.scheduler.isStopped = s.scheduler.isStopped) (hpool : t.scheduler.pool = s.scheduler.pool)
      (hinFlight : ∀ entry ∈ t.scheduler.inFlight, entry ∈ s.scheduler.inFlight) (hstack : t.stack = below)
      (hparked : t.parked = s.parked) (htable : t.table = s.table) (hsignal : t.signal = some (tickSignal owner r)) :
      TickMove s below owner stage t

variable {s t u : Session} {below : List Frame} {owner : TickOwner} {stage : TickStage} {ms : List (Session × Session)}

/-! ## The steps of a tick -/

/-- What is collected depends on the jobs and the registrations only. -/
theorem collect_congr (hpool : t.scheduler.pool = s.scheduler.pool) (htable : t.table = s.table) (ids : List JobId) :
    t.collect ids = s.collect ids := by
  induction ids with
  | nil => rfl
  | cons id ids ih => rw [collect, collect, hpool, htable, ih]

/-- A failure that is used up changes nothing in the scheduler. -/
theorem takeDisabled_scheduler (s : Session) (operation : Operation) :
    (s.takeDisabled operation).2.scheduler = s.scheduler := by
  unfold takeDisabled
  split <;> rfl

theorem takeDisabled_signal (s : Session) (operation : Operation) : (s.takeDisabled operation).2.signal = s.signal := by
  unfold takeDisabled
  split <;> rfl

/-- A tick ends: its owner is told. -/
theorem endTick_move {r : Except Failure (List (Path × List Change))} {counted : Nat} (hc : TickConcludes s stage r counted)
    (hticks : u.scheduler.ticks = s.scheduler.ticks + counted)
    (hstopped : u.scheduler.isStopped = s.scheduler.isStopped) (hpool : u.scheduler.pool = s.scheduler.pool)
    (hinFlight : ∀ entry ∈ u.scheduler.inFlight, entry ∈ s.scheduler.inFlight) (hu : Calm (s.popped below) u) :
    TickMove s below owner stage (u.endTick owner r) := by
  cases owner with
  | caller => exact TickMove.ends hc rfl hticks hstopped hpool hinFlight hu.stack hu.parked hu.table rfl
  | loop => exact TickMove.ends hc rfl hticks hstopped hpool hinFlight hu.stack hu.parked hu.table rfl

/-- A tick without jobs to start is completed. -/
theorem completeTick_move {all : Nat} {submitted : List JobId} (hfull : s.scheduler.pool.ready? = none) :
    TickMove s below owner (.submitting [] all submitted) ((s.popped below).completeTick owner all submitted) := by
  have hcollect : (s.popped below).collect submitted = s.collect submitted := @collect_congr s (s.popped below) rfl rfl submitted
  have hcount : Calm (s.popped below) (s.popped below).countTick := Calm.countTick _
  unfold completeTick
  rw [hcollect]
  split
  · rename_i f hf
    exact endTick_move (TickConcludes.failed hfull hf) rfl rfl rfl (fun _ h => h) (Calm.refl _)
  · rename_i changes hchanges
    dsimp only
    split
    · exact endTick_move (TickConcludes.completed hfull hchanges) rfl rfl rfl (fun _ h => h) hcount
    · exact endTick_move (TickConcludes.completed hfull hchanges) rfl rfl rfl (fun _ h => h) (hcount.trans (Calm.notice _ _))

/-- A tick that enters takes its turn, and ends at once after a stop. -/
theorem enterTick_move (hfree : s.scheduler.isTicking = false) :
    TickMove s below owner .entering
      ({ s.popped below with scheduler := { s.scheduler with isTicking := true } }.enterTick owner) := by
  have hticking : Calm (s.popped below) { s.popped below with scheduler := { s.scheduler with isTicking := true } } :=
    Calm.scheduler _ (Nat.le_refl _)
  -- the session gets a name, so that what is known of it is rewritten and it is not unfolded again
  generalize hv : { s.popped below with scheduler := { s.scheduler with isTicking := true } } = v at hticking
  have hscheduler : v.scheduler = { s.scheduler with isTicking := true } := by rw [← hv]
  have hsignal : v.signal = none := by rw [← hv, popped]
  have hdisabled : v.disabled = s.disabled := by rw [← hv, popped]
  have hfails : (v.takeDisabled .registrations).1 = (s.takeDisabled .registrations).1 := by
    unfold takeDisabled
    rw [hdisabled]
    split <;> rfl
  unfold enterTick
  split
  · rename_i hstopped
    rw [hscheduler] at hstopped
    refine endTick_move (TickConcludes.stopped hfree hstopped) ?_ ?_ ?_ ?_ hticking <;> rw [hscheduler]
    · rfl
    · exact fun _ h => h
  · rename_i hopen
    rw [hscheduler] at hopen
    have htake := hticking.trans (Calm.takeDisabled v .registrations)
    have htaken := (takeDisabled_scheduler v .registrations).trans hscheduler
    have hunsignalled := (takeDisabled_signal v .registrations).trans hsignal
    dsimp only
    rw [hfails]
    generalize (v.takeDisabled .registrations).2 = w at htake htaken hunsignalled
    split
    · rename_i hbroken
      refine endTick_move (TickConcludes.broken hfree hbroken) ?_ ?_ ?_ ?_ htake <;> rw [htaken]
      · rfl
      · exact fun _ h => h
    · have hprune : Calm (s.popped below) { w with scheduler := w.scheduler.prune } :=
        htake.trans (Calm.scheduler _ (Nat.le_refl _))
      have hcurrent : w.table.current = s.table.current := congrArg Table.current htake.table
      have hpruned : w.scheduler.prune = { s.scheduler.prune with isTicking := true } := by rw [htaken]; rfl
      split
      · rename_i hnone
        rw [hcurrent, List.map_eq_nil_iff] at hnone
        have hcounted : ({ w with scheduler := w.scheduler.prune }.countTick).scheduler =
            { w.scheduler.prune with ticks := w.scheduler.prune.ticks + 1 } := rfl
        refine endTick_move (TickConcludes.idle hfree hnone) ?_ ?_ ?_ ?_ (hprune.trans (Calm.countTick _)) <;>
          rw [hcounted, hpruned]
        · rfl
        · rfl
        · rfl
        · exact fun _ h => List.mem_of_mem_filter h
      · rw [hcurrent]
        exact TickMove.begins hfree (Bool.not_eq_true _ ▸ hopen) hpruned (congrArg (_ :: ·) hprune.stack) hprune.parked
          hprune.table hunsignalled

/-- Every step of a tick is one of these moves. -/
theorem step_tick (hstack : s.stack = .ticking owner stage :: below) (ht : s.step = some t) :
    TickMove s below owner stage t := by
  unfold step at ht
  rw [hstack] at ht
  change (s.popped below).stepTick owner stage = some t at ht
  unfold stepTick at ht
  split at ht
  · split at ht
    · cases ht
    · rename_i hfree
      cases ht
      exact enterTick_move (Bool.not_eq_true _ ▸ hfree)
  · split at ht
    · rename_i hready
      cases ht
      exact TickMove.starts hready
    · rename_i hfull
      cases ht
      exact completeTick_move hfull
    · rename_i id waiting hfull
      split at ht
      · rename_i hbusy
        cases ht
        exact TickMove.skips hfull hbusy rfl rfl rfl rfl rfl
      · rename_i hfree
        split at ht
        · rename_i hshut
          cases ht
          exact endTick_move (TickConcludes.shut hfull hshut) rfl rfl rfl (fun _ h => h) (Calm.refl _)
        · cases ht
          exact TickMove.submits hfull (Bool.not_eq_true _ ▸ hfree) rfl rfl rfl rfl rfl

/-! ## Moves and ticks -/

/-- A session just before the move that it makes: no signal is left, and the frame in control is off the stack. -/
inductive Ready (s : Session) : Session → Prop
  | act (hrest : s.step = none) : Ready s { s with signal := none }
  | step {frame below} (hstack : s.stack = frame :: below) (hframe : ∀ owner stage, frame ≠ .ticking owner stage) :
      Ready s (s.popped below)

/-- A move is one of the tick in control, or it leaves ticks alone. -/
theorem Move.tick_or_paced (hm : Move s t) :
    (∃ owner stage below, s.stack = .ticking owner stage :: below ∧ s.step = some t ∧ TickMove s below owner stage t) ∨
    ∃ v, Ready s v ∧ Paced v t := by
  cases hm with
  | act action hrest => exact Or.inr ⟨_, Ready.act hrest, perform_paced _ action⟩
  | step ht =>
    obtain ⟨frame, below, hstack, -⟩ := step_turn ht
    by_cases hframe : ∃ owner stage, frame = .ticking owner stage
    · obtain ⟨owner, stage, rfl⟩ := hframe
      exact Or.inl ⟨owner, stage, below, hstack, ht, step_tick hstack ht⟩
    · have hnot : ∀ owner stage, frame ≠ .ticking owner stage := fun owner stage heq => hframe ⟨owner, stage, heq⟩
      exact Or.inr ⟨_, Ready.step hstack hnot, step_paced hstack hnot ht⟩

section

variable {v : Session}

theorem Ready.scheduler (h : Ready s v) : v.scheduler = s.scheduler := by cases h <;> rfl

theorem Ready.signal (h : Ready s v) : v.signal = none := by cases h <;> rfl

/-- The frames are those before the move, but for the one in control. -/
theorem Ready.frames (h : Ready s v) :
    v.frames = s.frames ∨ ∃ frame, (∀ owner stage, frame ≠ .ticking owner stage) ∧ s.frames = frame :: v.frames := by
  cases h with
  | act _ => exact Or.inl rfl
  | step hstack hframe => exact Or.inr ⟨_, hframe, frames_popped hstack⟩

end

/-- A loop is told of a tick by the tick itself. -/
theorem Move.ticked (hm : Move s t) {r : Except Failure (List (Path × List Change))} (hr : t.signal = some (.ticked r)) :
    ∃ stage counted, s.stack = .ticking .loop stage :: t.stack ∧ TickConcludes s stage r counted := by
  rcases hm.tick_or_paced with ⟨owner, stage, below, hstack, -, htick⟩ | ⟨v, hready, hpaced⟩
  · cases htick with
    | begins _ _ _ _ _ _ hsignal =>
      rw [hsignal] at hr
      cases hr
    | starts hready =>
      have hnone := (Paced.startJob ((s.popped below).push _) _).ticked r hr
      cases hnone
    | skips _ _ _ _ _ _ hsignal =>
      rw [hsignal] at hr
      cases hr
    | submits _ _ _ _ _ _ hsignal =>
      rw [hsignal] at hr
      cases hr
    | ends hc _ _ _ _ _ hbelow _ _ hsignal =>
      rw [hsignal] at hr
      cases owner with
      | caller => cases hr
      | loop =>
        cases hr
        exact ⟨stage, _, hbelow ▸ hstack, hc⟩
  · have hnone := hpaced.ticked r hr
    rw [hready.signal] at hnone
    cases hnone

/-- A step of a tick takes no other frame away. -/
theorem TickMove.frames (h : TickMove s below owner stage t) : ∃ fs, t.frames.Perm (fs ++ (s.popped below).frames) := by
  have hkept : ∀ fs, t.stack = fs ++ below → t.parked = s.parked →
    ∃ fs, t.frames.Perm (fs ++ (s.popped below).frames) := by
    intro fs hstack hparked
    refine ⟨fs, List.Perm.of_eq ?_⟩
    rw [Session.frames, hstack, hparked, List.append_assoc]
    rfl
  cases h with
  | begins _ _ _ hstack hparked _ _ => exact hkept [_] hstack hparked
  | @starts waiting all submitted id _ =>
    obtain ⟨fs, hperm, -⟩ :=
      (Paced.startJob ((s.popped below).push (.ticking owner (.submitting waiting all submitted))) id).frames
    refine ⟨fs ++ [.ticking owner (.submitting waiting all submitted)], ?_⟩
    rw [List.append_assoc]
    exact hperm
  | skips _ _ _ hstack hparked _ _ => exact hkept [_] hstack hparked
  | submits _ _ _ hstack hparked _ _ => exact hkept [_] hstack hparked
  | ends _ _ _ _ _ _ hstack hparked _ _ => exact hkept [] hstack hparked

/-- Whoever has been told to stop stays so, and a pool that has been shut stays shut. -/
theorem Move.stays_stopped (hm : Move s t) : (s.scheduler.isStopped = true → t.scheduler.isStopped = true) ∧
    (s.scheduler.pool.isShut = true → t.scheduler.pool.isShut = true) := by
  have hsame : t.scheduler.isStopped = s.scheduler.isStopped → t.scheduler.pool.isShut = s.scheduler.pool.isShut →
      (s.scheduler.isStopped = true → t.scheduler.isStopped = true) ∧
        (s.scheduler.pool.isShut = true → t.scheduler.pool.isShut = true) := by
    intro hstopped hshut
    rw [hstopped, hshut]
    exact ⟨fun h => h, fun h => h⟩
  rcases hm.tick_or_paced with ⟨owner, stage, below, -, -, htick⟩ | ⟨v, hready, hpaced⟩
  · cases htick with
    | begins _ _ hscheduler _ _ _ _ => exact hsame (by rw [hscheduler]; rfl) (by rw [hscheduler]; rfl)
    | @starts waiting all submitted id _ =>
      have hstart := Paced.startJob ((s.popped below).push (.ticking owner (.submitting waiting all submitted))) id
      exact ⟨hstart.steady.stopped, hstart.steady.shut⟩
    | skips _ _ hscheduler _ _ _ _ => exact hsame (by rw [hscheduler]) (by rw [hscheduler])
    | submits _ _ hscheduler _ _ _ _ => exact hsame (by rw [hscheduler]; rfl) (by rw [hscheduler]; rfl)
    | ends _ _ _ hstopped hpool _ _ _ _ _ => exact hsame hstopped (by rw [hpool])
  · have hstopped := hpaced.steady.stopped
    have hshut := hpaced.steady.shut
    rw [hready.scheduler] at hstopped hshut
    exact ⟨hstopped, hshut⟩

/-- No worker comes or goes. -/
theorem Move.workers (hm : Move s t) : t.scheduler.pool.workers = s.scheduler.pool.workers := by
  rcases hm.tick_or_paced with ⟨owner, stage, below, -, -, htick⟩ | ⟨v, hready, hpaced⟩
  · cases htick with
    | begins _ _ hscheduler _ _ _ _ | submits _ _ hscheduler _ _ _ _ =>
      rw [hscheduler]
      rfl
    | @starts waiting all submitted id _ =>
      exact (Paced.startJob ((s.popped below).push (.ticking owner (.submitting waiting all submitted))) id).steady.workers
    | skips _ _ hscheduler _ _ _ _ => rw [hscheduler]
    | ends _ _ _ _ hpool _ _ _ _ _ => rw [hpool]
  · rw [hpaced.steady.workers, hready.scheduler]

/-! ## One tick at a time -/

/-- The number of ticks that submit their polls. -/
def submitting (s : Session) : Nat :=
  s.frames.countP isSubmitting

/-- What leaves ticks alone begins and ends none. -/
theorem Paced.submitting (h : Paced s t) : t.submitting = s.submitting := by
  obtain ⟨fs, hperm, hlight⟩ := h.frames
  have hnone : fs.countP isSubmitting = 0 := List.countP_eq_zero.mpr fun f hf => by rw [hlight f hf]; exact Bool.false_ne_true
  rw [Session.submitting, hperm.countP_eq, List.countP_append, hnone, Nat.zero_add, Session.submitting]

/-- A tick submits its polls if and only if a tick is under way, and then it is the only one. -/
def Ticking (s : Session) : Prop :=
  s.submitting = s.scheduler.isTicking.toNat

/-- A tick on top counts if it submits its polls. -/
theorem submitting_of_ticking (hstack : s.stack = .ticking owner stage :: below) (hparked : s.parked = u.parked) :
    s.submitting = (isSubmitting (.ticking owner stage)).toNat + (u.popped below).submitting := by
  have hpopped : (s.popped below).frames = (u.popped below).frames := by
    rw [frames, popped, hparked]
    rfl
  rw [submitting, frames_popped hstack, hpopped, List.countP_cons, Nat.add_comm]
  cases isSubmitting (.ticking owner stage) <;> rfl

/-- Every move keeps this: a tick waits for its turn before it submits. -/
theorem Move.ticking (h : s.Ticking) (hm : Move s t) : t.Ticking := by
  rcases hm.tick_or_paced with ⟨owner, stage, below, hstack, -, htick⟩ | ⟨v, hready, hpaced⟩
  · have hbefore := submitting_of_ticking hstack rfl
    rw [Ticking, hbefore] at h
    cases htick with
    | begins hfree _ hscheduler ht hparked _ _ =>
      rw [hfree] at h
      rw [Ticking, submitting_of_ticking ht hparked, hscheduler]
      exact congrArg (1 + ·) (Nat.zero_add _ ▸ h)
    | @starts waiting all submitted id _ =>
      have hstart := Paced.startJob ((s.popped below).push (.ticking owner (.submitting waiting all submitted))) id
      have hpush : ((s.popped below).push (.ticking owner (.submitting waiting all submitted))).submitting = _ :=
        submitting_of_ticking rfl (u := s) rfl
      rw [Ticking, hstart.submitting, hstart.steady.ticking, hpush]
      exact h
    | skips _ _ hscheduler ht hparked _ _ =>
      rw [Ticking, submitting_of_ticking ht hparked, hscheduler]
      exact h
    | submits _ _ hscheduler ht hparked _ _ =>
      rw [Ticking, submitting_of_ticking ht hparked, hscheduler]
      exact h
    | ends hc hticking _ _ _ _ ht hparked _ _ =>
      have hsame : t.submitting = (s.popped below).submitting := by
        rw [submitting, submitting, frames, frames, ht, hparked]
        rfl
      have hone := Bool.toNat_le s.scheduler.isTicking
      rw [Ticking, hsame, hticking]
      cases hc with
      | stopped hfree _ | broken hfree _ | idle hfree _ =>
        rw [hfree] at h
        exact (Nat.zero_add _).symm.trans h
      | shut _ _ | failed _ _ | completed _ _ =>
        change 1 + _ = _ at h
        change _ = 0
        omega
  · have hcount : v.submitting = s.submitting := by
      rcases hready.frames with heq | ⟨frame, hframe, heq⟩
      · rw [submitting, heq, submitting]
      · rw [submitting, submitting, heq, List.countP_cons_of_neg]
        cases frame with
        | ticking owner stage => exact absurd rfl (hframe owner stage)
        | _ => exact Bool.false_ne_true
    rw [Ticking, hpaced.submitting, hpaced.steady.ticking, hcount, hready.scheduler]
    exact h

/-- No tick is under way when a session is made. -/
theorem Opens.untimed {w : World} (h : Opens w s) : s.scheduler.isTicking = false := by
  obtain ⟨name, interval, workers, isStarted, -, hsame⟩ := h.scheduler
  rw [hsame]

/-- However a session goes on, at most one tick submits its polls. -/
theorem ticking_of_run {allowed : Action → Prop} {log : List (RegistrationId × List Change)} {w : World} (hs : Opens w s)
    (h : Run allowed s log t) : Ticking t := by
  refine h.keeps Move.ticking ?_
  have hnone : s.frames = [] := by
    rw [frames, hs.fresh.stack, hs.fresh.parked]
    rfl
  rw [Ticking, submitting, hnone, hs.untimed]
  rfl

end DirWatch.Session
