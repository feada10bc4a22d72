import DirWatch.Session.Run

/-!
# What a part of a step does to a session

`Leads s t table state frames` says in one statement what a part of a step did: the table and the state of the watcher
afterwards, the frames it put on the stack, and that everything else which matters later was left alone. No observer was
called, nothing was parked, the tree of files is the same, and no capture was handed over. `Calm` is the case in which the
table, the state and the stack are the same as before. Parts that follow each other are put together by `Leads.trans`.
-/

namespace DirWatch.Session

/-- The calls of observers so far, the latest first. -/
def calls (s : Session) : List (Observer × List Change) :=
  s.trace.filterMap fun
    | .call observer changes => some (observer, changes)
    | _ => none

/-- The way from one session to another on which no observer is called. -/
structure Leads (s t : Session) (table : Table) (state : WatcherState) (frames : List Frame) : Prop where
  table : t.table = table
  state : t.watcher.state = state
  stack : t.stack = frames ++ s.stack
  parked : t.parked = s.parked
  calls : t.calls = s.calls
  disk : t.disk = s.disk
  /-- No job is forgotten. -/
  jobs : s.scheduler.pool.jobs.size ≤ t.scheduler.pool.jobs.size
  /-- No capture is handed over. -/
  captured : ∀ r, t.signal = some (.captured r) → s.signal = some (.captured r)
  /-- Clearing does not begin to fail. -/
  clear : s.disabled.lookup .clear = none → t.disabled.lookup .clear = none

/-- Nothing happens to the table, the state and the stack. -/
abbrev Calm (s t : Session) : Prop :=
  Leads s t s.table s.watcher.state []

variable {s t u : Session} {table table' : Table} {state state' : WatcherState} {fs gs : List Frame}

theorem Calm.refl (s : Session) : Calm s s :=
  ⟨rfl, rfl, rfl, rfl, rfl, rfl, Nat.le_refl _, fun _ h => h, fun h => h⟩

/-- Parts that follow each other lead on together, and the later frames stand on the earlier ones. -/
theorem Leads.trans (h : Leads s t table state fs) (h' : Leads t u table' state' gs) :
    Leads s u table' state' (gs ++ fs) where
  table := h'.table
  state := h'.state
  stack := by rw [h'.stack, h.stack, List.append_assoc]
  parked := h'.parked.trans h.parked
  calls := h'.calls.trans h.calls
  disk := h'.disk.trans h.disk
  jobs := Nat.le_trans h.jobs h'.jobs
  captured := fun r hr => h.captured r (h'.captured r hr)
  clear := fun hc => h'.clear (h.clear hc)

/-- The table and the state that a part leads to may be written in another way. -/
theorem Leads.cast (h : Leads s t table state fs) (htable : table = table') (hstate : state = state') :
    Leads s t table' state' fs := by
  subst htable hstate
  exact h

/-- What follows a calm part leads there from before it. -/
theorem Calm.then (h : Calm s t) (h' : Leads t u table state fs) : Leads s u table state fs := by
  have := Leads.trans h h'
  rwa [List.append_nil] at this

/-- Two calm parts in a row are calm. -/
theorem Calm.trans (h : Calm s t) (h' : Calm t u) : Calm s u := by
  have := h.then h'
  rwa [h.table, h.state] at this

/-- A calm part at the end changes nothing of what was done. -/
theorem Leads.calm (h : Leads s t table state fs) (h' : Calm t u) : Leads s u table state fs := by
  have := Leads.trans h h'
  rwa [h.table, h.state] at this

/-! ## Single changes -/

/-- A notice goes to the log. -/
theorem Calm.notice (s : Session) (n : Notice) : Calm s (s.notice n) :=
  ⟨rfl, rfl, rfl, rfl, rfl, rfl, Nat.le_refl _, fun _ h => h, fun h => h⟩

/-- Several go there one by one. -/
theorem Calm.notices (s : Session) (ns : List Notice) : Calm s (s.notices ns) := by
  induction ns generalizing s with
  | nil => exact Calm.refl s
  | cons n ns ih => exact (Calm.notice s n).trans (ih (s.notice n))

/-- An answer to the caller is a signal that is no capture. -/
theorem Calm.reply (s : Session) (r : Reply) : Calm s (s.reply r) :=
  ⟨rfl, rfl, rfl, rfl, rfl, rfl, Nat.le_refl _, fun _ h => (nomatch h), fun h => h⟩

theorem Calm.done (s : Session) : Calm s s.done := Calm.reply s _

theorem Calm.fail (s : Session) (f : Failure) : Calm s (s.fail f) := Calm.reply s _

theorem Calm.finished (s : Session) : Calm s (s.leave .finished) :=
  ⟨rfl, rfl, rfl, rfl, rfl, rfl, Nat.le_refl _, fun _ h => (nomatch h), fun h => h⟩

theorem Calm.raised (s : Session) (f : Failure) : Calm s (s.leave (.raised f)) :=
  ⟨rfl, rfl, rfl, rfl, rfl, rfl, Nat.le_refl _, fun _ h => (nomatch h), fun h => h⟩

theorem Calm.ticked (s : Session) (r : Except Failure (List (Path × List Change))) : Calm s (s.leave (.ticked r)) :=
  ⟨rfl, rfl, rfl, rfl, rfl, rfl, Nat.le_refl _, fun _ h => (nomatch h), fun h => h⟩

/-- An answer is kept in the trace, where it is no call of an observer. -/
theorem Calm.recordReply (s : Session) (current : Option String) (signal : Option Signal) :
    Calm s (s.recordReply current signal) := by
  unfold Session.recordReply
  split
  · exact ⟨rfl, rfl, rfl, rfl, rfl, rfl, Nat.le_refl _, fun _ h => h, fun h => h⟩
  · exact Calm.refl s

/-- A frame put on the stack is all that changes. -/
theorem Leads.push (s : Session) (f : Frame) : Leads s (s.push f) s.table s.watcher.state [f] :=
  ⟨rfl, rfl, rfl, rfl, rfl, rfl, Nat.le_refl _, fun _ h => h, fun h => h⟩

/-- A new table is all that changes. -/
theorem Leads.setTable (s : Session) (table : Table) : Leads s { s with table } table s.watcher.state [] :=
  ⟨rfl, rfl, rfl, rfl, rfl, rfl, Nat.le_refl _, fun _ h => h, fun h => h⟩

/-- A new state of the watcher is all that changes. -/
theorem Leads.setState (s : Session) (state : WatcherState) :
    Leads s { s with watcher := { s.watcher with state } } s.table state [] :=
  ⟨rfl, rfl, rfl, rfl, rfl, rfl, Nat.le_refl _, fun _ h => h, fun h => h⟩

/-- The scheduler may do anything but forget jobs. -/
theorem Calm.scheduler (s : Session) {scheduler : Scheduler}
    (h : s.scheduler.pool.jobs.size ≤ scheduler.pool.jobs.size) : Calm s { s with scheduler } :=
  ⟨rfl, rfl, rfl, rfl, rfl, rfl, h, fun _ h => h, fun h => h⟩

/-- A fault planned for a call on the files, or taken back, is calm. -/
theorem Calm.setFault (s : Session) (path : String) (kind : CallKind) (fault : Option (Fault Action)) :
    Calm s (s.setFault path kind fault) :=
  ⟨rfl, rfl, rfl, rfl, rfl, rfl, Nat.le_refl _, fun _ h => h, fun h => h⟩

theorem Calm.takeScript (s : Session) (name : String) : Calm s (s.takeScript name).2 := by
  unfold Session.takeScript
  split
  · exact ⟨rfl, rfl, rfl, rfl, rfl, rfl, Nat.le_refl _, fun _ h => h, fun h => h⟩
  · exact Calm.refl s

/-- Removing the entries of one key leaves the lookup of another alone. -/
theorem lookup_filter_ne {α β : Type} [BEq α] [LawfulBEq α] {a b : α} (hne : a ≠ b) (l : List (α × β)) :
    (l.filter (·.1 != b)).lookup a = l.lookup a := by
  induction l with
  | nil => rfl
  | cons p rest ih =>
    obtain ⟨k, v⟩ := p
    rw [List.lookup_cons]
    by_cases hk : k = b
    · subst hk
      rw [List.filter_cons_of_neg (by simp), ih, beq_eq_false_iff_ne.mpr hne]
    · rw [List.filter_cons_of_pos (by simpa using hk), List.lookup_cons, ih]

/-- Taking a failure of an operation away lets no other operation fail. -/
theorem Calm.takeDisabled (s : Session) (operation : Operation) : Calm s (s.takeDisabled operation).2 := by
  unfold Session.takeDisabled
  split
  · exact Calm.refl s
  · exact Calm.refl s
  · exact Calm.refl s
  · rename_i n hn
    refine ⟨rfl, rfl, rfl, rfl, rfl, rfl, Nat.le_refl _, fun _ h => h, ?_⟩
    intro hclear
    have hne : Operation.clear ≠ operation := by
      rintro rfl
      rw [hclear] at hn
      cases hn
    rw [List.lookup_cons, beq_eq_false_iff_ne.mpr hne]
    exact (lookup_filter_ne hne _).trans hclear

/-- An operation that fails was made to fail. -/
theorem disabled_of_takeDisabled {operation : Operation} (h : (s.takeDisabled operation).1 = true) :
    s.disabled.lookup operation ≠ none := by
  unfold Session.takeDisabled at h
  intro hnone
  rw [hnone] at h
  cases h

/-! ## Parts of a tick, of a stop and of a poll -/

/-- A scheduler that starts is calm, whether or not it had been started before. -/
theorem Calm.startScheduler (s : Session) : Calm s s.startScheduler := by
  unfold Session.startScheduler
  split
  · exact Calm.refl s
  · have h : Calm s { s with scheduler := { s.scheduler with isStarted := true } } := Calm.scheduler s (Nat.le_refl _)
    exact h.trans (Calm.notice _ _)

/-- A pool that takes no new jobs keeps those it has. -/
theorem Calm.shutPool (s : Session) : Calm s s.shutPool :=
  Calm.scheduler s (Nat.le_refl _)

/-- A tick is counted. -/
theorem Calm.countTick (s : Session) : Calm s s.countTick :=
  Calm.scheduler s (Nat.le_refl _)

/-- A tick that ends answers its caller or the loop. -/
theorem Calm.endTick (s : Session) (owner : TickOwner) (r : Except Failure (List (Path × List Change))) :
    Calm s (s.endTick owner r) := by
  have h : Calm s { s with scheduler := { s.scheduler with isTicking := false } } := Calm.scheduler s (Nat.le_refl _)
  cases owner with
  | caller => exact h.trans (Calm.reply _ _)
  | loop => exact h.trans (Calm.ticked _ _)

/-- A tick that has heard of its jobs is counted, and ends. -/
theorem Calm.completeTick (s : Session) (owner : TickOwner) (all : Nat) (submitted : List JobId) :
    Calm s (s.completeTick owner all submitted) := by
  unfold Session.completeTick
  split
  · exact Calm.endTick s _ _
  · refine (Calm.countTick s).trans ?_
    dsimp only
    split
    · exact Calm.endTick _ _ _
    · exact (Calm.notice _ _).trans (Calm.endTick _ _ _)

/-- The loop ends with its thread. -/
theorem Calm.endLoop (s : Session) : Calm s s.endLoop :=
  (Calm.notice s _).trans (Calm.done _)

/-- A job that changes its status keeps its number in the pool. -/
theorem jobs_setStatus (p : Pool) (id : JobId) (status : JobStatus) : (p.setStatus id status).jobs.size = p.jobs.size :=
  Array.size_modify

/-- A registration is no longer in flight. -/
theorem Calm.leaveJob (s : Session) (id : JobId) (outcome : Except Failure (List Change)) :
    Calm s { s with scheduler := s.scheduler.leave id outcome } :=
  Calm.scheduler s (Nat.le_of_eq (jobs_setStatus _ _ _).symm)

/-- The end of a job is settled in the pool, noted if it failed, and forgotten nowhere. -/
theorem Calm.endJob (s : Session) (id : JobId) (root : Path) (outcome : Except Failure (List Change)) :
    Calm s (s.endJob id root outcome) := by
  unfold Session.endJob
  split
  · split
    · exact Calm.leaveJob s _ _
    · exact (Calm.leaveJob s _ _).trans (Calm.notice _ _)
  · exact Calm.leaveJob s _ _

/-- An observer that failed is noted in the log. -/
theorem Calm.reportFailed (s : Session) (root : Path) (current : Option HandleId) (report : Change.Report) :
    Calm s (s.reportFailed root current report) := by
  unfold Session.reportFailed
  split
  · exact Calm.notice s _
  · exact Calm.refl s

/-- A job starts its poll. -/
theorem Leads.startJob (s : Session) {id : JobId} {job : Job} (h : s.scheduler.pool.jobs[id]? = some job) :
    Leads s (s.startJob id) s.table s.watcher.state [.polling job.registration (.job id) .scheduler .entering] := by
  unfold Session.startJob
  rw [h]
  have henter : Calm s { s with scheduler := s.scheduler.enter id } :=
    Calm.scheduler s (Nat.le_of_eq (jobs_setStatus _ _ _).symm)
  exact henter.then (Leads.push _ _)

/-! ## Handles -/

/-- Cancels handles one after another. -/
def cancelEach (table : Table) (hs : List HandleId) : Table :=
  hs.foldl (fun table h => (table.cancel h).1) table

/-- Cancelling a handle changes the table and tells the log. -/
theorem Leads.cancelHandle (s : Session) (h : HandleId) :
    Leads s (s.cancelHandle h) (s.table.cancel h).1 s.watcher.state [] := by
  unfold Session.cancelHandle
  dsimp only
  split
  · exact Leads.setTable s _
  · exact (Leads.setTable s _).calm (Calm.notice _ _)
  · exact (Leads.setTable s _).calm (Calm.notices _ _)

/-- Cancelling several does so one after the other. -/
theorem Leads.cancelHandles (s : Session) (hs : List HandleId) :
    Leads s (s.cancelHandles hs) (cancelEach s.table hs) s.watcher.state [] := by
  unfold Session.cancelHandles cancelEach
  induction hs generalizing s with
  | nil => exact Calm.refl s
  | cons h hs ih =>
    have hfirst := Leads.cancelHandle s h
    have hrest := ih (s.cancelHandle h)
    rw [hfirst.table, hfirst.state] at hrest
    exact hfirst.trans hrest

/-- A label for a handle is for the caller only. -/
theorem Calm.labelled (s : Session) (label : String) (h : HandleId) (root : Path) : Calm s (s.labelled label h root) :=
  ⟨rfl, rfl, rfl, rfl, rfl, rfl, Nat.le_refl _, fun _ h => (nomatch h), fun h => h⟩

end DirWatch.Session
