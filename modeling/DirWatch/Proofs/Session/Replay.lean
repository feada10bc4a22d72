import DirWatch.Proofs.Comparison.Replay
import DirWatch.Proofs.Session.Polls

/-!
# The changes that polls return

The baseline of a registration changes only when a poll of it ends with a report, and then the changes that the poll
returns lead from the paths of the old baseline to those of the new one (`Turn.advances`). So however long a session
goes on, and whatever happens to the tree in between, the changes returned for a registration can be replayed, and what
they lead to is what its current baseline knows (`replay_of_run`).
-/

namespace DirWatch.Session

open Change (replay?)
open Table (Keeps)

variable {allowed : Action → Prop} {cause : Option Action} {s t u : Session} {signal : Option Signal}
  {log more : List (RegistrationId × List Change)}

/-- The changes that the polls of one registration returned, in order. -/
def changesOf (id : RegistrationId) (log : List (RegistrationId × List Change)) : List Change :=
  log.flatMap fun entry => if entry.1 = id then entry.2 else []

@[simp] theorem changesOf_nil (id : RegistrationId) : changesOf id [] = [] := rfl

/-- The changes of one log come before those of the next. -/
theorem changesOf_append (id : RegistrationId) (log more : List (RegistrationId × List Change)) :
    changesOf id (log ++ more) = changesOf id log ++ changesOf id more :=
  List.flatMap_append

/-- A poll returns changes for its own registration. -/
theorem changesOf_singleton (id k : RegistrationId) (changes : List Change) :
    changesOf k [(id, changes)] = if id = k then changes else [] := by
  rw [changesOf, List.flatMap_singleton]

/-- The changes returned for a registration lead from the paths of its baseline to those of the later one. -/
def Advances (table table' : Table) (log : List (RegistrationId × List Change)) : Prop :=
  ∀ id r, table.bare? id = some r → ∃ r', table'.bare? id = some r' ∧
    replay? r.baseline.paths (changesOf id log) = some r'.baseline.paths

/-- Where no baseline changes, nothing has to be returned. -/
theorem Advances.of_keeps {table table' : Table} (h : Keeps table table') : Advances table table' [] := by
  intro id r hr
  obtain ⟨r', hr', -, hbaseline⟩ := h id r hr
  exact ⟨r', hr', by rw [changesOf_nil, Change.replay?_nil, hbaseline]⟩

/-- What two logs return, one after the other, leads on from the first baseline to the last. -/
theorem Advances.trans {table table' table'' : Table} (h : Advances table table' log) (h' : Advances table' table'' more) :
    Advances table table'' (log ++ more) := by
  intro id r hr
  obtain ⟨r', hr', hfirst⟩ := h id r hr
  obtain ⟨r'', hr'', hrest⟩ := h' id r' hr'
  refine ⟨r'', hr'', ?_⟩
  rw [changesOf_append, Change.replay?_append, hfirst]
  exact hrest

/-! ## Turns that end no poll -/

/-- No action changes what a poll reads of its registration. -/
theorem Effect.bare? (he : Effect cause s t) (id : RegistrationId) : t.table.bare? id = s.table.bare? id := by
  cases he with
  | quiet h _ => rw [h.table]
  | starts h _ => rw [h.table]
  | cancels hs h => rw [h.table, bare?_cancelEach]
  | joins _ h _ => rw [h.table, Table.bare?_join]
  | revokes _ h => rw [h.table, Table.bare?_cancel, Table.bare?_join]
  | attaches h _ => rw [h.table]
  | reports h => rw [h.table]
  | clears h => rw [h.table, Table.bare?_clear]
  | polls h => rw [h.table]
  | closes h _ => rw [h.table]
  | closed h => rw [h.table, Table.bare?_clear]
  | closedUncleared h _ => rw [h.table]
  | unparks h ht => rw [unpark?_table ht, h.table]
  | rewrites _ hu _ => exact congrArg (fun table : Table => table.bare? id) hu.table
  | disables _ hu => exact congrArg (fun table : Table => table.bare? id) hu.table

def IsPoll : Frame → Bool
  | .polling .. => true
  | _ => false

/-- A passive frame is no poll. -/
theorem Passive.not_poll {f : Frame} (h : Passive f) : IsPoll f = false := by
  cases f with
  | polling _ _ _ _ => exact h.elim
  | _ => rfl

/-- Only a poll in control can return changes. -/
theorem returned?_of_not_poll {frame : Frame} {below : List Frame} (hstack : s.stack = frame :: below)
    (hframe : IsPoll frame = false) (t : Session) : returned? s t = none := by
  unfold returned?
  rw [hstack]
  split
  · rename_i heq
    cases heq
    cases hframe
  · rfl

/-- A poll that has left a frame on the stack has not ended. -/
theorem returned?_of_length {frame : Frame} {below : List Frame} (hstack : s.stack = frame :: below)
    (hlength : t.stack.length ≠ below.length) : returned? s t = none := by
  unfold returned?
  rw [hstack]
  split
  · rename_i heq
    cases heq
    exact if_neg hlength
  · rfl

/-- A part of a step that leaves a frame does not end a poll. -/
theorem Leads.length_ne {table : Table} {state : WatcherState} {f : Frame} {fs below : List Frame}
    (h : Leads (s.popped below) t table state (f :: fs)) : t.stack.length ≠ below.length := by
  rw [h.stack, List.cons_append, List.length_cons, List.length_append]
  change fs.length + below.length + 1 ≠ below.length
  omega

/-- A turn that does not end a poll keeps all baselines and returns nothing. -/
theorem Turn.keeps_or_ends {frame : Frame} {below : List Frame} (hstack : s.stack = frame :: below)
    (hturn : Turn cause (s.popped below) frame signal t) : (Keeps s.table t.table ∧ returned? s t = none) ∨
      ∃ id owner gate stage r outcome u, frame = .polling id owner gate stage ∧ s.table.registrations[id]? = some r ∧
        PollOutcome r stage signal outcome ∧ Calm (s.popped below) u ∧ t = u.endPoll id owner outcome := by
  have hrest : ∀ {f : Frame}, IsPoll f = false → s.stack = f :: below → Keeps s.table t.table →
      Keeps s.table t.table ∧ returned? s t = none :=
    fun hframe hstack hkeeps => ⟨hkeeps, returned?_of_not_poll hstack hframe t⟩
  have hsame : t.table = s.table → Keeps s.table t.table := by
    intro htable
    rw [htable]
    exact Keeps.of_eq fun _ => rfl
  cases hturn with
  | acts hframe h _ he =>
    refine Or.inl (hrest hframe.not_poll hstack (Keeps.of_eq fun id => ?_))
    rw [he.bare?, h.table]
    rfl
  | startsJob _ h hframe =>
    refine Or.inl (hrest ?_ hstack (hsame h.table))
    rcases hframe with hpassive | ⟨owner, rfl⟩
    · exact hpassive.not_poll
    · rfl
  | stays h => exact Or.inl (hrest rfl hstack (hsame h.table))
  | unparks h ht =>
    refine Or.inl (hrest rfl hstack (hsame ?_))
    rw [unpark?_table ht]
    exact h.table
  | clears h =>
    refine Or.inl (hrest rfl hstack (Keeps.of_eq fun id => ?_))
    rw [h.table, Table.bare?_clear]
    rfl
  | uncleared h _ => exact Or.inl (hrest rfl hstack (hsame h.table))
  | parks hu ht =>
    refine Or.inl (hrest rfl hstack (hsame ?_))
    rw [park_table ht]
    exact hu.table
  | asks _ _ h => exact Or.inl (hrest rfl hstack (hsame h.table))
  | waits h => exact Or.inl (hrest rfl hstack (hsame h.table))
  | hands _ => exact Or.inl (hrest rfl hstack (hsame rfl))
  | attaches he _ => exact Or.inl (hrest rfl hstack (Keeps.of_eq fun id => he.bare? id))
  | registers _ h _ =>
    refine Or.inl (hrest rfl hstack ?_)
    rw [h.table]
    exact (Table.keeps_register _ _ _).congr (Table.bare?_join _ _ _)
  | @revokes root _ _ _ baseline _ _ h =>
    refine Or.inl (hrest rfl hstack ?_)
    rw [h.table]
    refine (Table.keeps_register _ root baseline).congr fun id => ?_
    exact (Table.bare?_cancel _ _ id).trans (Table.bare?_join _ _ _ id)
  | enters _ _ h =>
    -- a poll returns something only when its frame goes, and here it is still on the stack
    refine Or.inl ⟨?_, returned?_of_length hstack h.length_ne⟩
    rw [h.table]
    exact Table.keeps_setPolling _ _ true
  | compares _ h => exact Or.inl ⟨hsame h.table, returned?_of_length hstack h.length_ne⟩
  | passes h => exact Or.inl ⟨hsame h.table, returned?_of_length hstack h.length_ne⟩
  | calls _ _ hu =>
    refine Or.inl ⟨hsame hu.table, returned?_of_length hstack ?_⟩
    exact ((hu.trans (Leads.push _ _))).length_ne
  | ends hr ho hu => exact Or.inr ⟨_, _, _, _, _, _, _, rfl, hr, ho, hu, rfl⟩

/-! ## Ends of polls -/

/-- A job that has left has its outcome. -/
theorem outcome?_leave {scheduler : Scheduler} {job : JobId} (h : job < scheduler.pool.jobs.size)
    (outcome : Except Failure (List Change)) : (scheduler.leave job outcome).pool.outcome? job = some outcome := by
  have hget : (scheduler.leave job outcome).pool.jobs[job]? =
      some { scheduler.pool.jobs[job] with status := .finished outcome } := by
    refine (Array.getElem?_modify).trans ?_
    rw [if_pos rfl, Array.getElem?_eq_getElem h]
    rfl
  rw [Pool.outcome?, hget]

/-- A poll that ends with a report leaves its changes. -/
theorem leftFor?_endPoll_ok (u : Session) (id : RegistrationId) {owner : PollOwner}
    (hjob : ∀ job, owner = .job job → job < u.scheduler.pool.jobs.size) (report : Change.Report) :
    (u.endPoll id owner (.ok report)).leftFor? owner = some report.changes := by
  cases owner with
  | caller => rfl
  | job job =>
    have houtcome : (u.endPoll id (.job job) (.ok report)).scheduler.pool.outcome? job = some (.ok report.changes) :=
      outcome?_leave (hjob job rfl) (.ok report.changes)
    rw [leftFor?, houtcome]

/-- A poll that fails leaves no changes. -/
theorem leftFor?_endPoll_error (u : Session) (id : RegistrationId) {owner : PollOwner}
    (hjob : ∀ job, owner = .job job → job < u.scheduler.pool.jobs.size) (f : Failure) {changes : List Change}
    (h : (u.endPoll id owner (.error f)).leftFor? owner = some changes) : changes = [] := by
  cases owner with
  | caller => cases h
  | job job =>
    have hleave := outcome?_leave (hjob job rfl)
    by_cases hfatal : f.isFatal
    · have houtcome : (u.endPoll id (.job job) (.error f)).scheduler.pool.outcome? job = some (.error f) := by
        unfold endPoll endJob
        dsimp only [Except.map]
        rw [if_pos hfatal]
        exact hleave (.error f)
      rw [leftFor?, houtcome] at h
      cases h
    · have houtcome : (u.endPoll id (.job job) (.error f)).scheduler.pool.outcome? job = some (.ok []) := by
        unfold endPoll endJob
        dsimp only [Except.map]
        rw [if_neg hfatal]
        exact hleave (.ok [])
      rw [leftFor?, houtcome] at h
      cases h
      rfl

/-- A poll that has ended returns what it has left. -/
theorem returned?_endPoll {below : List Frame} {id : RegistrationId} {owner : PollOwner} {gate : Gate} {stage : PollStage}
    (hstack : s.stack = .polling id owner gate stage :: below) (hu : Calm (s.popped below) u)
    (outcome : Except Failure Change.Report) : returned? s (u.endPoll id owner outcome) =
      ((u.endPoll id owner outcome).leftFor? owner).map fun changes => (id, changes) := by
  have hlength : (u.endPoll id owner outcome).stack.length = below.length := by
    rw [(endPoll_leads u id owner outcome).stack, hu.stack]
    rfl
  unfold returned?
  rw [hstack]
  exact if_pos hlength

/-- The end of a poll changes no baseline but its own, and that only if it has a report. -/
theorem bare?_endTable {table : Table} {id : RegistrationId} {r : Registration} (h : table.bare? id = some r)
    (outcome : Except Failure Change.Report) (k : RegistrationId) : (endTable table id outcome).bare? k =
      if id = k then some { r with polling := false, baseline := (outcome.map (·.baseline)).toOption.getD r.baseline }
      else table.bare? k := by
  by_cases hk : id = k
  · subst hk
    cases outcome with
    | error f =>
      rw [endTable, Table.bare?_setPolling, if_pos rfl, if_pos rfl, h]
      rfl
    | ok report =>
      rw [endTable, Table.bare?_setBaseline, if_pos rfl, Table.bare?_setPolling, if_pos rfl, if_pos rfl, h]
      rfl
  · rw [if_neg hk]
    cases outcome with
    | error f => rw [endTable, Table.bare?_setPolling, if_neg hk]
    | ok report => rw [endTable, Table.bare?_setBaseline, if_neg hk, Table.bare?_setPolling, if_neg hk]

/-- When a poll ends, what it returns leads from the paths of the baseline before to those of the baseline after. -/
theorem Faithful.advances {below : List Frame} (hf : Faithful s) (hhanded : Handed s) {id : RegistrationId}
    {owner : PollOwner} {gate : Gate} {stage : PollStage} (hstack : s.stack = .polling id owner gate stage :: below)
    (hsignal : s.signal = signal) {r : Registration} (hr : s.table.registrations[id]? = some r)
    {outcome : Except Failure Change.Report} (ho : PollOutcome r stage signal outcome) (hu : Calm (s.popped below) u) :
    Advances s.table (u.endPoll id owner outcome).table (returned? s (u.endPoll id owner outcome)).toList := by
  have hbare := Table.bare?_of_get hr
  have htable : (u.endPoll id owner outcome).table = Session.endTable s.table id outcome := by
    rw [(endPoll_leads u id owner outcome).table, hu.table]
    rfl
  have hjob : ∀ job, owner = .job job → job < u.scheduler.pool.jobs.size := by
    rintro job rfl
    exact Nat.lt_of_lt_of_le (hf.jobs (.polling id (.job job) gate stage) (top_mem_frames hstack) job rfl) hu.jobs
  intro k r' hr'
  rw [htable, bare?_endTable hbare, returned?_endPoll hstack hu]
  cases outcome with
  | error f =>
    have hnil : changesOf k (((u.endPoll id owner (.error f)).leftFor? owner).map fun changes => (id, changes)).toList = [] := by
      cases hleft : (u.endPoll id owner (.error f)).leftFor? owner with
      | none => rfl
      | some changes =>
        cases leftFor?_endPoll_error u id hjob f hleft
        exact (changesOf_singleton id k []).trans (ite_self _)
    rw [hnil]
    by_cases hk : id = k
    · subst hk
      rw [hbare] at hr'
      cases hr'
      exact ⟨_, if_pos rfl, rfl⟩
    · exact ⟨r', (if_neg hk).trans hr', rfl⟩
  | ok report =>
    have hreturned : changesOf k (((u.endPoll id owner (.ok report)).leftFor? owner).map fun changes => (id, changes)).toList =
        if id = k then report.changes else [] := by
      rw [leftFor?_endPoll_ok u id hjob report]
      exact changesOf_singleton id k report.changes
    rw [hreturned]
    by_cases hk : id = k
    · subst hk
      rw [hbare] at hr'
      cases hr'
      obtain ⟨captured, hcomparable, rfl⟩ := hf.report hhanded hstack hr hsignal ho
      refine ⟨_, if_pos rfl, ?_⟩
      rw [if_pos rfl]
      exact Snapshot.replay_diff hcomparable
    · refine ⟨r', (if_neg hk).trans hr', ?_⟩
      rw [if_neg hk]
      rfl

/-! ## Runs -/

/-- What a step returns leads from the baselines before it to those after it. -/
theorem Turn.advances {frame : Frame} {below : List Frame} (hf : Faithful s) (hhanded : Handed s)
    (hstack : s.stack = frame :: below) (hsignal : s.signal = signal)
    (hturn : Turn cause (s.popped below) frame signal t) : Advances s.table t.table (returned? s t).toList := by
  rcases hturn.keeps_or_ends hstack with ⟨hkeeps, hnone⟩ | ⟨id, owner, gate, stage, r, outcome, u, rfl, hr, ho, hu, rfl⟩
  · rw [hnone]
    exact Advances.of_keeps hkeeps
  · exact hf.advances hhanded hstack hsignal hr ho hu

/-- On a run, the changes returned lead from each baseline to the later one. -/
theorem Run.advances {w : World} (hs : Opens w s) (hw : w.disk.Named) (h : Run PutsNames s log t)
    (h' : Run PutsNames t more u) : Advances t.table u.table more := by
  induction h' with
  | refl => exact Advances.of_keeps (Keeps.of_eq fun _ => rfl)
  | @act more u action _ _ _ ih =>
    have heffect := perform_effect { u with signal := none } action
    have hlast : Advances u.table _ [] := Advances.of_keeps (Keeps.of_eq fun id => heffect.bare? id)
    rw [← List.append_nil more]
    exact ih.trans hlast
  | step hrun hstep _ ih =>
    obtain ⟨hf, hhanded⟩ := faithful_of_run hs hw (h.trans hrun)
    obtain ⟨frame, below, hstack, hturn⟩ := step_turn hstep
    exact ih.trans (hturn.advances hf hhanded hstack rfl)

/-- However a session goes on, the changes that the polls of a registration return can be replayed on the paths of its
baseline, and lead to the paths of the baseline that it has then. No path is added twice without being removed in between. -/
theorem replay_of_run {w : World} (hs : Opens w s) (hw : w.disk.Named) (h : Run PutsNames s log t) {id : RegistrationId}
    {r : Registration} (hr : t.table.registrations[id]? = some r) (h' : Run PutsNames t more u) :
    ∃ r', u.table.registrations[id]? = some r' ∧
      replay? r.baseline.paths (changesOf id more) = some r'.baseline.paths ∧
      ∀ p before between after, changesOf id more = before ++ ⟨.added, p⟩ :: between ++ ⟨.added, p⟩ :: after →
        ⟨.removed, p⟩ ∈ between := by
  obtain ⟨bare, hbare, hreplay⟩ := Run.advances hs hw h h' id r.bare (Table.bare?_of_get hr)
  obtain ⟨r', hr', rfl⟩ := Table.get_of_bare? hbare
  refine ⟨r', hr', hreplay, ?_⟩
  intro p before between after heq
  rw [heq] at hreplay
  exact Change.removed_between hreplay

/-- A world with an empty directory at `/w`. -/
def hollow : World where
  disk := { root := .directory [("w", .directory [] 1)] 0 }

def hollowTable : Session :=
  (createTable hollow (.text "poll") 1000 4 []).toOption.getD default

/-- The directory is watched, and it is polled each time after a file in it was made, removed and made again. -/
def watchedTable : Session :=
  hollowTable.after (.attach ⟨.root, ["w"]⟩ (.named "a" (.text "a")) "a") 4

def filledTable : Session :=
  (watchedTable.after (.put "/w/x" (.file 2)) 0).after (.poll "a" none) 9

def emptiedTable : Session :=
  (filledTable.after (.remove "/w/x") 0).after (.poll "a" none) 8

def refilledTable : Session :=
  (emptiedTable.after (.put "/w/x" (.file 3)) 0).after (.poll "a" none) 9

theorem replay_of_run_refilled : ∃ r r', watchedTable.table.registrations[0]? = some r ∧
    refilledTable.table.registrations[0]? = some r' ∧ replay? r.baseline.paths
      [⟨.added, ⟨.root, ["w", "x"]⟩⟩, ⟨.removed, ⟨.root, ["w", "x"]⟩⟩, ⟨.added, ⟨.root, ["w", "x"]⟩⟩] =
        some r'.baseline.paths := by
  have hmade : createTable hollow (.text "poll") 1000 4 [] = .ok hollowTable := rfl
  have hopens : Opens hollow hollowTable := Opens.table hmade
  have hnamed : hollow.disk.Named := ⟨⟨by decide, trivial⟩, trivial⟩
  have hname : Path.IsName (Disk.splitName "/w/x").2 := by decide +kernel
  have hwatched : Run PutsNames hollowTable _ watchedTable :=
    Run.refl.acts (by decide +kernel) trivial (by decide +kernel)
  have hput : Run PutsNames watchedTable _ (watchedTable.after (.put "/w/x" (.file 2)) 0) :=
    Run.refl.acts (by decide +kernel) ⟨hname, trivial⟩ (by decide +kernel)
  have hfilled : Run PutsNames watchedTable _ filledTable :=
    hput.acts (by decide +kernel) trivial (by decide +kernel)
  have hremoved : Run PutsNames watchedTable _ (filledTable.after (.remove "/w/x") 0) :=
    hfilled.acts (by decide +kernel) trivial (by decide +kernel)
  have hemptied : Run PutsNames watchedTable _ emptiedTable :=
    hremoved.acts (by decide +kernel) trivial (by decide +kernel)
  have hputAgain : Run PutsNames watchedTable _ (emptiedTable.after (.put "/w/x" (.file 3)) 0) :=
    hemptied.acts (by decide +kernel) ⟨hname, trivial⟩ (by decide +kernel)
  have hrefilled : ∃ log, Run PutsNames watchedTable log refilledTable ∧ changesOf 0 log =
      [⟨.added, ⟨.root, ["w", "x"]⟩⟩, ⟨.removed, ⟨.root, ["w", "x"]⟩⟩, ⟨.added, ⟨.root, ["w", "x"]⟩⟩] :=
    ⟨_, hputAgain.acts (by decide +kernel) trivial (by decide +kernel), by decide +kernel⟩
  obtain ⟨log, hrefilled, hlog⟩ := hrefilled
  have hsome : (watchedTable.table.registrations[0]?).isSome = true := by decide +kernel
  obtain ⟨r, hr⟩ := Option.isSome_iff_exists.mp hsome
  obtain ⟨r', hr', hreplay, -⟩ := replay_of_run hopens hnamed hwatched hr hrefilled
  rw [hlog] at hreplay
  exact ⟨r, r', hr, hr', hreplay⟩

end DirWatch.Session
