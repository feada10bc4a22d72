import DirWatch.Proofs.Session.Registrations
import DirWatch.Proofs.Session.Replay
import DirWatch.Proofs.Session.Stages

/-!
# The moves of a run

`Move s t` is one thing that happens on a run: a step, or an action that comes from outside when nothing goes on by
itself. `Moves s ms t` is a run from `s` to `t` with all its moves, so that it can be told what happened when. A move is
made by the poll in control, or it leaves alone what the polls read of the table (`Move.rests_or_polls`).
-/

namespace DirWatch

namespace Table

/-- The polls find their registrations as they left them, and nobody polls a new one. -/
structure Rests (t t' : Table) : Prop where
  bare : ∀ {id r}, t.bare? id = some r → t'.bare? id = some r
  fresh : ∀ {id}, t.bare? id = none → t'.isPolling id = false

variable {t t' t'' : Table}

/-- A table in which every poll reads the same lets the polls rest. -/
theorem Rests.of_eq (h : ∀ id, t'.bare? id = t.bare? id) : Rests t t' where
  bare := fun hr => (h _).trans hr
  fresh := fun hnone => by rw [isPolling, h, hnone]; rfl

theorem Rests.congr (h : Rests t t') (heq : ∀ id, t''.bare? id = t'.bare? id) : Rests t t'' where
  bare := fun hr => (heq _).trans (h.bare hr)
  fresh := fun hnone => by rw [isPolling, heq]; exact h.fresh hnone

/-- Where the polls rest, just the same registrations are being polled. -/
theorem Rests.isPolling (h : Rests t t') (id : RegistrationId) : t'.isPolling id = t.isPolling id := by
  cases hbare : t.bare? id with
  | none =>
    rw [h.fresh hbare, Table.isPolling, hbare]
    rfl
  | some r => rw [Table.isPolling, Table.isPolling, h.bare hbare, hbare]

/-- What a poll reads of a registration. -/
theorem read_of_bare? {id : RegistrationId} {r : Registration} (h : t.bare? id = some r) : ∃ r',
    t.registrations[id]? = some r' ∧ r'.root = r.root ∧ r'.baseline = r.baseline ∧ r'.polling = r.polling := by
  obtain ⟨r', hr', rfl⟩ := get_of_bare? h
  exact ⟨r', hr', rfl, rfl, rfl⟩

/-- A registration is being polled if it is marked so. -/
theorem isPolling_of_get {id : RegistrationId} {r : Registration} (hr : t.registrations[id]? = some r) :
    t.isPolling id = r.polling := by
  rw [isPolling, bare?_of_get hr]
  rfl

/-- A new registration is polled by nobody yet. -/
theorem rests_register (t : Table) (root : Path) (baseline : Snapshot) : Rests t (t.register root baseline).1 where
  bare := by
    intro id r hr
    have hne : id ≠ t.registrations.size := by
      rintro rfl
      rw [bare?_size] at hr
      cases hr
    rw [bare?_register, if_neg hne, hr]
  fresh := by
    intro id hnone
    rw [isPolling_register, Table.isPolling, hnone]
    rfl

end Table

namespace Session

open Table (Rests)

/-- One thing that happens on a run. -/
inductive Move (s : Session) : Session → Prop
  /-- Nothing goes on by itself, and an action comes from outside. -/
  | act (action : Action) (hrest : s.step = none) : Move s ({ s with signal := none }.perform action)
  /-- The frame on top goes on. -/
  | step {t} (ht : s.step = some t) : Move s t

/-- A run with all its moves, each with the session before it and the session after it. -/
inductive Moves (s : Session) : List (Session × Session) → Session → Prop
  | refl : Moves s [] s
  | move {ms t u} (h : Moves s ms t) (hm : Move t u) : Moves s (ms ++ [(t, u)]) u

variable {cause : Option Action} {s t u : Session} {signal : Option Signal} {allowed : Action → Prop}
  {log : List (RegistrationId × List Change)} {ms more : List (Session × Session)}

theorem Moves.single (hm : Move s t) : Moves s [(s, t)] t :=
  Moves.refl.move hm

/-- One run with its moves goes on with another. -/
theorem Moves.trans (h : Moves s ms t) (h' : Moves t more u) : Moves s (ms ++ more) u := by
  induction h' with
  | refl =>
    rw [List.append_nil]
    exact h
  | move _ hm ih =>
    rw [← List.append_assoc]
    exact ih.move hm

/-- Every run has its moves. -/
theorem Run.moves (h : Run allowed s log t) : ∃ ms, Moves s ms t := by
  induction h with
  | refl => exact ⟨[], Moves.refl⟩
  | act _ hrest _ ih =>
    obtain ⟨ms, hms⟩ := ih
    exact ⟨_, hms.move (Move.act _ hrest)⟩
  | step _ ht _ ih =>
    obtain ⟨ms, hms⟩ := ih
    exact ⟨_, hms.move (Move.step ht)⟩

/-- The moves make a run on which any action is allowed. -/
theorem Moves.run (h : Moves s ms t) : ∃ log, Run (fun _ => True) s log t := by
  induction h with
  | refl => exact ⟨[], Run.refl⟩
  | move _ hm ih =>
    obtain ⟨log, hlog⟩ := ih
    cases hm with
    | act action hrest => exact ⟨_, hlog.act hrest trivial⟩
    | step ht => exact ⟨_, hlog.step ht fun _ _ => trivial⟩

/-- What every move keeps, a run keeps. -/
theorem Run.keeps {P : Session → Prop} (hmove : ∀ {t u}, P t → Move t u → P u) (h : Run allowed s log t) (hs : P s) :
    P t := by
  induction h with
  | refl => exact hs
  | act _ hrest _ ih => exact hmove ih (Move.act _ hrest)
  | step _ ht _ ih => exact hmove ih (Move.step ht)

/-- What every move keeps holds after all of them. -/
theorem Moves.keeps {P : Session → Prop} (hmove : ∀ {t u}, P t → Move t u → P u) (h : Moves s ms t) (hs : P s) : P t := by
  induction h with
  | refl => exact hs
  | move _ hm ih => exact hmove ih hm

/-- The steps that can be taken one after another, at most `n` of them. -/
def movesOf : Nat → Session → List (Session × Session)
  | 0, _ => []
  | n + 1, s =>
    match s.step with
    | none => []
    | some t => (s, t) :: movesOf n t

/-- The evaluation of a session for some steps is a run, and its moves are listed. -/
theorem moves_run (n : Nat) (s : Session) : Moves s (movesOf n s) (Session.run n s) := by
  induction n generalizing s with
  | zero => exact Moves.refl
  | succ n ih =>
    rw [movesOf, Session.run]
    cases ht : s.step with
    | none => exact Moves.refl
    | some t => exact (Moves.single (Move.step ht)).trans (ih t)

/-- All the listed moves are steps. -/
theorem step_of_movesOf {n : Nat} {m : Session × Session} (h : m ∈ movesOf n s) : m.1.step = some m.2 := by
  induction n generalizing s with
  | zero => cases h
  | succ n ih =>
    unfold movesOf at h
    split at h
    · cases h
    · rename_i t ht
      rcases List.mem_cons.mp h with rfl | h
      · exact ht
      · exact ih h

/-- Where nothing goes on by itself, steps lead nowhere. -/
theorem Moves.eq_of_rest (h : Moves s ms t) (hrest : s.step = none) (hsteps : ∀ m ∈ ms, m.1.step = some m.2) : t = s := by
  induction h with
  | refl => rfl
  | move _ _ ih =>
    obtain rfl := ih fun m hm => hsteps m (List.mem_append_left _ hm)
    have hstep := hsteps _ (List.mem_append_right _ (List.mem_singleton_self _))
    rw [hrest] at hstep
    cases hstep

/-- One more step is one more move. -/
theorem move_run {n : Nat} (h : (Session.run n s).step.isSome = true) : Move (Session.run n s) (Session.run (n + 1) s) := by
  induction n generalizing s with
  | zero =>
    obtain ⟨t, ht⟩ := Option.isSome_iff_exists.mp h
    have ht : s.step = some t := ht
    rw [Session.run, Session.run, ht]
    exact Move.step ht
  | succ n ih =>
    rw [Session.run] at h ⊢
    cases ht : s.step with
    | none =>
      rw [ht] at h
      dsimp only at h
      rw [ht] at h
      cases h
    | some t =>
      rw [ht] at h
      rw [Session.run, ht]
      exact ih h

/-- The moves of an action from outside and of the steps that follow it. -/
def movesAfter (s : Session) (action : Action) (n : Nat) : List (Session × Session) :=
  (s, { s with signal := none }.perform action) :: movesOf n ({ s with signal := none }.perform action)

/-- A run goes on with one more action from outside and the steps after it. -/
theorem Moves.acts (h : Moves s ms t) (action : Action) (n : Nat) (hrest : t.step.isNone = true) :
    Moves s (ms ++ t.movesAfter action n) (t.after action n) :=
  h.trans ((Moves.single (Move.act action (Option.isNone_iff_eq_none.mp hrest))).trans (moves_run n _))

/-! ## The tree of files -/

/-- Whether an action is one on the tree of files. -/
def editsTree : Action → Bool
  | .put _ _ | .remove _ | .touch _ _ | .changeDirectory _ => true
  | _ => false

/-- A call taken up again finds the files as they are. -/
theorem unpark?_disk (h : s.unpark? = some t) : t.disk = s.disk := by
  obtain ⟨above, rest, -, rfl⟩ := unpark?_eq h
  rfl

/-- A call that parks leaves the files alone. -/
theorem park_disk (h : s.park = some t) : t.disk = s.disk := by
  obtain ⟨above, below, -, -, rfl⟩ := park_eq h
  rfl

/-- The tree is changed by actions on it only. -/
theorem Effect.disk (he : Effect cause s t) (hcause : ∀ action, cause = some action → editsTree action = false) :
    t.disk = s.disk := by
  cases he with
  | quiet h _ => exact h.disk
  | starts h _ => exact h.disk
  | cancels _ h => exact h.disk
  | joins _ h _ => exact h.disk
  | revokes _ h => exact h.disk
  | attaches h _ => exact h.disk
  | reports h => exact h.disk
  | clears h => exact h.disk
  | polls h => exact h.disk
  | closes h _ => exact h.disk
  | closed h => exact h.disk
  | closedUncleared h _ => exact h.disk
  | unparks h ht => exact (unpark?_disk ht).trans h.disk
  | @rewrites _ action _ hsome _ hrewrites =>
    have hnot := hcause action hsome
    cases action <;> first | exact hrewrites.elim | cases hnot
  | disables _ h => exact h.disk

/-- A turn leaves the files alone unless it begins an action that edits them. -/
theorem Turn.disk {frame : Frame} (hturn : Turn cause s frame signal t)
    (hcause : ∀ action, cause = some action → editsTree action = false) : t.disk = s.disk := by
  cases hturn with
  | acts _ h _ he => exact (he.disk hcause).trans h.disk
  | startsJob _ h _ => exact h.disk
  | stays h => exact h.disk
  | unparks h ht => exact (unpark?_disk ht).trans h.disk
  | clears h => exact h.disk
  | uncleared h _ => exact h.disk
  | parks hu ht => exact (park_disk ht).trans hu.disk
  | asks _ _ h => exact h.disk
  | waits h => exact h.disk
  | hands _ => rfl
  | attaches he hdirect =>
    refine he.disk fun action hsome => ?_
    rcases hdirect with hnone | ⟨-, root, observer, label, hattach⟩
    · rw [hsome] at hnone
      cases hnone
    · rw [hsome] at hattach
      cases hattach
      rfl
  | registers _ h _ => exact h.disk
  | revokes _ h => exact h.disk
  | enters _ _ h => exact h.disk
  | compares _ h => exact h.disk
  | passes h => exact h.disk
  | calls _ _ hu => exact hu.disk
  | ends _ _ hu => exact (endPoll_leads _ _ _ _).disk.trans hu.disk

/-- Whether a session is about to take a step that begins no action on the tree. -/
def keepsTree (s : Session) : Bool :=
  s.step.isSome && s.nextAction?.all fun action => !editsTree action

/-- The files are left alone by every move of a session that keeps its tree. -/
theorem Move.disk (hm : Move s t) (h : s.keepsTree = true) : t.disk = s.disk := by
  rw [keepsTree, Bool.and_eq_true] at h
  cases hm with
  | act _ hrest =>
    rw [hrest] at h
    cases h.1
  | step ht =>
    obtain ⟨frame, below, -, hturn⟩ := step_turn ht
    refine hturn.disk fun action hsome => ?_
    rw [hsome] at h
    simpa using h.2

/-- Over such steps the tree stays as it is. -/
theorem Moves.disk (h : Moves s ms t) (hkeep : ∀ m ∈ ms, m.1.keepsTree = true) :
    (∀ m ∈ ms, m.1.disk = s.disk ∧ m.2.disk = s.disk) ∧ t.disk = s.disk := by
  induction h with
  | refl => exact ⟨fun _ hm => (nomatch hm), rfl⟩
  | @move ms t u _ hm ih =>
    obtain ⟨hbefore, ht⟩ := ih fun m hmem => hkeep m (List.mem_append_left _ hmem)
    have hu := (hm.disk (hkeep (t, u) (List.mem_append_right _ List.mem_cons_self))).trans ht
    refine ⟨fun m hmem => ?_, hu⟩
    rcases List.mem_append.mp hmem with hmem | hmem
    · exact hbefore m hmem
    · rw [List.mem_singleton.mp hmem]
      exact ⟨ht, hu⟩

/-! ## Who moves -/

/-- The registration whose poll is in control, if a poll is. -/
def polled? (s : Session) : Option RegistrationId :=
  match s.stack with
  | .polling id _ _ _ :: _ => some id
  | _ => none

/-- The poll in control is the one on top of the stack. -/
theorem polled?_of_stack {id : RegistrationId} {owner : PollOwner} {gate : Gate} {stage : PollStage} {below : List Frame}
    (h : s.stack = .polling id owner gate stage :: below) : s.polled? = some id := by
  rw [polled?, h]

/-- No action does anything to a poll, as far as the table is concerned. -/
theorem Effect.rests (he : Effect cause s t) : Rests s.table t.table :=
  Rests.of_eq he.bare?

/-- A frame that is no poll leaves alone what the polls read of the table. -/
theorem Turn.rests {frame : Frame} (hturn : Turn cause s frame signal t) (hframe : IsPoll frame = false) :
    Rests s.table t.table := by
  have hsame : t.table = s.table → Rests s.table t.table := by
    intro htable
    rw [htable]
    exact Rests.of_eq fun _ => rfl
  cases hturn with
  | acts _ h _ he =>
    rw [← h.table]
    exact he.rests
  | startsJob _ h _ => exact hsame h.table
  | stays h => exact hsame h.table
  | unparks h ht => exact hsame ((unpark?_table ht).trans h.table)
  | clears h =>
    rw [h.table]
    exact Rests.of_eq (Table.bare?_clear _)
  | uncleared h _ => exact hsame h.table
  | parks hu ht => exact hsame ((park_table ht).trans hu.table)
  | asks _ _ h => exact hsame h.table
  | waits h => exact hsame h.table
  | hands _ => exact hsame rfl
  | attaches he _ => exact he.rests
  | registers _ h _ =>
    rw [h.table]
    exact (Table.rests_register _ _ _).congr (Table.bare?_join _ _ _)
  | @revokes root _ _ _ baseline _ _ h =>
    rw [h.table]
    refine (Table.rests_register _ root baseline).congr fun id => ?_
    exact (Table.bare?_cancel _ _ id).trans (Table.bare?_join _ _ _ id)
  | enters _ _ _ => cases hframe
  | compares _ _ => cases hframe
  | passes _ => cases hframe
  | calls _ _ _ => cases hframe
  | ends _ _ _ => cases hframe

/-- A move is one of the poll in control, or it leaves all polls alone. -/
theorem Move.rests_or_polls (hm : Move s t) :
    (Shift s.outline t.outline ∧ Rests s.table t.table ∧ (s.step = none ∨ s.polled? = none)) ∨
    ∃ id owner gate stage below, s.stack = .polling id owner gate stage :: below ∧ s.step = some t ∧
      PollMove s below id owner gate stage s.signal t := by
  cases hm with
  | act action hrest =>
    left
    have heffect := perform_effect { s with signal := none } action
    exact ⟨perform_shift { s with signal := none } action, heffect.rests, Or.inl hrest⟩
  | step ht =>
    obtain ⟨frame, below, hstack, hturn⟩ := step_turn ht
    by_cases hframe : IsPoll frame = true
    · right
      cases frame with
      | polling id owner gate stage => exact ⟨id, owner, gate, stage, below, hstack, ht, step_move hstack ht⟩
      | _ => cases hframe
    · left
      have hnot : ∀ id owner gate stage below', s.stack ≠ .polling id owner gate stage :: below' := by
        intro id owner gate stage below' heq
        rw [hstack] at heq
        cases heq
        exact hframe rfl
      refine ⟨step_shift ht hnot, hturn.rests (Bool.not_eq_true _ ▸ hframe), Or.inr ?_⟩
      unfold polled?
      split
      · rename_i heq
        exact absurd heq (hnot _ _ _ _ _)
      · rfl

/-- The patterns of the watcher do not change with the outline. -/
theorem Shift.patterns {o o' : Outline} (h : Shift o o') : o'.patterns = o.patterns := by
  cases h <;> rfl

/-- A poll captures with the patterns of the watcher and leaves them alone. -/
theorem PollMove.patterns {below : List Frame} {id : RegistrationId} {owner : PollOwner} {gate : Gate} {stage : PollStage}
    (h : PollMove s below id owner gate stage signal t) : t.patterns = s.patterns := by
  cases h with
  | enters _ _ _ _ houtline => exact congrArg Outline.patterns houtline
  | compares _ _ _ _ houtline => exact congrArg Outline.patterns houtline
  | passes _ _ _ _ _ houtline => exact congrArg Outline.patterns houtline
  | calls _ _ _ _ _ _ _ houtline => exact congrArg Outline.patterns houtline
  | ends _ _ _ houtline =>
    exact (congrArg Outline.patterns (outline_endPoll _ id owner _)).trans (congrArg Outline.patterns houtline)

/-- The patterns of a session never change. -/
theorem Move.patterns (hm : Move s t) : t.patterns = s.patterns := by
  rcases hm.rests_or_polls with ⟨hshift, -, -⟩ | ⟨_, _, _, _, _, -, -, hmove⟩
  · exact hshift.patterns
  · exact hmove.patterns

/-- A move changes the table by its edits only. -/
theorem Move.edits (hm : Move s t) : Table.Edits s.table t.table := by
  cases hm with
  | act action _ => exact (perform_effect { s with signal := none } action).edits
  | step ht =>
    obtain ⟨frame, below, -, hturn⟩ := step_turn ht
    exact hturn.edits

theorem Moves.edits (h : Moves s ms t) : Table.Edits s.table t.table := by
  induction h with
  | refl => exact .refl
  | move _ hm ih => exact Relation.ReflTransGen.trans ih hm.edits

/-- A run comes to each of its moves. -/
theorem Moves.comes_to (h : Moves s ms t) {m : Session × Session} (hm : m ∈ ms) :
    (∃ front, Moves s front m.1) ∧ Move m.1 m.2 := by
  induction h with
  | refl => cases hm
  | move hms hlast ih =>
    rcases List.mem_append.mp hm with hm | hm
    · exact ih hm
    · rw [List.mem_singleton.mp hm]
      exact ⟨⟨_, hms⟩, hlast⟩

/-- The table before a move of a run comes from the one at its beginning. -/
theorem Moves.edits_of_mem (h : Moves s ms t) {m : Session × Session} (hm : m ∈ ms) : Table.Edits s.table m.1.table := by
  obtain ⟨⟨_, hfront⟩, -⟩ := h.comes_to hm
  exact hfront.edits

end Session

end DirWatch
