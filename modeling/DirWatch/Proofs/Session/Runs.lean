import DirWatch.Proofs.Session.Turns
import DirWatch.Session.Create

/-!
# Runs of a session

A run performs actions from outside whenever the session cannot go on by itself, and otherwise takes its steps. `Run allowed
s log t` is a run from `s` to `t` on which only allowed actions begin, inside the session or from outside. Its log lists the
polls that were completed, each with the changes that it returned.
-/

namespace DirWatch.Session

/-- A session as it is made in a world. -/
inductive Opens (w : World) : Session → Prop
  | watcher {args s} (h : create w args = .ok s) : Opens w s
  | running {args s} (h : createRunning w args = .ok s) : Opens w s
  | table {name intervalMs workers patterns s} (h : createTable w name intervalMs workers patterns = .ok s) : Opens w s

/-- The changes that a poll has left for its owner: a caller gets them as a reply, and a job keeps them as its outcome. -/
def leftFor? (s : Session) : PollOwner → Option (List Change)
  | .caller =>
    match s.signal with
    | some (.replied (.ok (.changes changes))) => some changes
    | _ => none
  | .job job =>
    match s.scheduler.pool.outcome? job with
    | some (.ok changes) => some changes
    | _ => none

/-- The changes that a poll returns in a step: the poll was in control before the step and has ended after it. -/
def returned? (s t : Session) : Option (RegistrationId × List Change) :=
  match s.stack with
  | .polling id owner _ _ :: below =>
    if t.stack.length = below.length then (t.leftFor? owner).map fun changes => (id, changes) else none
  | _ => none

/-- A run on which only allowed actions begin, with the polls completed on it. -/
inductive Run (allowed : Action → Prop) (s : Session) : List (RegistrationId × List Change) → Session → Prop
  | refl : Run allowed s [] s
  /-- Nothing goes on by itself, and an action comes from outside. -/
  | act {log t action} (h : Run allowed s log t) (hrest : t.step = none) (ha : allowed action) :
      Run allowed s log ({ t with signal := none }.perform action)
  /-- The frame on top goes on. -/
  | step {log t u} (h : Run allowed s log t) (hstep : t.step = some u)
      (ha : ∀ action, t.nextAction? = some action → allowed action) :
      Run allowed s (log ++ (returned? t u).toList) u

variable {allowed : Action → Prop} {s t u : Session} {log : List (RegistrationId × List Change)}

/-- One run goes on with another. -/
theorem Run.trans {more : List (RegistrationId × List Change)} (h : Run allowed s log t) (h' : Run allowed t more u) :
    Run allowed s (log ++ more) u := by
  induction h' with
  | refl =>
    rw [List.append_nil]
    exact h
  | act _ hrest ha ih => exact ih.act hrest ha
  | step _ ht ha ih =>
    rw [← List.append_assoc]
    exact ih.step ht ha

/-- The polls completed in some steps. -/
def completed : Nat → Session → List (RegistrationId × List Change)
  | 0, _ => []
  | n + 1, s =>
    match s.step with
    | none => []
    | some t => (returned? s t).toList ++ completed n t

/-- A run goes on by steps that begin allowed actions only. -/
theorem Run.goes (h : Run allowed s log t) (n : Nat)
    (hn : ∀ m < n, ∀ action, (run m t).nextAction? = some action → allowed action) :
    Run allowed s (log ++ completed n t) (run n t) := by
  induction n generalizing log t with
  | zero =>
    rw [completed, List.append_nil]
    exact h
  | succ n ih =>
    cases hstep : t.step with
    | none =>
      rw [run, completed, hstep, List.append_nil]
      exact h
    | some u =>
      have hrun : ∀ m, run (m + 1) t = run m u := fun m => by rw [run, hstep]
      rw [hrun, completed, hstep, ← List.append_assoc]
      refine ih (h.step hstep (hn 0 (Nat.succ_pos n))) ?_
      intro m hm
      rw [← hrun]
      exact hn (m + 1) (Nat.succ_lt_succ hm)

/-- A run goes on by steps that begin no action. -/
theorem Run.steps (h : Run allowed s log t) (n : Nat) (hn : ∀ m < n, (run m t).nextAction?.isNone = true) :
    Run allowed s (log ++ completed n t) (run n t) := by
  refine h.goes n fun m hm action haction => ?_
  have hnone := hn m hm
  rw [haction] at hnone
  cases hnone

/-- What an action from outside leads to in some steps. -/
def after (s : Session) (action : Action) (n : Nat) : Session :=
  run n ({ s with signal := none }.perform action)

/-- The polls completed after an action from outside in some steps. -/
def completedAfter (s : Session) (action : Action) (n : Nat) : List (RegistrationId × List Change) :=
  completed n ({ s with signal := none }.perform action)

/-- A run goes on with an action from outside and steps that begin no other. -/
theorem Run.acts {action : Action} {n : Nat} (h : Run allowed s log t) (hrest : t.step.isNone = true)
    (ha : allowed action) (hn : ∀ m < n, (t.after action m).nextAction?.isNone = true) :
    Run allowed s (log ++ t.completedAfter action n) (t.after action n) :=
  (h.act (Option.isNone_iff_eq_none.mp hrest) ha).steps n hn

/-- A run goes on with an allowed action from outside and steps that begin no other ones. -/
theorem Run.actsWithin {p : Action → Bool} {action : Action} {n : Nat} (h : Run (fun action => p action = true) s log t)
    (hrest : t.step.isNone = true) (ha : p action = true)
    (hn : ∀ m < n, (t.after action m).nextAction?.all p = true) :
    Run (fun action => p action = true) s (log ++ t.completedAfter action n) (t.after action n) := by
  refine (h.act (Option.isNone_iff_eq_none.mp hrest) ha).goes n fun m hm next hnext => ?_
  have hall := hn m hm
  rw [after, hnext] at hall
  exact hall

/-! ## Sessions at their beginning -/

/-- A session with an empty table and nothing under way. -/
structure Fresh (w : World) (s : Session) : Prop where
  table : s.table = {}
  stack : s.stack = []
  parked : s.parked = []
  signal : s.signal = none
  disk : s.disk = w.disk
  open_ : s.watcher.state ≠ .closed
  clear : s.disabled.lookup .clear = none

/-- What succeeds in two parts succeeds in each. -/
theorem ok_of_bind {ε α β : Type} {x : Except ε α} {f : α → Except ε β} {b : β} (h : (x >>= f) = .ok b) :
    ∃ a, x = .ok a ∧ f a = .ok b := by
  cases x with
  | error e => cases h
  | ok a => exact ⟨a, rfl, h⟩

/-- A watcher that is created is new, and nothing has happened yet. -/
theorem create_fresh {w : World} {args : WatcherArguments} (h : create w args = .ok s) :
    Fresh w s ∧ s.watcher.state = .created := by
  unfold create at h
  obtain ⟨settings, -, h⟩ := ok_of_bind h
  obtain ⟨interval, -, h⟩ := ok_of_bind h
  obtain ⟨workers, -, h⟩ := ok_of_bind h
  obtain ⟨scheduler, -, h⟩ := ok_of_bind h
  cases h
  exact ⟨⟨rfl, rfl, rfl, rfl, rfl, fun hc => (nomatch hc), rfl⟩, rfl⟩

/-- Every session is fresh when it is made. -/
theorem Opens.fresh {w : World} (h : Opens w s) : Fresh w s := by
  cases h with
  | watcher h => exact (create_fresh h).1
  | running h =>
    unfold createRunning at h
    cases hmade : Session.create w _ with
    | error e =>
      rw [hmade] at h
      cases h
    | ok made =>
      rw [hmade] at h
      cases h
      obtain ⟨hfresh, hstate⟩ := create_fresh hmade
      have hstart := Leads.start made .nothing hstate
      refine ⟨?_, ?_, ?_, rfl, ?_, ?_, ?_⟩
      · exact hstart.table.trans hfresh.table
      · exact hstart.stack.trans hfresh.stack
      · exact hstart.parked.trans hfresh.parked
      · exact hstart.disk.trans hfresh.disk
      · intro hclosed
        cases hstart.state.symm.trans hclosed
      · exact hstart.clear hfresh.clear
  | table h =>
    unfold createTable at h
    cases hmade : Scheduler.create _ _ _ with
    | error e =>
      rw [hmade] at h
      cases h
    | ok scheduler =>
      rw [hmade] at h
      cases h
      exact ⟨rfl, rfl, rfl, rfl, rfl, fun hc => (nomatch hc), rfl⟩

/-- A watcher that can be created opens running. -/
theorem Opens.running_of_isSome {w : World} (h : (createRunning w {}).toOption.isSome = true) :
    Opens w ((createRunning w {}).toOption.getD default) := by
  cases hmade : createRunning w {} with
  | ok made => exact Opens.running hmade
  | error e =>
    rw [hmade] at h
    cases h

/-! ## A small world -/

/-- A world in which the root `/w` cannot be looked at. -/
def barren : World where
  disk := { root := .directory [] 0 }
  faults := [(("/w", .stat), .refuse .noEntry)]

/-- A table in the barren world. -/
def barrenTable : Session :=
  (createTable barren (.text "poll") 1000 4 []).toOption.getD default

/-- The table opens in its world. -/
theorem barrenTable_opens : Opens barren barrenTable := by
  have h : createTable barren (.text "poll") 1000 4 [] = .ok barrenTable := rfl
  exact Opens.table h

end DirWatch.Session
