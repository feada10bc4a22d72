import DirWatch.Proofs.Session.Retries
import DirWatch.Proofs.Session.Ticks

/-!
# How a loop ends

The loop goes on whatever a tick reports, but for one thing. A job keeps the fatal failure of an observer as its
outcome, the tick that submitted the job fails with it, and so does the loop, although nobody has told the scheduler to
stop (`loop_lost`). There is no other way out: a loop ends because the scheduler has been told to stop, because no more
time passes, or because the tick of its last round collected the poll of an observer that failed fatally
(`loop_end_of_run`).
-/

namespace DirWatch

namespace Books

variable {b : Books} {a id : JobId} {registration : RegistrationId} {outcome r : Except Failure (List Change)}

/-- A new job has not finished. -/
theorem finished_of_submit (h : (b.submit registration).status? a = some (.finished r)) :
    b.status? a = some (.finished r) := by
  rw [status?_submit] at h
  split at h
  · cases h
  · exact h

/-- Nor has one that starts. -/
theorem finished_of_start (h : (b.start id).status? a = some (.finished r)) : b.status? a = some (.finished r) := by
  rw [status?_start] at h
  split at h
  · obtain ⟨_, _, heq⟩ := Option.map_eq_some_iff.mp h
    cases heq
  · exact h

/-- A job has finished before, or it is the one that finishes now. -/
theorem finished_of_finish (h : (b.finish id outcome).status? a = some (.finished r)) :
    b.status? a = some (.finished r) ∨ id = a ∧ r = outcome := by
  rw [status?_finish] at h
  split at h
  · rename_i hid
    obtain ⟨_, _, heq⟩ := Option.map_eq_some_iff.mp h
    cases heq
    exact Or.inr ⟨hid, rfl⟩
  · exact Or.inl h

end Books

namespace Session

variable {s t u : Session} {ms : List (Session × Session)} {a : JobId} {f : Failure}

/-! ## Jobs that failed fatally -/

/-- The job whose poll is about to be aborted, because an observer has failed fatally. -/
def abortedJob? (s : Session) : Option JobId :=
  match s.stack with
  | .polling _ (.job a) _ (.delivering ..) :: _ => if aborts s.signal then some a else none
  | _ => none

/-- A job has ended with a failure. -/
def HasFailed (s : Session) (a : JobId) (f : Failure) : Prop :=
  s.scheduler.books.status? a = some (.finished (.error f))

/-- No capture that is handed over has failed fatally. -/
def Mild (s : Session) : Prop :=
  ∀ f, s.signal = some (.captured (.error f)) → f.isFatal = false

/-- No capture fails fatally. -/
theorem isFatal_ofCapture (e : CaptureError) : (Failure.ofCapture e).isFatal = false := by
  cases e with
  | call e => cases e <;> rfl
  | unlisted directory => rfl

/-- So no move hands over such a failure. -/
theorem Move.mild (hm : Move s t) : t.Mild := by
  intro f hf
  cases hm with
  | act action _ =>
    have hnone := (perform_effect { s with signal := none } action).captured hf
    cases hnone
  | step ht =>
    obtain ⟨frame, below, -, hturn⟩ := step_turn ht
    obtain ⟨c, ready, outcome, -, -, heq, -⟩ := hturn.captured rfl hf
    cases outcome with
    | ok snapshot => cases heq
    | error e =>
      cases heq
      exact isFatal_ofCapture e

/-- A shift of the outline ends no job. -/
theorem Shift.finished {o o' : Outline} (h : Shift o o') {r : Except Failure (List Change)}
    (hfinished : o'.books.status? a = some (.finished r)) : o.books.status? a = some (.finished r) := by
  cases h with
  | same | parks _ _ _ | unparks _ | returns _ | prunes => exact hfinished
  | submits _ => exact Books.finished_of_submit hfinished
  | starts _ _ => exact Books.finished_of_start hfinished

/-- A job fails when an observer aborts its poll. -/
theorem Move.failed (hm : Move s t) (hmild : s.Mild) (hfailed : t.HasFailed a f) :
    s.HasFailed a f ∨ s.abortedJob? = some a := by
  rcases hm.rests_or_polls with ⟨hshift, -, -⟩ | ⟨id, owner, gate, stage, below, hstack, -, hmove⟩
  · exact Or.inl (hshift.finished hfailed)
  · have hbooks : ∀ {o : Outline}, t.outline = o → o.books = s.scheduler.books → s.HasFailed a f := by
      intro o ho hsame
      have hfailed : t.outline.books.status? a = some (.finished (.error f)) := hfailed
      rwa [ho, hsame] at hfailed
    generalize hsignal : s.signal = signal at hmove
    cases hmove with
    | enters _ _ _ _ houtline => exact Or.inl (hbooks houtline rfl)
    | compares _ _ _ _ houtline => exact Or.inl (hbooks houtline rfl)
    | passes _ _ _ _ _ houtline => exact Or.inl (hbooks houtline rfl)
    | calls _ _ _ _ _ _ _ houtline => exact Or.inl (hbooks houtline rfl)
    | @ends _ _ outcome u r _ hc _ houtline =>
      have hend : (concludeBooks u.outline.books owner outcome).status? a = some (.finished (.error f)) := by
        have hout : (u.endPoll id owner outcome).scheduler.books = _ :=
          congrArg Outline.books (outline_endPoll u id owner outcome)
        rwa [HasFailed, hout] at hfailed
      rw [houtline] at hend
      cases owner with
      | caller => exact Or.inl hend
      | job b =>
        rcases Books.finished_of_finish hend with hbefore | ⟨rfl, houtcome⟩
        · exact Or.inl hbefore
        · right
          cases outcome with
          | ok report => cases houtcome
          | error e =>
            have hfatal : e.isFatal = true := by
              by_contra hordinary
              rw [jobOutcome, if_neg hordinary] at houtcome
              cases houtcome
            cases hc with
            | uncaptured =>
              rw [hmild e hsignal] at hfatal
              cases hfatal
            | aborted _ =>
              rw [abortedJob?, hstack, hsignal]
              exact if_pos hfatal

theorem Moves.mild (h : Moves s ms t) (hmild : s.Mild) : t.Mild := by
  cases h with
  | refl => exact hmild
  | move _ hm => exact hm.mild

/-- A job that fails on a run is aborted by an observer on that run. -/
theorem Moves.failed (h : Moves s ms t) (hmild : s.Mild) (hfailed : t.HasFailed a f) :
    s.HasFailed a f ∨ ∃ m ∈ ms, m.1.abortedJob? = some a := by
  induction h with
  | refl => exact Or.inl hfailed
  | move hms hm ih =>
    rcases hm.failed (hms.mild hmild) hfailed with hbefore | haborted
    · exact (ih hbefore).imp_right fun ⟨m, hmem, hm⟩ => ⟨m, List.mem_append_left _ hmem, hm⟩
    · exact Or.inr ⟨_, List.mem_append_right _ List.mem_cons_self, haborted⟩

/-- In a new session nothing is handed over. -/
theorem Opens.mild {w : World} (h : Opens w s) : s.Mild := by
  intro f hf
  rw [h.fresh.signal] at hf
  cases hf

/-! ## Loops -/

/-- Whether a frame is a loop. -/
def isLooping : Frame → Bool
  | .looping .. => true
  | _ => false

/-- The number of loops under way. -/
def loops (s : Session) : Nat :=
  s.frames.countP isLooping

/-- Why a loop ends in the next move, after the moves `ms`. -/
inductive LoopConcludes (s : Session) (ms : List (Session × Session)) : List (List Action) → LoopStage → Prop
  /-- The scheduler has been told to stop. -/
  | stopped {rounds stage} (hstopped : s.scheduler.isStopped = true) : LoopConcludes s ms rounds stage
  /-- No more time passes. -/
  | over : LoopConcludes s ms [] .waiting
  /-- The tick that the loop has just made submitted a poll that an observer aborted. -/
  | aborted {rounds v all submitted a} (hlast : ms.getLast? = some (v, s))
      (htick : v.stack = .ticking .loop (.submitting [] all submitted) :: s.stack) (hmem : a ∈ submitted)
      (haborted : ∃ m ∈ ms, m.1.abortedJob? = some a) : LoopConcludes s ms rounds .ticking

/-- The loops are counted frame by frame. -/
theorem loops_of_stack {frame : Frame} {below : List Frame} (hstack : s.stack = frame :: below) :
    s.loops = (s.popped below).loops + (isLooping frame).toNat := by
  rw [loops, frames_popped hstack, List.countP_cons, loops]
  cases isLooping frame <;> rfl

/-- Frames that come take no loop away. -/
theorem loops_le_of_frames {v : Session} (h : ∃ fs, t.frames.Perm (fs ++ v.frames)) : v.loops ≤ t.loops := by
  obtain ⟨fs, hperm⟩ := h
  rw [loops, loops, hperm.countP_eq, List.countP_append]
  exact Nat.le_add_left _ _

/-- What collecting jobs fails with is the failure of one of them. -/
theorem collect_error {ids : List JobId} (h : s.collect ids = .error f) : ∃ a ∈ ids, s.HasFailed a f := by
  induction ids with
  | nil => cases h
  | cons id ids ih =>
    have hrest : s.collect ids = .error f → ∃ a ∈ id :: ids, s.HasFailed a f := fun h =>
      (ih h).imp fun a ⟨hmem, ha⟩ => ⟨List.mem_cons_of_mem _ hmem, ha⟩
    unfold collect at h
    split at h
    · exact hrest h
    · rename_i job hjob
      split at h
      · rename_i hstatus
        cases h
        refine ⟨id, List.mem_cons_self, ?_⟩
        exact (Books.status?_of_get (b := s.scheduler.books) hjob).trans (congrArg some hstatus)
      · cases hcollect : s.collect ids with
        | error e =>
          rw [hcollect] at h
          cases h
          exact hrest hcollect
        | ok changes =>
          rw [hcollect] at h
          cases h
      · exact hrest h

/-- A tick that is reported as a fatal failure submitted a job that has failed. -/
theorem TickConcludes.fatal {stage : TickStage} {counted : Nat} (h : TickConcludes s stage (.error f) counted)
    (hfatal : f.isFatal = true) : ∃ all submitted a, stage = .submitting [] all submitted ∧ a ∈ submitted ∧
    s.HasFailed a f := by
  generalize hr : Except.error f = r at h
  cases h with
  | stopped _ _ | idle _ _ | completed _ _ => cases hr
  | broken _ _ =>
    cases hr
    cases hfatal
  | shut _ _ =>
    split at hr
    · cases hr
    · cases hr
      cases hfatal
  | failed _ hcollect =>
    cases hr
    obtain ⟨a, hmem, hfailed⟩ := collect_error hcollect
    exact ⟨_, _, a, rfl, hmem, hfailed⟩

/-- The loop in control goes on, or it ends for one of three reasons. -/
theorem stepLoop_cases (s : Session) (signal : Option Signal) (rounds : List (List Action)) (stage : LoopStage) :
    (∃ fs rounds' stage', (s.stepLoop signal rounds stage).stack = fs ++ .looping rounds' stage' :: s.stack ∧
      (s.stepLoop signal rounds stage).parked = s.parked) ∨
    ((s.stepLoop signal rounds stage).stack = s.stack ∧ (s.scheduler.isStopped = true ∨ (rounds = [] ∧ stage = .waiting) ∨
      ∃ f, stage = .ticking ∧ signal = some (.ticked (.error f)) ∧ f.isFatal = true)) := by
  unfold stepLoop
  split
  · rename_i f
    split
    · rename_i hfatal
      exact Or.inr ⟨rfl, Or.inr (Or.inr ⟨f, rfl, rfl, hfatal⟩)⟩
    · exact Or.inl ⟨[], rounds, .waiting, rfl, rfl⟩
  · exact Or.inl ⟨[], rounds, .waiting, rfl, rfl⟩
  · split
    · rename_i hstopped
      exact Or.inr ⟨rfl, Or.inl hstopped⟩
    · exact Or.inl ⟨[.ticking .loop .entering], rounds, .ticking, rfl, rfl⟩
  · split
    · exact Or.inr ⟨rfl, Or.inr (Or.inl ⟨rfl, rfl⟩)⟩
    · rename_i round rest
      split
      · rename_i hstopped
        exact Or.inr ⟨rfl, Or.inl hstopped⟩
      · exact Or.inl ⟨[.script round none], rest, .round, rfl, rfl⟩

/-- A loop leaves when it is in control and takes its last step. -/
theorem Move.loop_leaves (hm : Move s t) (hfewer : t.loops < s.loops) :
    ∃ rounds stage, s.stack = .looping rounds stage :: t.stack ∧
    (s.scheduler.isStopped = true ∨ (rounds = [] ∧ stage = .waiting) ∨
      ∃ f, stage = .ticking ∧ s.signal = some (.ticked (.error f)) ∧ f.isFatal = true) := by
  have hkept : ∀ {v : Session}, (∃ fs, t.frames.Perm (fs ++ v.frames)) → v.loops = s.loops → False := by
    intro v hframes hsame
    have hle := loops_le_of_frames hframes
    omega
  cases hm with
  | act action _ =>
    obtain ⟨fs, hperm, -⟩ := (perform_paced { s with signal := none } action).frames
    exact (hkept ⟨fs, hperm⟩ rfl).elim
  | step ht =>
    obtain ⟨frame, below, hstack, -⟩ := step_turn ht
    have hcount := loops_of_stack hstack
    cases frame with
    | looping rounds stage =>
      have hstep : (s.popped below).stepLoop s.signal rounds stage = t := by
        unfold Session.step at ht
        rw [hstack] at ht
        exact Option.some.inj ht
      rcases stepLoop_cases (s.popped below) s.signal rounds stage with ⟨fs, rounds', stage', hback, hparked⟩ |
        ⟨hgone, hwhy⟩
      · rw [hstep] at hback hparked
        have hloops : t.loops = fs.countP isLooping + s.loops := by
          rw [hcount, loops, frames, hback, hparked, List.append_assoc, List.countP_append, List.cons_append,
            List.countP_cons, loops, frames]
          rfl
        omega
      · rw [hstep] at hgone
        exact ⟨rounds, stage, by rw [hgone, hstack]; rfl, hwhy⟩
    | ticking owner stage => exact (hkept (step_tick hstack ht).frames hcount.symm).elim
    | _ =>
      obtain ⟨fs, hperm, -⟩ := (step_paced hstack (fun _ _ heq => Frame.noConfusion heq) ht).frames
      exact (hkept ⟨fs, hperm⟩ hcount.symm).elim

/-- However a session goes on, a loop ends for one of these reasons only: the scheduler has been told to stop, no more
time passes, or an observer has aborted a poll that the tick of the last round submitted. -/
theorem loop_end_of_run {w : World} (hs : Opens w s) (hms : Moves s ms t) (hm : Move t u) (hfewer : u.loops < t.loops) :
    ∃ rounds stage, t.stack = .looping rounds stage :: u.stack ∧ LoopConcludes t ms rounds stage := by
  obtain ⟨rounds, stage, hstack, hwhy⟩ := hm.loop_leaves hfewer
  refine ⟨rounds, stage, hstack, ?_⟩
  rcases hwhy with hstopped | ⟨rfl, rfl⟩ | ⟨f, rfl, hsignal, hfatal⟩
  · exact LoopConcludes.stopped hstopped
  · exact LoopConcludes.over
  · -- the signal that the loop finds was left by the move just before
    cases hms with
    | refl =>
      rw [hs.fresh.signal] at hsignal
      cases hsignal
    | @move ms v _ hv hlast =>
      obtain ⟨stage, counted, htick, hc⟩ := hlast.ticked hsignal
      obtain ⟨all, submitted, a, rfl, hmem, hfailed⟩ := hc.fatal hfatal
      rcases hv.failed hs.mild hfailed with hfailed | ⟨m, hm, haborted⟩
      · rw [HasFailed, hs.books] at hfailed
        cases hfailed
      · exact LoopConcludes.aborted List.getLast?_concat htick hmem ⟨m, List.mem_append_left _ hm, haborted⟩

/-- A running watcher in the fragile world. -/
def fragileWatcher : Session :=
  (createRunning fragile {}).toOption.getD default

/-- The loop has run a tick in which an observer failed fatally, and another round is still to come. -/
def fragileLooping : Session :=
  (fragileWatcher.after (.watch (.path ⟨.root, ["w"]⟩) (.named "a" (.text "a")) "a") 20).after
    (.loop [[.put "/w/x" (.file 2)], [.put "/w/y" (.file 2)]]) 17

def fragileLost : Session :=
  fragileLooping.step.getD default

/-- The loop comes there by moves of the watcher. -/
theorem fragileLooping_moves : ∃ ms, Moves fragileWatcher ms fragileLooping :=
  ⟨_, (Moves.refl.acts _ 20 (by decide +kernel)).acts _ 17 (by decide +kernel)⟩

/-- It takes one more move. -/
theorem fragileLost_move : Move fragileLooping fragileLost := by
  have hstep : fragileLooping.step.isSome = true := by decide +kernel
  obtain ⟨t, ht⟩ := Option.isSome_iff_exists.mp hstep
  rw [fragileLost, ht]
  exact Move.step ht

/-- The loop of a running watcher is lost to an observer that has failed fatally. -/
theorem loop_end_of_run_fragile :
    fragileLost.loops < fragileLooping.loops ∧ ∃ ms rounds stage, Moves fragileWatcher ms fragileLooping ∧
    fragileLooping.stack = .looping rounds stage :: fragileLost.stack ∧ LoopConcludes fragileLooping ms rounds stage := by
  have hfewer : fragileLost.loops < fragileLooping.loops := by decide +kernel
  have hopens : Opens fragile fragileWatcher := Opens.running_of_isSome (by decide +kernel)
  obtain ⟨ms, hms⟩ := fragileLooping_moves
  obtain ⟨rounds, stage, hloop⟩ := loop_end_of_run hopens hms fragileLost_move hfewer
  exact ⟨hfewer, ms, rounds, stage, hms, hloop⟩

/-- The rounds that the loop in control still has before it. -/
def roundsLeft? (s : Session) : Option (List (List Action)) :=
  match s.stack with
  | .looping rounds _ :: _ => some rounds
  | _ => none

/-- A running watcher can lose its loop, with rounds still to come, although nobody has told the scheduler to stop. -/
theorem loop_lost : ¬∀ {w : World} {s t u : Session} {ms : List (Session × Session)}, Opens w s →
    Moves s ms t → Move t u → u.loops < t.loops → t.watcher.state = .running → t.roundsLeft? ≠ some [] →
    t.scheduler.isStopped = true := by
  intro hclaim
  obtain ⟨ms, hms⟩ := fragileLooping_moves
  have hopens : Opens fragile fragileWatcher := Opens.running_of_isSome (by decide +kernel)
  have hrounds : (fragileLooping.roundsLeft?.all fun rounds => !rounds.isEmpty) = true := by decide +kernel
  have hleft : fragileLooping.roundsLeft? ≠ some [] := by
    intro hnone
    rw [hnone] at hrounds
    cases hrounds
  have hstopped := hclaim hopens hms fragileLost_move (by decide +kernel) (by decide +kernel) hleft
  have hopen : fragileLooping.scheduler.isStopped = false := by decide +kernel
  rw [hopen] at hstopped
  cases hstopped

end Session

end DirWatch
