import DirWatch.Capture
import DirWatch.Comparison
import DirWatch.Proofs.Path

/-!
# What a capture depends on

A capture whose questions always get the same answers has one outcome (`Ends.deterministic`), and another time of the
capture shows in the outcome as that time and nowhere else (`Ends.timed`). So two captures of a root that is left alone
see the same tree, and a comparison finds the same changes with either of them (`Snapshot.changes_diff_timed`). A
capture of an absolute root asks for absolute paths only (`IsAbsolute.ask`), and then the current directory does not
matter (`Disk.answer_congr`).
-/

namespace DirWatch

/-- A snapshot with another time. -/
def Snapshot.timed (s : Snapshot) (time : Int) : Snapshot :=
  { s with capturedAt := time }

/-- A comparison does not look at the time of a capture. -/
theorem Snapshot.changes_diff_timed (old : Option Snapshot) (s : Snapshot) (time : Int) :
    (Snapshot.diff old (s.timed time)).changes = (Snapshot.diff old s).changes := by
  unfold Snapshot.diff Snapshot.timed
  cases s.tree <;> rfl

/-! ## Absolute texts -/

/-- Whether a call names the same object from every directory. -/
def Call.IsAbsolute (call : Call) : Prop :=
  call.path.toList.head? = some '/'

/-- A child of an absolute path has one. -/
theorem Path.isAbsolute_child {p : Path} (h : p.isAbsolute = true) (name : String) : (p.child name).isAbsolute = true := by
  unfold child join
  split
  · assumption
  · exact h

/-- An absolute text does not ask for the current directory. -/
theorem Disk.absoluteText_congr {d d' : Disk} {path : String} (h : path.toList.head? = some '/' ∨ d'.cwd = d.cwd) :
    d'.absoluteText path = d.absoluteText path := by
  unfold absoluteText
  rcases h with h | h
  · rw [if_pos h, if_pos h]
  · rw [h]

/-- The answer to a call depends on the tree, and on the current directory if the call is not absolute. -/
theorem Disk.answer_congr {d d' : Disk} (hroot : d'.root = d.root) {call : Call}
    (h : call.IsAbsolute ∨ d'.cwd = d.cwd) : d'.answer call = d.answer call := by
  have htext : d'.absoluteText call.path = d.absoluteText call.path :=
    absoluteText_congr h
  have hlocate : ∀ last, d'.locate last call.path = d.locate last call.path := by
    intro last
    unfold locate
    rw [htext, hroot]
  unfold answer
  cases call with
  | stat path => simp only [show d'.locate true path = d.locate true path from hlocate true]
  | lstat path => simp only [show d'.locate false path = d.locate false path from hlocate false]
  | list path => simp only [show d'.locate true path = d.locate true path from hlocate true]
  | member path => simp only [show d'.locate false path = d.locate false path from hlocate false]

namespace Capture

/-- The text of a member begins with a slash if that of its directory does. -/
theorem isAbsolute_memberText {directory : String} (h : directory.toList.head? = some '/') (name : String) :
    (memberText directory name).toList.head? = some '/' := by
  unfold memberText
  split <;> simp_all

/-- The outcome of a capture, if every question gets the answer that is given for it. -/
inductive Ends (answer? : (call : Call) → Option (Except CallError call.Result)) :
    Capture → Except CaptureError Snapshot → Prop
  | stop {c outcome} (h : c.next = .stop outcome) : Ends answer? c outcome
  | ask {c call resume r outcome} (h : c.next = .ask call resume) (hr : answer? call = some r)
      (hrest : Ends answer? (resume r).1 outcome) : Ends answer? c outcome

/-- A capture with another time. -/
def timed (c : Capture) (time : Int) : Capture :=
  { c with
      capturedAt := time
      phase := match c.phase with
        | .done outcome => .done (outcome.map (·.timed time))
        | phase => phase }

variable {answer? : (call : Call) → Option (Except CallError call.Result)} {c : Capture}
    {outcome outcome' : Except CaptureError Snapshot}

/-- Given the answers, a capture has one outcome. -/
theorem Ends.deterministic (h : Ends answer? c outcome) (h' : Ends answer? c outcome') : outcome = outcome' := by
  induction h with
  | stop hnext =>
    cases h' with
    | stop hnext' =>
      rw [hnext] at hnext'
      cases hnext'
      rfl
    | ask hnext' _ _ =>
      rw [hnext] at hnext'
      cases hnext'
  | ask hnext hr _ ih =>
    cases h' with
    | stop hnext' =>
      rw [hnext] at hnext'
      cases hnext'
    | ask hnext' hr' hrest =>
      rw [hnext] at hnext'
      cases hnext'
      rw [hr] at hr'
      cases hr'
      exact ih hrest

theorem Ends.congr {c' : Capture} (h : Ends answer? c outcome) (heq : c = c') : Ends answer? c' outcome := by
  rwa [← heq]

/-! ## Another time -/

theorem finish_timed (c : Capture) (outcome : Except CaptureError Snapshot) (time : Int) :
    (c.finish outcome).timed time = (c.timed time).finish (outcome.map (·.timed time)) := rfl

/-- The time of a capture only goes into its snapshot. -/
theorem assemble_timed (root : Path) (capturedAt time : Int) (walk : Walk) :
    (assemble root capturedAt walk).map (·.timed time) = assemble root time walk := by
  unfold assemble
  cases build walk.listed [] with
  | error e => rfl
  | ok built =>
    dsimp only
    cases take? root built <;> rfl

/-- It does not decide which directory is listed next. -/
theorem descend_timed (c : Capture) (walk : Walk) (time : Int) : (c.descend walk).timed time = (c.timed time).descend walk := by
  unfold descend
  cases walk.pending with
  | cons directory pending => rfl
  | nil =>
    dsimp only
    rw [finish_timed, assemble_timed]
    rfl

theorem examine_timed (c : Capture) (directory : Path) (waiting : List String) (seen : Listing Seen) (walk : Walk) (time : Int) :
    (c.examine directory waiting seen walk).timed time = (c.timed time).examine directory waiting seen walk := by
  cases waiting with
  | nil => exact descend_timed c _ time
  | cons name waiting => rfl

/-- Nor what follows the answer about the root. -/
theorem afterRoot_timed (c : Capture) (r : Except CallError Info) (time : Int) :
    (c.afterRoot r).1.timed time = ((c.timed time).afterRoot r).1 := by
  cases r with
  | error e => cases e <;> rfl
  | ok info =>
    unfold afterRoot
    dsimp only
    split <;> rfl

/-- Nor what follows a listing. -/
theorem afterList_timed (c : Capture) (directory : Path) (walk : Walk) (r : Except CallError (List String)) (time : Int) :
    (c.afterList directory walk r).1.timed time = ((c.timed time).afterList directory walk r).1 := by
  cases r with
  | error e =>
    cases e with
    | system e => exact examine_timed c directory [] [] walk time
    | _ => rfl
  | ok names => exact examine_timed c directory _ [] walk time

/-- Nor what follows the answer about a member. -/
theorem afterMember_timed (c : Capture) (directory : Path) (name : String) (waiting : List String) (seen : Listing Seen)
    (walk : Walk) (r : Except CallError Info) (time : Int) :
    (c.afterMember directory name waiting seen walk r).1.timed time =
      ((c.timed time).afterMember directory name waiting seen walk r).1 := by
  cases r with
  | error e =>
    cases e with
    | system e => exact examine_timed c directory waiting seen walk time
    | _ => rfl
  | ok info => exact examine_timed c directory waiting _ walk time

/-- The outcome of a capture at another time differs in the time only. -/
theorem Ends.timed (h : Ends answer? c outcome) (time : Int) : Ends answer? (c.timed time) (outcome.map (·.timed time)) := by
  induction h with
  | @stop c outcome hnext =>
    refine Ends.stop ?_
    unfold next at hnext ⊢
    cases hphase : c.phase with
    | done other =>
      rw [hphase] at hnext
      cases hnext
      rw [Capture.timed, hphase]
    | _ =>
      rw [hphase] at hnext
      cases hnext
  | @ask c call resume r outcome hnext hr _ ih =>
    unfold next at hnext
    cases hphase : c.phase with
    | root =>
      rw [hphase] at hnext
      cases hnext
      have hask : (c.timed time).next = .ask (.stat (toString c.root)) (c.timed time).afterRoot := by
        rw [next, Capture.timed, hphase]
      exact Ends.ask hask hr (ih.congr (afterRoot_timed c _ time))
    | list directory walk =>
      rw [hphase] at hnext
      cases hnext
      have hask : (c.timed time).next = .ask (.list (toString directory)) ((c.timed time).afterList directory walk) := by
        rw [next, Capture.timed, hphase]
      exact Ends.ask hask hr (ih.congr (afterList_timed c directory walk _ time))
    | member directory name waiting seen walk =>
      rw [hphase] at hnext
      cases hnext
      have hask : (c.timed time).next = .ask (.member (memberText (toString directory) name))
          ((c.timed time).afterMember directory name waiting seen walk) := by
        rw [next, Capture.timed, hphase]
      exact Ends.ask hask hr (ih.congr (afterMember_timed c directory name waiting seen walk _ time))
    | done other =>
      rw [hphase] at hnext
      cases hnext

/-- Two captures of a root that is left alone come out alike, except for their times. -/
theorem Ends.agree {root : Path} {patterns : List String} {time time' : Int}
    (h : Ends answer? { root, patterns, capturedAt := time } outcome)
    (h' : Ends answer? { root, patterns, capturedAt := time' } outcome') : outcome' = outcome.map (·.timed time') :=
  h'.deterministic (h.timed time')

/-! ## The current directory -/

/-- All that a capture has still to look at is absolute. -/
def IsAbsolute (c : Capture) : Prop :=
  match c.phase with
  | .root => c.root.isAbsolute = true
  | .list directory walk => directory.isAbsolute = true ∧ ∀ p ∈ walk.pending, p.isAbsolute = true
  | .member directory _ _ _ walk => directory.isAbsolute = true ∧ ∀ p ∈ walk.pending, p.isAbsolute = true
  | .done _ => True

/-- A walk goes on to absolute directories if those it has still to list are absolute. -/
theorem descend_isAbsolute {walk : Walk} (h : ∀ p ∈ walk.pending, p.isAbsolute = true) : (c.descend walk).IsAbsolute := by
  unfold descend
  split
  · trivial
  · rename_i directory pending hpending
    rw [hpending] at h
    exact ⟨h _ List.mem_cons_self, fun p hp => h p (List.mem_cons_of_mem _ hp)⟩

/-- So it does while it looks at the members of one. -/
theorem examine_isAbsolute {directory : Path} {walk : Walk} (hdirectory : directory.isAbsolute = true)
    (h : ∀ p ∈ walk.pending, p.isAbsolute = true) (waiting : List String) (seen : Listing Seen) :
    (c.examine directory waiting seen walk).IsAbsolute := by
  unfold examine
  split
  · exact ⟨hdirectory, h⟩
  · refine descend_isAbsolute fun p hp => ?_
    rcases List.mem_append.mp hp with hp | hp
    · obtain ⟨m, -, rfl⟩ := List.mem_map.mp hp
      exact Path.isAbsolute_child hdirectory m.1
    · exact h p hp

/-- Such a capture asks for absolute paths, and goes on so whatever it is told. -/
theorem IsAbsolute.ask (h : c.IsAbsolute) {call : Call} {resume : Except CallError call.Result → Capture × List Notice}
    (hnext : c.next = .ask call resume) : call.IsAbsolute ∧ ∀ r, (resume r).1.IsAbsolute := by
  unfold IsAbsolute at h
  unfold next at hnext
  split at hnext
  · rename_i hphase
    rw [hphase] at h
    cases hnext
    refine ⟨Path.isAbsolute_toString h, fun r => ?_⟩
    cases r with
    | error e => cases e <;> trivial
    | ok info =>
      unfold afterRoot
      dsimp only
      split
      · exact ⟨h, fun p hp => nomatch hp⟩
      · trivial
  · rename_i directory walk hphase
    rw [hphase] at h
    cases hnext
    refine ⟨Path.isAbsolute_toString h.1, fun r => ?_⟩
    cases r with
    | error e =>
      cases e with
      | system e => exact examine_isAbsolute h.1 h.2 _ _
      | _ => trivial
    | ok names => exact examine_isAbsolute h.1 h.2 _ _
  · rename_i directory name waiting seen walk hphase
    rw [hphase] at h
    cases hnext
    refine ⟨isAbsolute_memberText (Path.isAbsolute_toString h.1) name, fun r => ?_⟩
    cases r with
    | error e =>
      cases e with
      | system e => exact examine_isAbsolute h.1 h.2 _ _
      | _ => trivial
    | ok info => exact examine_isAbsolute h.1 h.2 _ _
  · cases hnext

end Capture

end DirWatch
