import DirWatch.Proofs.Capture.Determinism
import DirWatch.Proofs.Session.Swaps

/-!
# Polls that are made again

As long as the tree below a root and its faults stay as they are, every capture of the root sees the same (`Attempt`).
So after a delivery that was aborted, when the baseline is the old one, the next poll finds the same changes (`Finds`).
-/

namespace DirWatch.Session

open Capture (Ends)

/-- The answer to a call, unless something is to happen before it. -/
def answerTo? (s : Session) (call : Call) : Option (Except CallError call.Result) :=
  match s.ask call false with
  | .answered r => some r
  | .preceded _ _ => none

/-- The tree and its faults are the same in two sessions, as seen from a root. A relative root is seen from the current
directory. -/
structure Alike (root : Path) (s t : Session) : Prop where
  tree : t.disk.root = s.disk.root
  faults : t.faults = s.faults
  cwd : root.isAbsolute = true ∨ t.disk.cwd = s.disk.cwd

/-- A session answers whatever a capture of a root may ask. -/
def Answers (root : Path) (answer? : (call : Call) → Option (Except CallError call.Result)) (s : Session) : Prop :=
  ∀ call : Call, (root.isAbsolute = true → call.IsAbsolute) → s.answerTo? call = answer? call

/-- Whether the capture of a poll of a registration has come to its end. -/
def isCaptured (s : Session) (id : RegistrationId) : Bool :=
  match s.stack, s.signal with
  | .polling other _ _ .capturing :: _, some (.captured _) => other == id
  | _, _ => false

/-- A poll of a registration has captured its root and finds these changes. -/
def Finds (id : RegistrationId) (changes : List Change) (s : Session) : Prop :=
  ∃ r captured, s.table.registrations[id]? = some r ∧ s.comparing? id = some captured ∧
    (Snapshot.diff (some r.baseline) captured).changes = changes

variable {s t u : Session} {root : Path} {answer? : (call : Call) → Option (Except CallError call.Result)} {id : RegistrationId}
  {c : Capture} {below : List Frame} {outcome : Except CaptureError Snapshot} {r : Registration} {patterns : List String}
  {ms more : List (Session × Session)} {changes : List Change}

/-! ## Answers -/

/-- An answer depends on the fault planned for the call and on the tree alone. -/
theorem answerTo?_congr {call : Call} (hfault : t.faultOf? call = s.faultOf? call)
    (hanswer : t.disk.answer call = s.disk.answer call) : t.answerTo? call = s.answerTo? call := by
  unfold answerTo? ask
  rw [hfault]
  cases s.faultOf? call with
  | none => exact congrArg some hanswer
  | some fault => cases fault <;> rfl

/-- Two sessions that are alike from a root answer a capture of it alike. -/
theorem Alike.answers (h : Alike root s t) : Answers root s.answerTo? t := by
  intro call hcall
  have hpath : call.IsAbsolute ∨ t.disk.cwd = s.disk.cwd := h.cwd.imp_left hcall
  have hfault : t.faultOf? call = s.faultOf? call := by
    rw [faultOf?, faultOf?, h.faults, Disk.absoluteText_congr hpath]
  exact answerTo?_congr hfault (Disk.answer_congr h.tree hpath)

/-- Where an answer is known, a call that is made gets it. -/
theorem ask_of_answer {call : Call} {a : Except CallError call.Result} (h : s.answerTo? call = some a) :
    s.ask call false = .answered a := by
  unfold answerTo? at h
  split at h
  · rename_i hask
    cases h
    exact hask
  · cases h

/-- A call that is answered at once has its answer known. -/
theorem answer_of_ask {call : Call} {a : Except CallError call.Result} (h : s.ask call false = .answered a) :
    s.answerTo? call = some a := by
  rw [answerTo?, h]

/-- Steps come before a call only if the faults change. -/
theorem faults_of_preceded {call : Call} {ready : Bool} {steps : List Action} (h : s.ask call ready = .preceded t steps) :
    t.faults ≠ s.faults := by
  obtain ⟨-, hfault, rfl⟩ := ask_preceded h
  intro hsame
  have hall := List.filter_eq_self.mp hsame
  simpa using hall _ (mem_faults hfault)

/-! ## Captures -/

/-- What a capture reads, and what its poll reads afterwards, is left alone. -/
structure Undisturbed (s t : Session) : Prop where
  table : t.table = s.table
  scheduler : t.scheduler = s.scheduler
  disk : t.disk = s.disk
  faults : t.faults = s.faults
  patterns : t.patterns = s.patterns
  scripts : t.scripts = s.scripts

theorem Undisturbed.refl (s : Session) : Undisturbed s s :=
  ⟨rfl, rfl, rfl, rfl, rfl, rfl⟩

theorem Undisturbed.trans (h : Undisturbed s t) (h' : Undisturbed t u) : Undisturbed s u where
  table := h'.table.trans h.table
  scheduler := h'.scheduler.trans h.scheduler
  disk := h'.disk.trans h.disk
  faults := h'.faults.trans h.faults
  patterns := h'.patterns.trans h.patterns
  scripts := h'.scripts.trans h.scripts

/-- Notices disturb no capture. -/
theorem Undisturbed.notices (s : Session) (ns : List Notice) : Undisturbed s (s.notices ns) := by
  induction ns generalizing s with
  | nil => exact Undisturbed.refl s
  | cons n ns ih =>
    have hfirst : Undisturbed s (s.notice n) := ⟨rfl, rfl, rfl, rfl, rfl, rfl⟩
    exact hfirst.trans (ih (s.notice n))

/-- Undisturbed sessions answer alike. -/
theorem Undisturbed.answerTo? (h : Undisturbed s t) (call : Call) : t.answerTo? call = s.answerTo? call :=
  answerTo?_congr (by rw [faultOf?, faultOf?, h.faults, h.disk]) (by rw [h.disk])

theorem Undisturbed.answers (h : Undisturbed s t) (ha : Answers root answer? s) : Answers root answer? t :=
  fun call hcall => (h.answerTo? call).trans (ha call hcall)

/-- To take the capture off the stack disturbs nothing. -/
theorem Undisturbed.popped (s : Session) (below : List Frame) : Undisturbed s (s.popped below) :=
  ⟨rfl, rfl, rfl, rfl, rfl, rfl⟩

section

variable (hstack : s.stack = .capturing c false :: below)

include hstack

/-- A capture on top of the stack is the one to go on. -/
theorem step_capture : s.step = some ((s.popped below).stepCapture c false) := by
  unfold step
  rw [hstack]
  rfl

/-- A capture that has come to its end hands over the outcome. -/
theorem step_capture_stop (hnext : c.next = .stop outcome) : ∃ t, s.step = some t ∧ t.stack = below ∧
    t.signal = some (.captured (outcome.mapError Failure.ofCapture)) ∧ Undisturbed s t := by
  refine ⟨_, step_capture hstack, ?_⟩
  unfold stepCapture
  rw [hnext]
  exact ⟨rfl, rfl, rfl, rfl, rfl, rfl, rfl, rfl⟩

variable {call : Call} {resume : Except CallError call.Result → Capture × List Notice} (hnext : c.next = .ask call resume)

include hnext

/-- A capture goes on with the answer to its question. -/
theorem step_capture_ask {a : Except CallError call.Result} (ha : s.answerTo? call = some a) : ∃ t, s.step = some t ∧
    t.stack = .capturing (resume a).1 false :: below ∧ Undisturbed s t := by
  have hask := ask_of_answer (((Undisturbed.popped s below).answerTo? call).trans ha)
  refine ⟨_, step_capture hstack, ?_⟩
  unfold stepCapture
  rw [hnext]
  dsimp only
  rw [hask]
  have hnotices := Undisturbed.notices (s.popped below) (resume a).2
  refine ⟨?_, hnotices.table, hnotices.scheduler, hnotices.disk, hnotices.faults, hnotices.patterns, hnotices.scripts⟩
  exact congrArg (_ :: ·) (Calm.notices (s.popped below) (resume a).2).stack

/-- Otherwise something is to happen before the answer, and the faults are not the same any more. -/
theorem faults_of_capture (ha : s.answerTo? call = none) (ht : s.step = some t) : t.faults ≠ s.faults := by
  rw [step_capture hstack] at ht
  cases ht
  unfold stepCapture
  rw [hnext]
  dsimp only
  split
  · rename_i a hask
    have hsome := answer_of_ask hask
    rw [(Undisturbed.popped s below).answerTo? call, ha] at hsome
    cases hsome
  · rename_i hask
    have hchanged := faults_of_preceded hask
    exact hchanged

end

/-- A capture that gets all its answers runs to its end by itself, and no poll takes a step meanwhile. -/
theorem run_capture (hends : Ends answer? c outcome) (hstack : s.stack = .capturing c false :: below)
    (ha : Answers root answer? s) (habsolute : root.isAbsolute = true → c.IsAbsolute) : ∃ n, (run n s).stack = below ∧
      (run n s).signal = some (.captured (outcome.mapError Failure.ofCapture)) ∧ Undisturbed s (run n s) ∧
      ∀ m ∈ movesOf n s, m.1.polled? = none := by
  have hquiet : ∀ {s : Session} {c : Capture} {below : List Frame}, s.stack = .capturing c false :: below →
    s.polled? = none := by
    intro s c below hstack
    rw [polled?, hstack]
  induction hends generalizing s with
  | stop hnext =>
    obtain ⟨t, ht, hbelow, hsignal, hsame⟩ := step_capture_stop hstack hnext
    refine ⟨1, ?_⟩
    rw [run, ht, movesOf, ht]
    refine ⟨hbelow, hsignal, hsame, fun m hm => ?_⟩
    rw [List.mem_singleton.mp hm]
    exact hquiet hstack
  | @ask c call resume a outcome hnext hr _ ih =>
    have hask := fun h => (habsolute h).ask hnext
    obtain ⟨t, ht, hgoes, hsame⟩ := step_capture_ask hstack hnext ((ha call fun h => (hask h).1).trans hr)
    obtain ⟨n, hbelow, hsignal, hrest, hsilent⟩ := ih hgoes (hsame.answers ha) fun h => (hask h).2 a
    refine ⟨n + 1, ?_⟩
    rw [run, ht, movesOf, ht]
    refine ⟨hbelow, hsignal, hsame.trans hrest, fun m hm => ?_⟩
    rcases List.mem_cons.mp hm with rfl | hm
    · exact hquiet hstack
    · exact hsilent m hm

/-! ## Attempts -/

/-- How far a poll of a registration has come, if its capture gets the same answers at any time. -/
inductive Attempt (answer? : (call : Call) → Option (Except CallError call.Result)) (root : Path) (patterns : List String)
    (id : RegistrationId) (s : Session) : Prop
  | idle (h : s.table.isPolling id = false)
  | captures {c owner gate below time} (hstack : s.stack = .capturing c false :: .polling id owner gate .capturing :: below)
      (habsolute : root.isAbsolute = true → c.IsAbsolute)
      (hc : ∀ {outcome}, Ends answer? c outcome → Ends answer? { root, patterns, capturedAt := time } outcome)
  | captured {outcome owner gate below time} (hstack : s.stack = .polling id owner gate .capturing :: below)
      (hsignal : s.signal = some (.captured (outcome.mapError Failure.ofCapture)))
      (hends : Ends answer? { root, patterns, capturedAt := time } outcome)
  | delivers {d baseline captured time} (hd : s.outline.deliveriesOf id = [d]) (hbaseline : s.baseline? id = some baseline)
      (hreport : d.report = Snapshot.diff (some baseline) captured)
      (hends : Ends answer? { root, patterns, capturedAt := time } (.ok captured))

/-- A poll of an idle registration begins with a capture of its root. -/
theorem Move.attempt_idle (hm : Move s t) (hx : Exclusive s) (hidle : s.table.isPolling id = false)
    (hr : s.table.registrations[id]? = some r) (hnone : s.ending? id = none) : Attempt answer? r.root s.patterns id t := by
  rcases hm.apart_or_polls hx id with hapart | ⟨owner, gate, stage, below, hstack, hmove⟩
  · exact Attempt.idle (hapart.polling.trans hidle)
  · rcases hmove.ending hstack with ⟨-, htable | ⟨rfl, -, -⟩⟩ | ⟨outcome, r, hsome, -⟩
    · exact Attempt.idle (by rw [htable, hidle])
    · cases hmove with
      | enters hr₀ _ _ hcaptures _ =>
        rw [hr] at hr₀
        cases hr₀
        exact Attempt.captures hcaptures (fun h => h) fun h => h
      | ends _ hc _ _ => cases hc
    · rw [hnone] at hsome
      cases hsome

/-- A capture goes on with the answer it gets at any time. -/
theorem Move.attempt_capturing (hm : Move s t) {owner : PollOwner} {gate : Gate} {time : Int}
    (hstack : s.stack = .capturing c false :: .polling id owner gate .capturing :: below)
    (habsolute : root.isAbsolute = true → c.IsAbsolute)
    (hc : ∀ {outcome}, Ends answer? c outcome → Ends answer? { root, patterns, capturedAt := time } outcome)
    (ha : Answers root answer? s) (hfaults : t.faults = s.faults) : Attempt answer? root patterns id t := by
  cases hm with
  | act _ hrest =>
    rw [step_capture hstack] at hrest
    cases hrest
  | step ht =>
    cases hnext : c.next with
    | stop outcome =>
      obtain ⟨u, hu, hbelow, hsignal, -⟩ := step_capture_stop hstack hnext
      rw [ht] at hu
      cases hu
      exact Attempt.captured hbelow hsignal (hc (Ends.stop hnext))
    | ask call resume =>
      cases hanswer : s.answerTo? call with
      | none => exact absurd hfaults (faults_of_capture hstack hnext hanswer ht)
      | some a =>
        have hask := fun h => (habsolute h).ask hnext
        obtain ⟨u, hu, hgoes, -⟩ := step_capture_ask hstack hnext hanswer
        rw [ht] at hu
        cases hu
        have hsame : answer? call = some a := (ha call fun h => (hask h).1).symm.trans hanswer
        exact Attempt.captures hgoes (fun h => (hask h).2 a) fun hends => hc (Ends.ask hnext hsame hends)

/-- A poll that has its capture delivers what it finds, if it does not end. -/
theorem Move.attempt_captured (hm : Move s t) (hx : Exclusive s) (hr : s.table.registrations[id]? = some r)
    (hnone : s.ending? id = none) {owner : PollOwner} {gate : Gate} {time : Int}
    (hstack : s.stack = .polling id owner gate .capturing :: below)
    (hsignal : s.signal = some (.captured (outcome.mapError Failure.ofCapture)))
    (hends : Ends answer? { root, patterns, capturedAt := time } outcome) : Attempt answer? root patterns id t := by
  have hconclusion := ending?_of_stack hstack hr
  rw [hnone, conclusion?, hsignal] at hconclusion
  cases outcome with
  | error e => cases hconclusion
  | ok captured =>
    obtain ⟨-, hafter⟩ := hm.begins hx (comparing?_of_stack hstack hsignal) hr
    have hchanges : (Snapshot.diff (some r.baseline) captured).hasChanges = true := by
      by_contra hquiet
      dsimp only [Except.mapError] at hconclusion
      rw [if_neg hquiet] at hconclusion
      cases hconclusion
    rw [begun?, if_pos hchanges] at hafter
    exact Attempt.delivers hafter (hm.baseline?_eq hx hr hnone) rfl hends

/-- An attempt is still one after a move that leaves the tree and the faults alone: the capture goes on with the answers
it would get at any time, or its changes are being delivered. -/
theorem Attempt.move (h : Attempt answer? root patterns id s) (hm : Move s t) (hx : Exclusive s)
    (hr : s.table.registrations[id]? = some r) (hroot : r.root = root) (hpatterns : s.patterns = patterns)
    (ha : Answers root answer? s) (hfaults : t.faults = s.faults) : Attempt answer? root patterns id t := by
  obtain ⟨r', hr', -, -, hover⟩ := hm.baseline hx hr
  cases hending : s.ending? id with
  | some outcome => exact Attempt.idle ((Table.isPolling_of_get hr').trans (hover (hending ▸ rfl)))
  | none =>
    have hbaseline := hm.baseline?_eq hx hr hending
    cases h with
    | idle hidle =>
      subst hroot hpatterns
      exact hm.attempt_idle hx hidle hr hending
    | captures hstack habsolute hc => exact hm.attempt_capturing hstack habsolute hc ha hfaults
    | captured hstack hsignal hends => exact hm.attempt_captured hx hr hending hstack hsignal hends
    | delivers hd hbased hreport hends =>
      rw [baseline?_of_get hr] at hbased
      cases hbased
      rcases hm.delivery hx hd with hafter | ⟨-, hstep⟩
      · exact Attempt.delivers hafter hbaseline hreport hends
      · generalize hw : Delivery.waiting _ = waiting at hstep
        cases hstep with
        | ends hsome =>
          rw [hending] at hsome
          cases hsome
        | aborted _ hsome =>
          rw [hending] at hsome
          cases hsome
        | serves _ hafter => exact Attempt.delivers hafter hbaseline hreport hends

/-- An attempt, and that its registration is there. -/
structure Attempted (p : Session) (root : Path) (id : RegistrationId) (s : Session) : Prop where
  exclusive : Exclusive s
  registered : ∃ r, s.table.registrations[id]? = some r ∧ r.root = root
  patterns : s.patterns = p.patterns
  attempt : Attempt p.answerTo? root p.patterns id s

/-- The registration stays, too. -/
theorem Attempted.move {p : Session} (h : Attempted p root id s) (hm : Move s t) (hs : Alike root p s) (ht : Alike root p t) :
    Attempted p root id t := by
  obtain ⟨r, hr, hroot⟩ := h.registered
  obtain ⟨r', hr', hsame, -, -⟩ := hm.baseline h.exclusive hr
  exact
    { exclusive := hm.exclusive h.exclusive
      registered := ⟨r', hr', hsame.trans hroot⟩
      patterns := hm.patterns.trans h.patterns
      attempt := h.attempt.move hm h.exclusive hr hroot h.patterns hs.answers (ht.faults.trans hs.faults.symm) }

/-- An attempt goes on through all moves that leave the tree and the faults alone. -/
theorem Attempted.moves {p : Session} (h : Attempted p root id s) (hms : Moves s ms t)
    (halike : ∀ m ∈ ms, Alike root p m.1 ∧ Alike root p m.2) : Attempted p root id t := by
  induction hms with
  | refl => exact h
  | move _ hm ih =>
    obtain ⟨hbefore, hafter⟩ := halike _ (List.mem_append_right _ List.mem_cons_self)
    exact (ih fun m hmem => halike m (List.mem_append_left _ hmem)).move hm hbefore hafter

/-! ## After an aborted delivery -/

/-- A capture that has come to its end has its poll on top of the stack. -/
theorem isCaptured_eq (h : s.isCaptured id = true) :
    ∃ owner gate below, s.stack = .polling id owner gate .capturing :: below := by
  unfold isCaptured at h
  split at h
  · rename_i hstack _
    rw [beq_iff_eq] at h
    subst h
    exact ⟨_, _, _, hstack⟩
  · cases h

/-- No poll of the registration delivers, and the baseline is a given one. -/
def Rewound (id : RegistrationId) (baseline : Snapshot) (s : Session) : Prop :=
  s.outline.deliveriesOf id = [] ∧ s.baseline? id = some baseline

/-- A poll that is handed the end of its capture has captured. -/
theorem isCaptured_of_signal {owner : PollOwner} {gate : Gate} (hstack : s.stack = .polling id owner gate .capturing :: below)
    {r : Except Failure Snapshot} (hsignal : s.signal = some (.captured r)) : s.isCaptured id = true := by
  rw [isCaptured, hstack, hsignal]
  exact beq_self_eq_true id

theorem isCaptured_of_comparing {captured : Snapshot} (h : s.comparing? id = some captured) : s.isCaptured id = true := by
  obtain ⟨owner, gate, below, hstack, hsignal⟩ := comparing?_eq h
  exact isCaptured_of_signal hstack hsignal

/-- What ends has captured, or it delivers. -/
theorem ending?_of_quiet (hx : Exclusive s) (hquiet : s.isCaptured id = false) (hnone : s.outline.deliveriesOf id = []) :
    s.ending? id = none := by
  by_contra hsome
  obtain ⟨outcome, hending⟩ := Option.ne_none_iff_exists'.mp hsome
  obtain ⟨owner, gate, stage, below, r, hstack, -, hconclusion⟩ := ending?_eq hending
  cases stage with
  | entering => cases hconclusion
  | capturing =>
    have hnot : ∀ r, s.signal ≠ some (.captured r) := by
      intro r hsignal
      rw [isCaptured_of_signal hstack hsignal] at hquiet
      cases hquiet
    unfold conclusion? at hconclusion
    split at hconclusion <;> simp_all
  | delivering current waiting report =>
    rw [hx.deliveriesOf_delivering hstack] at hnone
    cases hnone

/-- As long as no capture of its polls ends, nothing is delivered for a registration and its baseline stays. -/
theorem Rewound.move {baseline : Snapshot} (h : Rewound id baseline s) (hm : Move s t) (hx : Exclusive s)
    (hquiet : s.isCaptured id = false) : Rewound id baseline t := by
  obtain ⟨hnone, hbaseline⟩ := h
  have hending := ending?_of_quiet hx hquiet hnone
  obtain ⟨r, hr, rfl⟩ := Option.map_eq_some_iff.mp hbaseline
  refine ⟨?_, hm.baseline?_eq hx hr hending⟩
  cases hm.served hx id with
  | elsewhere _ _ _ hdeliveries => rw [hdeliveries, hnone]
  | begins hc _ _ _ =>
    rw [isCaptured_of_comparing hc] at hquiet
    cases hquiet
  | serves _ _ _ hbefore _ =>
    rw [hnone] at hbefore
    cases hbefore
  | shuts _ _ _ _ hafter => exact hafter
  | ends _ _ _ hafter _ => exact hafter

/-- The same for all moves up to the next end of a capture. -/
theorem Rewound.moves {baseline : Snapshot} (h : Rewound id baseline s) (hx : Exclusive s) (hms : Moves s ms t)
    (hquiet : ∀ m ∈ ms, m.1.isCaptured id = false) : Rewound id baseline t := by
  induction hms with
  | refl => exact h
  | @move ms t u hms hm ih =>
    have hexclusive : Exclusive t := hms.keeps (fun h hm => hm.exclusive h) hx
    have hbefore := ih fun m hmem => hquiet m (List.mem_append_left _ hmem)
    exact hbefore.move hm hexclusive (hquiet (t, u) (List.mem_append_right _ List.mem_cons_self))

/-- A poll of a registration that is not polled begins at once. -/
theorem step_beginPoll (hr : s.table.registrations[id]? = some r) (hidle : r.polling = false) (owner : PollOwner) (gate : Gate) :
    ∃ t capturedAt, (s.beginPoll id owner gate).step = some t ∧ t.table = s.table.setPolling id true ∧ t.disk = s.disk ∧
      t.faults = s.faults ∧ t.stack = .capturing { root := r.root, patterns := s.patterns, capturedAt } false ::
        .polling id owner gate .capturing :: s.stack := by
  have hstep : (s.beginPoll id owner gate).step =
      ((s.beginPoll id owner gate).popped s.stack).stepPoll s.signal id owner gate .entering := rfl
  have hr' : ((s.beginPoll id owner gate).popped s.stack).table.registrations[id]? = some r := hr
  rw [hstep, stepPoll, hr']
  dsimp only
  rw [if_neg (by rw [hidle]; exact Bool.false_ne_true)]
  exact ⟨_, _, rfl, rfl, rfl, rfl, rfl⟩

/-- A poll that starts now finds the changes that a capture of its root has found before. -/
theorem Attempted.finds {p : Session} {captured : Snapshot} {time : Int} (h : Attempted p root id s) (hs : Alike root p s)
    (hends : Ends p.answerTo? { root, patterns := p.patterns, capturedAt := time } (.ok captured)) {baseline : Snapshot}
    (hbaseline : s.baseline? id = some baseline) (hidle : s.table.isPolling id = false) (owner : PollOwner) (gate : Gate) :
    ∃ n, Finds id (Snapshot.diff (some baseline) captured).changes (run n (s.beginPoll id owner gate)) := by
  obtain ⟨r, hr, hroot⟩ := h.registered
  rw [baseline?_of_get hr] at hbaseline
  cases hbaseline
  rw [Table.isPolling_of_get hr] at hidle
  obtain ⟨t, capturedAt, ht, htable, hdisk, hfaults, hstack⟩ := step_beginPoll hr hidle owner gate
  have halike : Alike root p t := ⟨by rw [hdisk, hs.tree], hfaults.trans hs.faults, by rw [hdisk]; exact hs.cwd⟩
  have hagain := hends.timed capturedAt
  rw [hroot, h.patterns] at hstack
  obtain ⟨n, hbelow, hsignal, hsame, -⟩ := run_capture hagain hstack halike.answers fun h => h
  have hbare : (run n t).table.bare? id = some { r.bare with polling := true } := by
    rw [hsame.table, htable, Table.bare?_setPolling, if_pos rfl, Table.bare?_of_get hr]
    rfl
  obtain ⟨r', hr', -, hbaseline, -⟩ := Table.read_of_bare? hbare
  refine ⟨n + 1, r', captured.timed capturedAt, ?_, ?_, ?_⟩
  · rw [run, ht]
    exact hr'
  · rw [run, ht]
    exact comparing?_of_stack hbelow hsignal
  · rw [hbaseline]
    exact Snapshot.changes_diff_timed _ _ _

/-- A poll that has captured its root finds the changes that a capture of its root has found before. -/
theorem Attempted.found {p : Session} {captured : Snapshot} {time : Int} (h : Attempted p root id s)
    (hends : Ends p.answerTo? { root, patterns := p.patterns, capturedAt := time } (.ok captured)) {baseline : Snapshot}
    (hrewound : Rewound id baseline s) (hcaptured : s.isCaptured id = true) :
    Finds id (Snapshot.diff (some baseline) captured).changes s := by
  obtain ⟨owner, gate, below, hstack⟩ := isCaptured_eq hcaptured
  obtain ⟨r, hr, -⟩ := h.registered
  obtain ⟨hnone, hbaseline⟩ := hrewound
  rw [baseline?_of_get hr] at hbaseline
  cases hbaseline
  cases h.attempt with
  | idle hidle =>
    rw [(h.exclusive.polling hstack capturing_ne_entering).1] at hidle
    cases hidle
  | captures hstack' _ _ =>
    rw [hstack] at hstack'
    cases hstack'
  | captured hstack' hsignal hends' =>
    rw [hends.agree hends'] at hsignal
    exact ⟨r, _, hr, comparing?_of_stack hstack' hsignal, Snapshot.changes_diff_timed _ _ _⟩
  | delivers hd _ _ _ =>
    rw [hnone] at hd
    cases hd

/-- After a delivery was aborted, as long as the tree and its faults are the same, the next poll of the registration
finds the same changes again. -/
theorem found_again {p d e : Session} (hx : Exclusive p) (hr : p.table.registrations[id]? = some r)
    (hidle : p.table.isPolling id = false) (h : Moves p ms d) (habort : d.isAborting id = true) (hm : Move d e)
    (h' : Moves e more s) (halike : ∀ m ∈ ms ++ (d, e) :: more, Alike r.root p m.1 ∧ Alike r.root p m.2)
    (hquiet : ∀ m ∈ more, m.1.isCaptured id = false) : ∃ delivery, d.outline.deliveriesOf id = [delivery] ∧
      (s.isCaptured id = true → Finds id delivery.report.changes s) ∧
      (s.table.isPolling id = false →
        ∀ owner gate, ∃ n, Finds id delivery.report.changes (run n (s.beginPoll id owner gate))) := by
  have hp : Attempted p r.root id p := ⟨hx, ⟨r, hr, rfl⟩, rfl, Attempt.idle hidle⟩
  have hd := hp.moves h fun m hmem => halike m (List.mem_append_left _ hmem)
  have hde := halike (d, e) (List.mem_append_right _ List.mem_cons_self)
  have hs := (hd.move hm hde.1 hde.2).moves h' fun m hmem =>
    halike m (List.mem_append_right _ (List.mem_cons_of_mem _ hmem))
  have hlast : Alike r.root p s := by
    cases h' with
    | refl => exact hde.2
    | @move ms t u _ _ => exact (halike (t, s) (by simp)).2
  obtain ⟨owner, gate, current, waiting, report, below, hstack, haborts⟩ := isAborting_eq habort
  have hdelivery := hd.exclusive.deliveriesOf_delivering hstack
  -- what is aborted is the delivery of the attempt: in any other stage another frame is on top
  cases hd.attempt with
  | idle hidle =>
    rw [(hd.exclusive.polling hstack delivering_ne_entering).1] at hidle
    cases hidle
  | captures hstack' _ _ =>
    rw [hstack] at hstack'
    cases hstack'
  | captured hstack' _ _ =>
    rw [hstack] at hstack'
    cases hstack'
  | @delivers delivery baseline captured time hdelivers hbaseline hreport hends =>
    obtain ⟨f, hending⟩ := ending?_of_aborting hd.exclusive habort
    have hover := hm.deliveriesOf_of_ending hd.exclusive hending
    have hrewound : Rewound id baseline e := ⟨hover, (hm.baseline?_of_failed hd.exclusive hending).trans hbaseline⟩
    have hrewound := hrewound.moves (hm.exclusive hd.exclusive) h' hquiet
    refine ⟨delivery, hdelivers, ?_, ?_⟩
    · rw [hreport]
      exact hs.found hends hrewound
    · rw [hreport]
      exact hs.finds hlast hends hrewound.2

/-! ## Baselines over a run -/

/-- What a move does to the baseline of a registration after some moves, its own the last of them. -/
inductive Rebased (id : RegistrationId) (ms : List (Session × Session)) (r : Registration) (s t : Session) : Prop
  /-- No poll of the registration ends, and the baseline stays. -/
  | stays {r'} (hending : s.ending? id = none) (hr : t.table.registrations[id]? = some r') (hroot : r'.root = r.root)
      (hbaseline : r'.baseline = r.baseline) (hpolling : r.polling = true → r'.polling = true)
  /-- A poll ends with a failure. The baseline stays, and the registration can be polled again. -/
  | fails {r' f} (hending : s.ending? id = some (.error f)) (hover : Concluded id (.error f) s t)
      (hr : t.table.registrations[id]? = some r') (hroot : r'.root = r.root) (hbaseline : r'.baseline = r.baseline)
      (hagain : ∀ owner gate, (t.beginPoll id owner gate).step ≠ none)
  /-- A poll returns. The next baseline is that of its report, which compares a capture with the baseline in force then
  and since. -/
  | swaps {r' captured} (hending : s.ending? id = some (.ok (Snapshot.diff (some r.baseline) captured)))
      (hover : Concluded id (.ok (Snapshot.diff (some r.baseline) captured)) s t)
      (hr : t.table.registrations[id]? = some r') (hroot : r'.root = r.root)
      (hbaseline : r'.baseline = (Snapshot.diff (some r.baseline) captured).baseline)
      (hcompared : Compared id ms r.baseline captured)

/-- Every move leaves the baseline alone, or ends a poll that does what its end says. -/
theorem Move.rebased (hm : Move s t) (hx : Exclusive s) (hreported : Reported id ms s)
    (hr : s.table.registrations[id]? = some r) : Rebased id (ms ++ [(s, t)]) r s t := by
  obtain ⟨r', hr', hroot, hbaseline, hover⟩ := hm.baseline hx hr
  cases hending : s.ending? id with
  | none =>
    rw [hending] at hbaseline
    refine Rebased.stays hending hr' hroot hbaseline fun hpolling => ?_
    have hon := hm.polling hx ((Table.isPolling_of_get hr).trans hpolling) hending
    rwa [Table.isPolling_of_get hr'] at hon
  | some outcome =>
    have hconcluded := hm.concluded hx hending
    rw [hending] at hbaseline hover
    cases outcome with
    | error f =>
      refine Rebased.fails hending hconcluded hr' hroot hbaseline fun owner gate => ?_
      obtain ⟨u, _, hu, -⟩ := step_beginPoll hr' (hover rfl) owner gate
      rw [hu]
      exact Option.some_ne_none u
    | ok report =>
      obtain ⟨captured, rfl, hcompared⟩ := hreported.compared (t := t) hx hending hr
      exact Rebased.swaps hending hconcluded hr' hroot hbaseline hcompared

/-- The baseline of a registration is replaced when a poll of it returns, and never else; it becomes the baseline of a
comparison with the one it replaces. Between comparison and end a delivery is left alone by everything but its own
steps, and is never stuck when it is in control: each step serves a handle, or the baseline is replaced, or a fatal
failure ends the poll. Such a poll leaves the baseline as it is, and as long as the tree and its faults stay the same,
the next poll finds the same changes again. -/
theorem baseline_of_run {w : World} (hs : Opens w s) (h : Moves s ms t) (hr : t.table.registrations[id]? = some r) :
    (∀ {u}, Move t u → Rebased id (ms ++ [(t, u)]) r t u) ∧
    (∀ {u delivery}, t.outline.deliveriesOf id = [delivery] → Move t u → u.outline.deliveriesOf id = [delivery] ∨
      (∃ owner gate current below,
        t.stack = .polling id owner gate (.delivering current delivery.waiting delivery.report) :: below) ∧
      DeliveryStep id t u delivery.waiting delivery.report) ∧
    (∀ {owner gate current waiting report below},
      t.stack = .polling id owner gate (.delivering current waiting report) :: below → t.step ≠ none) ∧
    (∀ {first more d e u}, t.table.isPolling id = false → Moves t first d → d.isAborting id = true → Move d e →
      Moves e more u → (∀ m ∈ first ++ (d, e) :: more, Alike r.root t m.1 ∧ Alike r.root t m.2) →
      (∀ m ∈ more, m.1.isCaptured id = false) → ∃ delivery, d.outline.deliveriesOf id = [delivery] ∧
      (u.isCaptured id = true → Finds id delivery.report.changes u) ∧
        (u.table.isPolling id = false →
          ∀ owner gate, ∃ n, Finds id delivery.report.changes (run n (u.beginPoll id owner gate)))) := by
  obtain ⟨hx, hreported⟩ := reported_of_moves hs h id
  refine ⟨fun hm => hm.rebased hx hreported hr, fun hd hm => hm.delivery hx hd, fun hstack => hx.step_delivering hstack, ?_⟩
  intro first more d e u hidle hfirst habort hm hmore halike hquiet
  exact found_again hx hr hidle hfirst habort hm hmore halike hquiet

/-- A world like the hollow one, in which the first call of an observer fails fatally. -/
def fragile : World where
  disk := hollow.disk
  scripts := [("a", [[.abort]])]

def fragileTable : Session :=
  (createTable fragile (.text "poll") 1000 4 []).toOption.getD default

/-- An observer is attached, and there is a new file. -/
def fragileChanged : Session :=
  (fragileTable.after (.attach ⟨.root, ["w"]⟩ (.named "a" (.text "a")) "a") 4).after (.put "/w/x" (.file 2)) 0

/-- A poll has begun. -/
def fragilePolling : Session :=
  { fragileChanged with signal := none }.perform (.poll "a" none)

/-- The call of the observer has failed. -/
def fragileAborting : Session :=
  run 8 fragilePolling

def fragileAborted : Session :=
  fragileAborting.step.getD default

/-- After the failure the next poll finds the new file again. -/
theorem baseline_of_run_aborted : ∃ delivery, fragileAborting.outline.deliveriesOf 0 = [delivery] ∧
    delivery.report.changes = [⟨.added, ⟨.root, ["w", "x"]⟩⟩] ∧
      ∃ n, Finds 0 delivery.report.changes (run n (fragileAborted.beginPoll 0 .caller .free)) := by
  have hmade : createTable fragile (.text "poll") 1000 4 [] = .ok fragileTable := rfl
  have hopens : Opens fragile fragileTable := Opens.table hmade
  have hchanged : ∃ ms, Moves fragileTable ms fragileChanged :=
    ⟨_, (Moves.refl.acts _ 4 (by decide +kernel)).acts _ 0 (by decide +kernel)⟩
  obtain ⟨ms, hchanged⟩ := hchanged
  have hregistered : (fragileChanged.table.registrations[0]?).isSome = true := by decide +kernel
  obtain ⟨r, hr⟩ := Option.isSome_iff_exists.mp hregistered
  have hrest : fragileChanged.step.isNone = true := by decide +kernel
  have hbegins : Move fragileChanged fragilePolling := Move.act _ (Option.isNone_iff_eq_none.mp hrest)
  have hsteps : fragileAborting.step.isSome = true := by decide +kernel
  obtain ⟨e, he⟩ := Option.isSome_iff_exists.mp hsteps
  have haborted : fragileAborted = e := by rw [fragileAborted, he, Option.getD_some]
  have hends : Move fragileAborting fragileAborted := Move.step (haborted ▸ he)
  have hcalled : Moves fragilePolling (movesOf 8 fragilePolling) fragileAborting := moves_run 8 fragilePolling
  -- nothing happens to the tree or to the faults
  have hpolling : fragilePolling.disk = fragileChanged.disk :=
    (perform_effect { fragileChanged with signal := none } (.poll "a" none)).disk (by rintro _ ⟨⟩; rfl)
  have hkeep : (movesOf 8 fragilePolling ++ [(fragileAborting, fragileAborted)]).all (fun m => m.1.keepsTree) = true := by
    decide +kernel
  have hdisk := ((hcalled.move hends).disk fun m hm => List.all_eq_true.mp hkeep m hm).1
  have hfaults : ((fragileChanged, fragilePolling) :: movesOf 8 fragilePolling ++ [(fragileAborting, fragileAborted)]).all
      (fun m => m.1.faults.isEmpty && m.2.faults.isEmpty) = true := by decide +kernel
  have halike : ∀ m ∈ (fragileChanged, fragilePolling) :: movesOf 8 fragilePolling ++ [(fragileAborting, fragileAborted)],
      Alike r.root fragileChanged m.1 ∧ Alike r.root fragileChanged m.2 := by
    have hnone : fragileChanged.faults = [] := by decide +kernel
    intro m hm
    have hempty := List.all_eq_true.mp hfaults m hm
    rw [Bool.and_eq_true, List.isEmpty_iff, List.isEmpty_iff] at hempty
    have hsame : m.1.disk = fragileChanged.disk ∧ m.2.disk = fragileChanged.disk := by
      rcases List.mem_cons.mp hm with rfl | hm
      · exact ⟨rfl, hpolling⟩
      · rw [← hpolling]
        exact hdisk m hm
    exact
      ⟨⟨by rw [hsame.1], hempty.1.trans hnone.symm, Or.inr (by rw [hsame.1])⟩,
        ⟨by rw [hsame.2], hempty.2.trans hnone.symm, Or.inr (by rw [hsame.2])⟩⟩
  obtain ⟨-, -, -, hagain⟩ := baseline_of_run hopens hchanged hr
  obtain ⟨delivery, hdelivery, -, hfinds⟩ := hagain (by decide +kernel)
    ((Moves.single hbegins).trans hcalled) (by decide +kernel) hends Moves.refl halike fun m hm => nomatch hm
  have hchanges : (fragileAborting.outline.deliveriesOf 0).map (·.report.changes) =
    [[⟨.added, ⟨.root, ["w", "x"]⟩⟩]] := by
    decide +kernel
  rw [hdelivery] at hchanges
  exact ⟨delivery, hdelivery, List.singleton_inj.mp hchanges, hfinds (by decide +kernel) .caller .free⟩

end DirWatch.Session
