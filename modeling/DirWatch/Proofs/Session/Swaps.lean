import DirWatch.Proofs.Session.FanOut

/-!
# When a baseline changes

`ending? s id` says how a poll of a registration is about to end, if it is: with a report, or with a failure. A move
changes the baseline of a registration if and only if it ends a poll of it with a report, and then the next baseline is
that of the report (`Move.baseline`). The report compares a capture with the baseline that is replaced: no other
baseline was in force from that comparison to the end of the poll (`Compared`).
-/

namespace DirWatch.Session

/-- The failure that aborts a delivery. -/
def fatal? : Option Signal → Option Failure
  | some (.raised f) => if f.isFatal then some f else none
  | _ => none

/-- How a poll is about to end from its stage, if it is. -/
def conclusion? (s : Session) (r : Registration) (gate : Gate) : PollStage → Option (Except Failure Change.Report)
  | .entering => none
  | .capturing =>
    match s.signal with
    | some (.captured (.ok captured)) =>
      if (Snapshot.diff (some r.baseline) captured).hasChanges then none
      else some (.ok (Snapshot.diff (some r.baseline) captured))
    | some (.captured (.error f)) => some (.error f)
    | _ => none
  | .delivering _ waiting report =>
    match fatal? s.signal with
    | some f => some (.error f)
    | none => if waiting.isEmpty || !(s.passGate gate).1 then some (.ok report) else none

/-- How a poll of a registration is about to end, if one is in control and comes to its end. -/
def ending? (s : Session) (id : RegistrationId) : Option (Except Failure Change.Report) :=
  match s.stack with
  | .polling other _ gate stage :: _ =>
    if other = id then (s.table.registrations[id]?).bind fun r => s.conclusion? r gate stage else none
  | _ => none

/-- The poll of a registration that is in control ends in a move, and whoever made it is told the outcome. -/
def Concluded (id : RegistrationId) (outcome : Except Failure Change.Report) (s t : Session) : Prop :=
  ∃ owner gate stage below, s.stack = .polling id owner gate stage :: below ∧ t.stack = below ∧
    t.outline.books = concludeBooks s.outline.books owner outcome ∧
      (owner = .caller → t.signal = some (.replied (outcome.map fun report => .changes report.changes)))

/-- The baseline of a registration. -/
def baseline? (s : Session) (id : RegistrationId) : Option Snapshot :=
  s.table.registrations[id]?.map (·.baseline)

/-- The last comparison in some moves was that of a capture with a baseline which has been in force ever since. -/
def Compared (id : RegistrationId) (ms : List (Session × Session)) (baseline captured : Snapshot) : Prop :=
  ∃ before a b mid, ms = before ++ (a, b) :: mid ∧ a.comparing? id = some captured ∧
    (∀ m ∈ (a, b) :: mid, m.1.baseline? id = some baseline) ∧ ∀ m ∈ mid, m.1.comparing? id = none

variable {s t u : Session} {id k : RegistrationId} {owner : PollOwner} {gate : Gate} {stage : PollStage} {below : List Frame}
  {signal : Option Signal} {r : Registration} {ms : List (Session × Session)} {outcome : Except Failure Change.Report}
  {captured : Snapshot} {report : Change.Report}

/-! ## Ends of polls -/

/-- A signal that aborts nothing is no fatal failure. -/
theorem fatal?_of_aborts (h : aborts signal = false) : fatal? signal = none := by
  unfold fatal?
  split
  · exact if_neg (by simpa [aborts] using h)
  · rfl

/-- The end of a poll is read off its frame and its registration. -/
theorem ending?_of_stack (hstack : s.stack = .polling id owner gate stage :: below)
    (hr : s.table.registrations[id]? = some r) : s.ending? id = s.conclusion? r gate stage := by
  unfold ending?
  rw [hstack, hr]
  exact if_pos rfl

/-- Only a poll of the registration ends for it. -/
theorem ending?_of_polled (h : s.polled? ≠ some id) : s.ending? id = none := by
  unfold ending?
  split
  · rename_i hstack
    refine if_neg ?_
    rintro rfl
    exact h (polled?_of_stack hstack)
  · rfl

/-- What ends is a poll in control. -/
theorem ending?_eq (h : s.ending? id = some outcome) : ∃ owner gate stage below r,
    s.stack = .polling id owner gate stage :: below ∧ s.table.registrations[id]? = some r ∧
      s.conclusion? r gate stage = some outcome := by
  unfold ending? at h
  split at h
  · rename_i hstack
    obtain ⟨rfl, h⟩ := Option.ite_none_right_eq_some.mp h
    obtain ⟨r, hr, hconclusion⟩ := Option.bind_eq_some_iff.mp h
    exact ⟨_, _, _, _, r, hstack, hr, hconclusion⟩
  · cases h

/-- A poll concludes in one way. -/
theorem Concludes.conclusion? (h : Concludes s r gate stage s.signal outcome) : s.conclusion? r gate stage = some outcome := by
  generalize hs : s.signal = signal at h
  cases h with
  | unchanged hsame =>
    unfold Session.conclusion?
    dsimp only
    rw [hs]
    dsimp only
    rw [hsame]
    rfl
  | uncaptured =>
    unfold Session.conclusion?
    dsimp only
    rw [hs]
  | aborted hfatal =>
    unfold Session.conclusion?
    dsimp only
    rw [hs, fatal?, if_pos hfatal]
  | served hsignal =>
    unfold Session.conclusion?
    dsimp only
    rw [hs, fatal?_of_aborts hsignal]
    rfl
  | shut hsignal hgate =>
    unfold Session.conclusion?
    dsimp only
    rw [hs, fatal?_of_aborts hsignal, hgate]
    rfl

/-- A delivery that goes on does not end. -/
theorem ending?_of_open {current : Option HandleId} {h : HandleId} {waiting : List HandleId}
    (hstack : s.stack = .polling id owner gate (.delivering current (h :: waiting) report) :: below)
    (hsignal : aborts s.signal = false) (hopen : (s.passGate gate).1 = true) : s.ending? id = none := by
  cases hr : s.table.registrations[id]? with
  | none =>
    unfold ending?
    rw [hstack, hr]
    exact if_pos rfl
  | some r =>
    rw [ending?_of_stack hstack hr, conclusion?, fatal?_of_aborts hsignal, hopen]
    rfl

/-- A delivery that is aborted is on top of the stack and has just been told so. -/
theorem isAborting_eq (h : s.isAborting id = true) : ∃ owner gate current waiting report below,
    s.stack = .polling id owner gate (.delivering current waiting report) :: below ∧ aborts s.signal = true := by
  unfold isAborting at h
  split at h
  · rename_i hstack
    rw [Bool.and_eq_true, beq_iff_eq] at h
    obtain ⟨rfl, haborts⟩ := h
    exact ⟨_, _, _, _, _, _, hstack, haborts⟩
  · cases h

/-- A delivery that is aborted ends with the failure. -/
theorem ending?_of_aborting (hx : Exclusive s) (h : s.isAborting id = true) : ∃ f, s.ending? id = some (.error f) := by
  obtain ⟨owner, gate, current, waiting, report, below, hstack, haborts⟩ := isAborting_eq h
  obtain ⟨r, hr⟩ := hx.registered hstack delivering_ne_entering
  have hfatal : ∃ f, fatal? s.signal = some f := by
    unfold aborts at haborts
    split at haborts
    · rename_i f hsignal
      exact ⟨f, by rw [hsignal, fatal?, if_pos haborts]⟩
    · cases haborts
  obtain ⟨f, hf⟩ := hfatal
  refine ⟨f, ?_⟩
  rw [ending?_of_stack hstack hr, conclusion?, hf]

/-- What is about to end is not stuck. -/
theorem Exclusive.step_ending (hx : Exclusive s) (h : s.ending? id = some outcome) : s.step ≠ none := by
  obtain ⟨owner, gate, stage, below, r, hstack, -, hconclusion⟩ := ending?_eq h
  cases stage with
  | entering => cases hconclusion
  | delivering current waiting report => exact hx.step_delivering hstack
  | capturing =>
    cases hsignal : s.signal with
    | none =>
      rw [conclusion?, hsignal] at hconclusion
      cases hconclusion
    | some signal =>
      cases signal with
      | captured outcome => exact hx.step_captured hstack hsignal
      | _ =>
        rw [conclusion?, hsignal] at hconclusion
        cases hconclusion

/-- What a step of the poll in control does to the table. -/
theorem PollMove.ending (hmove : PollMove s below id owner gate stage s.signal t)
    (hstack : s.stack = .polling id owner gate stage :: below) :
    (s.ending? id = none ∧ (t.table = s.table ∨
      stage = .entering ∧ s.table.isPolling id = false ∧ t.table = s.table.setPolling id true)) ∨
    ∃ outcome r, s.ending? id = some outcome ∧ s.table.registrations[id]? = some r ∧
    t.table = endTable s.table id outcome ∧
      Concluded id outcome s t := by
  have hending : ∀ {r}, s.table.registrations[id]? = some r → s.ending? id = s.conclusion? r gate stage :=
    fun hr => ending?_of_stack hstack hr
  generalize hs : s.signal = signal at hmove
  cases hmove with
  | enters hr hfree htable _ _ =>
    left
    refine ⟨hending hr, Or.inr ⟨rfl, ?_, htable⟩⟩
    rw [Table.isPolling_of_get hr, hfree]
  | compares hr hchanges htable _ _ =>
    left
    refine ⟨(hending hr).trans ?_, Or.inl htable⟩
    unfold conclusion?
    dsimp only
    rw [hs]
    exact if_pos hchanges
  | passes hsignal hopen _ htable _ _ =>
    subst hs
    exact Or.inl ⟨ending?_of_open hstack hsignal hopen, Or.inl htable⟩
  | calls hsignal hopen _ _ _ htable _ _ =>
    subst hs
    exact Or.inl ⟨ending?_of_open hstack hsignal hopen, Or.inl htable⟩
  | @ends _ _ outcome u r hr hc hu houtline =>
    right
    subst hs
    have hleads := endPoll_leads u id owner outcome
    refine ⟨outcome, r, (hending hr).trans hc.conclusion?, hr, ?_, owner, gate, stage, below, hstack, ?_, ?_, ?_⟩
    · rw [hleads.table, hu.table]
      rfl
    · rw [hleads.stack, hu.stack]
      rfl
    · rw [outline_endPoll, houtline]
      rfl
    · rintro rfl
      cases outcome <;> rfl

/-- A step of a poll changes nothing that is read of other registrations. -/
theorem PollMove.bare?_ne (hmove : PollMove s below k owner gate stage s.signal t)
    (hstack : s.stack = .polling k owner gate stage :: below) (hne : k ≠ id) : t.table.bare? id = s.table.bare? id := by
  rcases hmove.ending hstack with ⟨-, htable | ⟨-, -, htable⟩⟩ | ⟨outcome, r, -, hr, htable, -⟩
  · rw [htable]
  · rw [htable, Table.bare?_setPolling, if_neg hne]
  · rw [htable, bare?_endTable (Table.bare?_of_get hr), if_neg hne]

/-- A move leaves alone what the polls read of a registration, and what is delivered for it. -/
structure Apart (id : RegistrationId) (s t : Session) : Prop where
  bare : ∀ {r}, s.table.bare? id = some r → t.table.bare? id = some r
  polling : t.table.isPolling id = s.table.isPolling id
  deliveries : t.outline.deliveriesOf id = s.outline.deliveriesOf id
  ending : s.ending? id = none

/-- A move leaves a registration alone, unless it is a step of a poll of it. -/
theorem Move.apart_or_polls (hm : Move s t) (hx : Exclusive s) (id : RegistrationId) : Apart id s t ∨
    ∃ owner gate stage below, s.stack = .polling id owner gate stage :: below ∧
    PollMove s below id owner gate stage s.signal t := by
  rcases hm.rests_or_polls with ⟨hshift, hrests, hwho⟩ | ⟨k, owner, gate, stage, below, hstack, -, hmove⟩
  · refine Or.inl ⟨hrests.bare, hrests.isPolling id, hx.deliveriesOf_eq hshift id, ?_⟩
    rcases hwho with hstuck | hnone
    · by_contra hsome
      obtain ⟨outcome, hending⟩ := Option.ne_none_iff_exists'.mp hsome
      exact hx.step_ending hending hstuck
    · exact ending?_of_polled (by simp [hnone])
  · by_cases hk : k = id
    · subst hk
      exact Or.inr ⟨owner, gate, stage, below, hstack, hmove⟩
    · have hbare := hmove.bare?_ne hstack hk
      refine Or.inl ⟨fun hr => hbare.trans hr, ?_, hmove.deliveriesOf_ne hstack hk, ?_⟩
      · rw [Table.isPolling, Table.isPolling, hbare]
      · exact ending?_of_polled (by simpa [polled?_of_stack hstack] using hk)

/-! ## What a move does to a baseline -/

/-- The baseline after a poll has ended, or has not. -/
def nextBaseline (baseline : Snapshot) : Option (Except Failure Change.Report) → Snapshot
  | some (.ok report) => report.baseline
  | _ => baseline

/-- A registration keeps its root, and its baseline is replaced when a poll of it ends with a report, and never else. -/
theorem Move.baseline (hm : Move s t) (hx : Exclusive s) (hr : s.table.registrations[id]? = some r) :
    ∃ r', t.table.registrations[id]? = some r' ∧ r'.root = r.root ∧
      r'.baseline = nextBaseline r.baseline (s.ending? id) ∧ ((s.ending? id).isSome → r'.polling = false) := by
  have hbare := Table.bare?_of_get hr
  have hsame : t.table.bare? id = some r.bare → s.ending? id = none → ∃ r', t.table.registrations[id]? = some r' ∧
      r'.root = r.root ∧ r'.baseline = nextBaseline r.baseline (s.ending? id) ∧
        ((s.ending? id).isSome → r'.polling = false) := by
    intro hbare hnone
    rw [hnone]
    obtain ⟨r', hr', hroot, hbaseline, -⟩ := Table.read_of_bare? hbare
    exact ⟨r', hr', hroot, hbaseline, by simp⟩
  rcases hm.apart_or_polls hx id with hapart | ⟨owner, gate, stage, below, hstack, hmove⟩
  · exact hsame (hapart.bare hbare) hapart.ending
  · rcases hmove.ending hstack with ⟨hnone, htable | ⟨-, -, htable⟩⟩ | ⟨outcome, r₀, hending, hr₀, htable, -⟩
    · exact hsame (by rw [htable, hbare]) hnone
    · rw [hnone]
      have hbegun : t.table.bare? id = some { r.bare with polling := true } := by
        rw [htable, Table.bare?_setPolling, if_pos rfl, hbare]
        rfl
      obtain ⟨r', hr', hroot, hbaseline, -⟩ := Table.read_of_bare? hbegun
      exact ⟨r', hr', hroot, hbaseline, by simp⟩
    · rw [hending]
      have hended := bare?_endTable hbare outcome id
      rw [if_pos rfl, ← htable] at hended
      obtain ⟨r', hr', hroot, hbaseline, hpolling⟩ := Table.read_of_bare? hended
      refine ⟨r', hr', hroot, hbaseline.trans ?_, fun _ => hpolling⟩
      cases outcome <;> rfl

/-- What is about to end ends in the next move. -/
theorem Move.concluded (hm : Move s t) (hx : Exclusive s) (hending : s.ending? id = some outcome) : Concluded id outcome s t := by
  rcases hm.apart_or_polls hx id with hapart | ⟨owner, gate, stage, below, hstack, hmove⟩
  · rw [hapart.ending] at hending
    cases hending
  · rcases hmove.ending hstack with ⟨hnone, -⟩ | ⟨outcome', r', hending', -, -, hconcluded⟩
    · rw [hending] at hnone
      cases hnone
    · rw [hending] at hending'
      cases hending'
      exact hconcluded

/-- A poll goes on until it ends. -/
theorem Move.polling (hm : Move s t) (hx : Exclusive s) (hpolling : s.table.isPolling id = true) (hending : s.ending? id = none) :
    t.table.isPolling id = true := by
  rcases hm.apart_or_polls hx id with hapart | ⟨owner, gate, stage, below, hstack, hmove⟩
  · rw [hapart.polling, hpolling]
  · rcases hmove.ending hstack with ⟨-, htable | ⟨-, hfree, -⟩⟩ | ⟨outcome, r, hsome, -⟩
    · rw [htable, hpolling]
    · rw [hpolling] at hfree
      cases hfree
    · rw [hending] at hsome
      cases hsome

/-! ## Between comparison and end -/

/-- What a step of a delivery comes to: it ends with its report when nothing is left to do or the gate is closed, it is
aborted by a fatal failure, or it gives one handle its turn. -/
inductive DeliveryStep (id : RegistrationId) (s t : Session) : List HandleId → Change.Report → Prop
  | ends {waiting report} (hending : s.ending? id = some (.ok report)) : DeliveryStep id s t waiting report
  | aborted {waiting report f} (habort : s.isAborting id = true) (hending : s.ending? id = some (.error f)) :
      DeliveryStep id s t waiting report
  | serves {h waiting report} (hending : s.ending? id = none) (hafter : t.outline.deliveriesOf id = [⟨waiting, report⟩]) :
      DeliveryStep id s t (h :: waiting) report

/-- A step of the poll that delivers takes the delivery on, or ends it. -/
theorem PollMove.delivery (hmove : PollMove s below id owner gate stage s.signal t) (hx : Exclusive s)
    (hstack : s.stack = .polling id owner gate stage :: below) {d : Delivery} (hd : s.outline.deliveriesOf id = [d]) :
    (∃ current, stage = .delivering current d.waiting d.report) ∧ DeliveryStep id s t d.waiting d.report := by
  have hnothing : ∀ {P : Prop}, s.outline.deliveriesOf id = [] → P := by
    intro P hnone
    rw [hd] at hnone
    cases hnone
  have hcaptures : stage = .capturing → s.outline.deliveriesOf id = [] := by
    rintro rfl
    exact hx.deliveriesOf_capturing hstack
  have hdelivers : ∀ {current waiting report}, stage = .delivering current waiting report → d = ⟨waiting, report⟩ := by
    rintro current waiting report rfl
    rw [hx.deliveriesOf_delivering hstack] at hd
    cases hd
    rfl
  have hpopped := hx.deliveriesOf_popped hstack
  generalize hs : s.signal = signal at hmove
  cases hmove with
  | enters hr hfree _ _ _ =>
    refine hnothing (hx.deliveriesOf_idle ?_)
    rw [Table.isPolling_of_get hr, hfree]
  | compares _ _ _ _ _ => exact hnothing (hcaptures rfl)
  | passes hsignal hopen _ _ _ houtline =>
    obtain rfl := hdelivers rfl
    subst hs
    refine ⟨⟨_, rfl⟩, DeliveryStep.serves (ending?_of_open hstack hsignal hopen) ?_⟩
    rw [houtline, deliveriesOf_push_delivering, hpopped delivering_ne_entering]
  | @calls _ h waiting report _ _ _ _ _ hsignal hopen _ _ _ _ _ houtline =>
    obtain rfl := hdelivers rfl
    subst hs
    refine ⟨⟨_, rfl⟩, DeliveryStep.serves (ending?_of_open hstack hsignal hopen) ?_⟩
    have hafter : t.outline.deliveriesOf id =
        ((s.popped below).outline.push (.poll id owner (.delivering (some h) waiting report))).deliveriesOf id := by
      rw [houtline]
      rfl
    rw [hafter, deliveriesOf_push_delivering, hpopped delivering_ne_entering]
  | ends hr hc _ _ =>
    subst hs
    have hending := (ending?_of_stack hstack hr).trans hc.conclusion?
    generalize hs : s.signal = signal at hc
    cases hc with
    | unchanged _ => exact hnothing (hcaptures rfl)
    | uncaptured => exact hnothing (hcaptures rfl)
    | aborted hfatal =>
      obtain rfl := hdelivers rfl
      refine ⟨⟨_, rfl⟩, DeliveryStep.aborted ((isAborting_of_stack hstack).trans ?_) hending⟩
      rw [hs]
      exact hfatal
    | served _ =>
      obtain rfl := hdelivers rfl
      exact ⟨⟨_, rfl⟩, DeliveryStep.ends hending⟩
    | shut _ _ =>
      obtain rfl := hdelivers rfl
      exact ⟨⟨_, rfl⟩, DeliveryStep.ends hending⟩

/-- A delivery under way is left alone, unless it is in control and takes a step. -/
theorem Move.delivery (hm : Move s t) (hx : Exclusive s) {d : Delivery} (hd : s.outline.deliveriesOf id = [d]) :
    t.outline.deliveriesOf id = [d] ∨ (∃ owner gate current below,
      s.stack = .polling id owner gate (.delivering current d.waiting d.report) :: below) ∧
        DeliveryStep id s t d.waiting d.report := by
  rcases hm.apart_or_polls hx id with hapart | ⟨owner, gate, stage, below, hstack, hmove⟩
  · exact Or.inl (hapart.deliveries.trans hd)
  · obtain ⟨⟨current, rfl⟩, hstep⟩ := hmove.delivery hx hstack hd
    exact Or.inr ⟨⟨owner, gate, current, below, hstack⟩, hstep⟩

/-! ## Comparisons -/

/-- The baseline in force is that of the registration. -/
theorem baseline?_of_get (hr : s.table.registrations[id]? = some r) : s.baseline? id = some r.baseline := by
  rw [baseline?, hr]
  rfl

/-- Without the end of a poll the baseline stays. -/
theorem Move.baseline?_eq (hm : Move s t) (hx : Exclusive s) (hr : s.table.registrations[id]? = some r)
    (hnone : s.ending? id = none) : t.baseline? id = some r.baseline := by
  obtain ⟨r', hr', -, hbaseline, -⟩ := hm.baseline hx hr
  rw [hnone] at hbaseline
  rw [baseline?_of_get hr', hbaseline]
  rfl

/-- After a failure the baseline stays. -/
theorem Move.baseline?_of_failed (hm : Move s t) (hx : Exclusive s) {f : Failure} (hending : s.ending? id = some (.error f)) :
    t.baseline? id = s.baseline? id := by
  obtain ⟨_, _, _, _, r, -, hr, -⟩ := ending?_eq hending
  obtain ⟨r', hr', -, hbaseline, -⟩ := hm.baseline hx hr
  rw [baseline?_of_get hr', baseline?_of_get hr, hbaseline, hending]
  rfl

/-- A capture that is being compared has just been. -/
theorem Compared.now (hr : s.table.registrations[id]? = some r) (hc : s.comparing? id = some captured) :
    Compared id (ms ++ [(s, t)]) r.baseline captured := by
  refine ⟨ms, s, t, [], rfl, hc, ?_, fun m hm => nomatch hm⟩
  intro m hm
  rw [List.mem_singleton.mp hm]
  exact baseline?_of_get hr

/-- It stays the last one until the next comparison, and so does the baseline. -/
theorem Compared.move {baseline : Snapshot} (h : Compared id ms baseline captured) (hbaseline : s.baseline? id = some baseline)
    (hnone : s.comparing? id = none) : Compared id (ms ++ [(s, t)]) baseline captured := by
  obtain ⟨before, a, b, mid, rfl, hc, hforce, hlast⟩ := h
  refine ⟨before, a, b, mid ++ [(s, t)], List.append_assoc _ _ _, hc, ?_, ?_⟩
  · intro m hm
    rcases List.mem_append.mp (show m ∈ ((a, b) :: mid) ++ [(s, t)] from hm) with hm | hm
    · exact hforce m hm
    · rw [List.mem_singleton.mp hm]
      exact hbaseline
  · intro m hm
    rcases List.mem_append.mp hm with hm | hm
    · exact hlast m hm
    · rw [List.mem_singleton.mp hm]
      exact hnone

/-- Nothing is delivered once a poll has ended. -/
theorem Move.deliveriesOf_of_ending (hm : Move s t) (hx : Exclusive s) (hending : s.ending? id = some outcome) :
    t.outline.deliveriesOf id = [] := by
  obtain ⟨_, _, _, _, r, -, hr, -⟩ := ending?_eq hending
  obtain ⟨r', hr', -, -, hidle⟩ := hm.baseline hx hr
  refine (hm.exclusive hx).deliveriesOf_idle ?_
  rw [Table.isPolling_of_get hr']
  exact hidle (hending ▸ rfl)

/-- A delivery under way has not ended. -/
theorem Move.ending_none (hm : Move s t) (hx : Exclusive s) {d : Delivery} (hd : d ∈ t.outline.deliveriesOf id) :
    s.ending? id = none := by
  by_contra hsome
  obtain ⟨outcome, hending⟩ := Option.ne_none_iff_exists'.mp hsome
  rw [hm.deliveriesOf_of_ending hx hending] at hd
  cases hd

/-- What is being delivered compares with the baseline that has been in force since. -/
def Reported (id : RegistrationId) (ms : List (Session × Session)) (t : Session) : Prop :=
  ∀ d ∈ t.outline.deliveriesOf id, ∃ baseline captured, t.baseline? id = some baseline ∧
    d.report = Snapshot.diff (some baseline) captured ∧ Compared id ms baseline captured

/-- What is delivered after a move was delivered before, or has just been compared. -/
theorem Reported.move (h : Reported id ms t) (hx : Exclusive t) (hm : Move t u) : Reported id (ms ++ [(t, u)]) u := by
  intro d hd
  have hnone := hm.ending_none hx hd
  have hkeep : ∀ {r}, t.table.registrations[id]? = some r → u.baseline? id = some r.baseline :=
    fun hr => hm.baseline?_eq hx hr hnone
  have hgoes : ∀ d' ∈ t.outline.deliveriesOf id, d.report = d'.report →
      ∃ baseline captured, u.baseline? id = some baseline ∧ d.report = Snapshot.diff (some baseline) captured ∧
        Compared id (ms ++ [(t, u)]) baseline captured := by
    intro d' hd' hreport
    obtain ⟨baseline, captured, hbaseline, heq, hcompared⟩ := h d' hd'
    have hcomparing : t.comparing? id = none := by
      cases hc : t.comparing? id with
      | none => rfl
      | some other =>
        rw [hx.deliveriesOf_comparing hc] at hd'
        cases hd'
    obtain ⟨r, hr, rfl⟩ := Option.map_eq_some_iff.mp hbaseline
    exact ⟨_, captured, hkeep hr, hreport.trans heq, hcompared.move hbaseline hcomparing⟩
  cases hm.served hx id with
  | elsewhere _ _ _ hdeliveries => exact hgoes d (hdeliveries ▸ hd) rfl
  | @begins captured r hc hr _ hafter =>
    rw [hafter, begun?] at hd
    split at hd
    · cases List.mem_singleton.mp hd
      exact ⟨r.baseline, captured, hkeep hr, rfl, Compared.now hr hc⟩
    · cases hd
  | @serves v waiting report _ _ _ hbefore hafter =>
    rw [hafter] at hd
    cases List.mem_singleton.mp hd
    exact hgoes ⟨v.handle :: waiting, report⟩ (hbefore ▸ List.mem_singleton_self _) rfl
  | shuts _ _ _ _ hafter =>
    rw [hafter] at hd
    cases hd
  | ends _ _ _ hafter _ =>
    rw [hafter] at hd
    cases hd

/-- On every run, what is being delivered compares with the baseline in force. -/
theorem reported_of_moves {w : World} (hs : Opens w s) (h : Moves s ms t) (id : RegistrationId) :
    Exclusive t ∧ Reported id ms t := by
  induction h with
  | refl =>
    have hidle : s.table.isPolling id = false := by
      rw [hs.fresh.table]
      rfl
    refine ⟨hs.exclusive, ?_⟩
    rw [Reported, hs.exclusive.deliveriesOf_idle hidle]
    exact fun d hd => nomatch hd
  | move _ hm ih => exact ⟨hm.exclusive ih.1, ih.2.move ih.1 hm⟩

/-- The report that a poll ends with compares with the baseline in force. -/
theorem Reported.compared (h : Reported id ms s) (hx : Exclusive s) (hending : s.ending? id = some (.ok report))
    (hr : s.table.registrations[id]? = some r) : ∃ captured, report = Snapshot.diff (some r.baseline) captured ∧
      Compared id (ms ++ [(s, t)]) r.baseline captured := by
  obtain ⟨owner, gate, stage, below, r', hstack, hr', hconclusion⟩ := ending?_eq hending
  rw [hr] at hr'
  cases hr'
  cases stage with
  | entering => cases hconclusion
  | capturing =>
    unfold conclusion? at hconclusion
    dsimp only at hconclusion
    split at hconclusion
    · rename_i captured hsignal
      split at hconclusion
      · cases hconclusion
      · cases hconclusion
        exact ⟨captured, rfl, Compared.now hr (comparing?_of_stack hstack hsignal)⟩
    · cases hconclusion
    · cases hconclusion
  | delivering current waiting report' =>
    have hdelivering := hx.deliveriesOf_delivering hstack
    obtain ⟨baseline, captured, hbaseline, hreport, hcompared⟩ :=
      h ⟨waiting, report'⟩ (hdelivering ▸ List.mem_singleton_self _)
    rw [baseline?_of_get hr] at hbaseline
    cases hbaseline
    have hcomparing : s.comparing? id = none := comparing?_of_stage hstack fun hc => nomatch hc
    refine ⟨captured, ?_, hcompared.move (baseline?_of_get hr) hcomparing⟩
    unfold conclusion? at hconclusion
    dsimp only at hconclusion
    split at hconclusion
    · cases hconclusion
    · split at hconclusion
      · cases hconclusion
        exact hreport
      · cases hconclusion

end DirWatch.Session
