import DirWatch.Proofs.Session.Exclusion

/-!
# The calls of one poll

A poll that has found changes gives every handle that is attached then its turn, one after another. `servicesOf id ms`
are the turns that the polls of a registration give in some moves, each with what the handle and the gate were like at
that moment and with the calls that were made. `Served` says what one move can do to a delivery, and `FanOut` what a
whole delivery comes to: however many moves others make in between, and whatever observers do in their calls
(`fan_out_of_run`).
-/

namespace DirWatch.Session

/-- The turn of a handle. -/
structure Service where
  handle : HandleId
  /-- Whether the gate was open. -/
  isOpen : Bool
  /-- The handle as the table had it. -/
  attachment : Option Handle
  /-- The calls of observers that were made. -/
  calls : List (Observer × List Change)

/-- The calls that are to be made at a turn: one if the gate is open and the handle active. An observer that is no
callable cannot be called. -/
def Service.owed (v : Service) (changes : List Change) : List (Observer × List Change) :=
  match v.attachment with
  | some handle =>
    if v.isOpen && handle.active && handle.observer.isCallable then [(handle.observer, changes)] else []
  | none => []

/-- The calls of observers that were made in a move. -/
def callsOf (m : Session × Session) : List (Observer × List Change) :=
  m.2.calls.take (m.2.calls.length - m.1.calls.length)

/-- The turn that a poll of a registration gives in a move, if it gives one. -/
def serviceOf? (id : RegistrationId) (m : Session × Session) : Option Service :=
  match m.1.stack with
  | .polling other _ gate (.delivering _ (h :: _) _) :: _ =>
    if other = id ∧ aborts m.1.signal = false then
      some { handle := h, isOpen := (m.1.passGate gate).1, attachment := m.1.table.handles[h]?, calls := callsOf m }
    else none
  | _ => none

def servicesOf (id : RegistrationId) (ms : List (Session × Session)) : List Service :=
  ms.filterMap (serviceOf? id)

/-- The capture that a poll of a registration is about to compare with the baseline. -/
def comparing? (s : Session) (id : RegistrationId) : Option Snapshot :=
  match s.stack, s.signal with
  | .polling other _ _ .capturing :: _, some (.captured (.ok captured)) => if other = id then some captured else none
  | _, _ => none

/-- Whether a delivery for a registration is about to be aborted. -/
def isAborting (s : Session) (id : RegistrationId) : Bool :=
  match s.stack with
  | .polling other _ _ (.delivering _ _ _) :: _ => other == id && aborts s.signal
  | _ => false

/-- The delivery that begins with a report: it is for the handles attached now, if there is anything to deliver. -/
def begun? (r : Registration) (report : Change.Report) : Option Delivery :=
  if report.hasChanges then some ⟨r.handles, report⟩ else none

/-- What a move can do to the delivery for a registration. -/
inductive Served (id : RegistrationId) (s t : Session) : Prop
  /-- It is no step of that delivery. -/
  | elsewhere (hcompares : s.comparing? id = none) (hservice : serviceOf? id (s, t) = none)
      (hsilent : s.polled? = some id → callsOf (s, t) = [])
      (hdeliveries : t.outline.deliveriesOf id = s.outline.deliveriesOf id)
  /-- A delivery begins, or there is nothing to deliver. -/
  | begins {captured r} (hcompares : s.comparing? id = some captured) (hr : s.table.registrations[id]? = some r)
      (hsilent : callsOf (s, t) = [])
      (hafter : t.outline.deliveriesOf id = (begun? r (Snapshot.diff (some r.baseline) captured)).toList)
  /-- A handle gets its turn. -/
  | serves {v : Service} {waiting report} (hservice : serviceOf? id (s, t) = some v) (hopen : v.isOpen = true)
      (howed : v.calls = v.owed report.changes) (hbefore : s.outline.deliveriesOf id = [⟨v.handle :: waiting, report⟩])
      (hafter : t.outline.deliveriesOf id = [⟨waiting, report⟩])
  /-- The gate is closed. -/
  | shuts {v : Service} {waiting report} (hservice : serviceOf? id (s, t) = some v) (hshut : v.isOpen = false)
      (howed : v.calls = v.owed report.changes) (hbefore : s.outline.deliveriesOf id = [⟨v.handle :: waiting, report⟩])
      (hafter : t.outline.deliveriesOf id = [])
  /-- The delivery ends, or it is aborted. -/
  | ends {waiting report} (hservice : serviceOf? id (s, t) = none) (hsilent : callsOf (s, t) = [])
      (hbefore : s.outline.deliveriesOf id = [⟨waiting, report⟩]) (hafter : t.outline.deliveriesOf id = [])
      (hwhy : waiting = [] ∨ s.isAborting id = true)

variable {s t u : Session} {id k : RegistrationId} {owner : PollOwner} {gate : Gate} {stage : PollStage} {below : List Frame}
  {signal : Option Signal} {ms more : List (Session × Session)} {handles : List HandleId} {report : Change.Report}

/-! ## Calls and turns -/

/-- A move that records no call has made none. -/
theorem callsOf_same (h : t.calls = s.calls) : callsOf (s, t) = [] := by
  rw [callsOf, h, Nat.sub_self, List.take_zero]

/-- A move that records one call has made this one. -/
theorem callsOf_cons {call : Observer × List Change} (h : t.calls = call :: s.calls) : callsOf (s, t) = [call] := by
  rw [callsOf, h, List.length_cons, Nat.add_sub_cancel_left]
  rfl

/-- One more move gives at most one more turn. -/
theorem servicesOf_concat (id : RegistrationId) (ms : List (Session × Session)) (m : Session × Session) :
    servicesOf id (ms ++ [m]) = servicesOf id ms ++ (serviceOf? id m).toList := by
  rw [servicesOf, List.filterMap_append, List.filterMap_cons, List.filterMap_nil]
  cases serviceOf? id m <;> rfl

/-- Only a poll of the registration gives its handles a turn. -/
theorem serviceOf?_of_polled (h : s.polled? ≠ some id) : serviceOf? id (s, t) = none := by
  unfold serviceOf?
  split
  · rename_i other _ _ _ _ _ _ _ hstack
    refine if_neg ?_
    rintro ⟨rfl, -⟩
    exact h (polled?_of_stack hstack)
  · rfl

/-- It does so only while some handle waits for its turn. -/
theorem serviceOf?_of_stage (hstack : s.stack = .polling id owner gate stage :: below)
    (hstage : ∀ current h waiting report, stage ≠ .delivering current (h :: waiting) report) :
    serviceOf? id (s, t) = none := by
  unfold serviceOf?
  split
  · rename_i heq
    rw [hstack] at heq
    cases heq
    exact absurd rfl (hstage _ _ _ _)
  · rfl

/-- A delivery that is being aborted gives no turn. -/
theorem serviceOf?_of_aborts (h : aborts s.signal = true) : serviceOf? id (s, t) = none := by
  unfold serviceOf?
  split
  · refine if_neg ?_
    rintro ⟨-, hsignal⟩
    rw [h] at hsignal
    cases hsignal
  · rfl

/-- The turn that the delivery in control gives. -/
theorem serviceOf?_of_stack {current : Option HandleId} {h : HandleId} {waiting : List HandleId}
    (hstack : s.stack = .polling id owner gate (.delivering current (h :: waiting) report) :: below)
    (hsignal : aborts s.signal = false) : serviceOf? id (s, t) =
      some { handle := h, isOpen := (s.passGate gate).1, attachment := s.table.handles[h]?, calls := callsOf (s, t) } := by
  unfold serviceOf?
  rw [hstack]
  exact if_pos ⟨rfl, hsignal⟩

/-- A poll whose capture has come back compares it next. -/
theorem comparing?_of_stack (hstack : s.stack = .polling id owner gate .capturing :: below) {captured : Snapshot}
    (hsignal : s.signal = some (.captured (.ok captured))) : s.comparing? id = some captured := by
  rw [comparing?, hstack, hsignal]
  exact if_pos rfl

/-- Only a poll of the registration compares for it. -/
theorem comparing?_of_polled (h : s.polled? ≠ some id) : s.comparing? id = none := by
  unfold comparing?
  split
  · rename_i hstack _
    refine if_neg ?_
    rintro rfl
    exact h (polled?_of_stack hstack)
  · rfl

/-- A poll compares when it has captured, and in no other stage. -/
theorem comparing?_of_stage (hstack : s.stack = .polling id owner gate stage :: below) (hstage : stage ≠ .capturing) :
    s.comparing? k = none := by
  unfold comparing?
  split
  · rename_i heq _
    rw [hstack] at heq
    cases heq
    exact absurd rfl hstage
  · rfl

/-- Without a capture that has succeeded there is nothing to compare. -/
theorem comparing?_of_signal (h : ∀ captured, s.signal ≠ some (.captured (.ok captured))) : s.comparing? id = none := by
  unfold comparing?
  split
  · rename_i hsignal
    exact absurd hsignal (h _)
  · rfl

/-- Where a capture is about to be compared, its poll is on top of the stack and has just been handed it. -/
theorem comparing?_eq {captured : Snapshot} (h : s.comparing? id = some captured) : ∃ owner gate below,
    s.stack = .polling id owner gate .capturing :: below ∧ s.signal = some (.captured (.ok captured)) := by
  unfold comparing? at h
  split at h
  · rename_i hstack hsignal
    obtain ⟨rfl, hcaptured⟩ := Option.ite_none_right_eq_some.mp h
    cases hcaptured
    exact ⟨_, _, _, hstack, hsignal⟩
  · cases h

/-- A delivery is aborted by the signal it finds. -/
theorem isAborting_of_stack {current : Option HandleId} {waiting : List HandleId}
    (hstack : s.stack = .polling id owner gate (.delivering current waiting report) :: below) :
    s.isAborting id = aborts s.signal := by
  rw [isAborting, hstack]
  dsimp only
  rw [beq_self_eq_true, Bool.true_and]

/-- At its turn, a handle is what the table has of it. -/
theorem attachment_of_service {m : Session × Session} {v : Service} (h : serviceOf? id m = some v) :
    v.attachment = m.1.table.handles[v.handle]? := by
  unfold serviceOf? at h
  split at h
  · split at h
    · cases h
      rfl
    · cases h
  · cases h

/-- The calls of a turn are those of its move. -/
theorem calls_of_service {m : Session × Session} {v : Service} (h : serviceOf? id m = some v) : v.calls = callsOf m := by
  unfold serviceOf? at h
  split at h
  · split at h
    · cases h
      rfl
    · cases h
  · cases h

/-- Without a step of a poll nobody is called. -/
theorem Shift.calls {o o' : Outline} (h : Shift o o') : o'.calls = o.calls := by
  cases h <;> rfl

/-! ## One move -/

/-- A move that is no step of a poll of the registration is no step of its delivery. -/
theorem Served.of_polled (hservice : s.polled? ≠ some id)
    (hdeliveries : t.outline.deliveriesOf id = s.outline.deliveriesOf id) : Served id s t :=
  Served.elsewhere (comparing?_of_polled hservice) (serviceOf?_of_polled hservice) (fun h => absurd h hservice) hdeliveries

/-- The step of a poll leaves the deliveries of other registrations alone. -/
theorem PollMove.deliveriesOf_ne (hmove : PollMove s below k owner gate stage signal t)
    (hstack : s.stack = .polling k owner gate stage :: below) (hne : k ≠ id) :
    t.outline.deliveriesOf id = s.outline.deliveriesOf id := by
  have hbefore : s.outline.deliveriesOf id = (s.popped below).outline.deliveriesOf id := by
    rcases outline_of_polling hstack with heq | ⟨-, heq⟩
    · rw [heq, deliveriesOf_push_ne _ _ _ hne]
    · rw [heq]
  rw [hbefore]
  cases hmove with
  | enters _ _ _ _ houtline => rw [houtline, deliveriesOf_push_ne _ _ _ hne]
  | compares _ _ _ _ houtline => rw [houtline, deliveriesOf_push_ne _ _ _ hne]
  | passes _ _ _ _ _ houtline => rw [houtline, deliveriesOf_push_ne _ _ _ hne]
  | calls _ _ _ _ _ _ _ houtline =>
    rw [houtline]
    exact deliveriesOf_push_ne _ _ _ hne
  | ends _ _ _ houtline =>
    rw [outline_endPoll, ← houtline]
    rfl

/-- A step of a poll serves its delivery. -/
theorem PollMove.served (hmove : PollMove s below id owner gate stage s.signal t) (hx : Exclusive s)
    (hstack : s.stack = .polling id owner gate stage :: below) : Served id s t := by
  have hpopped : stage ≠ .entering → (s.popped below).outline.deliveriesOf id = [] := hx.deliveriesOf_popped hstack
  have hsame : ∀ {o : Outline}, t.outline = o → o.calls = s.calls → callsOf (s, t) = [] := by
    rintro o rfl hcalls
    exact callsOf_same hcalls
  generalize hs : s.signal = signal at hmove
  cases hmove with
  | enters _ _ _ _ houtline =>
    refine Served.elsewhere (comparing?_of_stage hstack (fun h => nomatch h))
      (serviceOf?_of_stage hstack fun _ _ _ _ h => nomatch h)
      (fun _ => hsame houtline rfl) ?_
    rw [houtline]
    rcases outline_of_polling hstack with heq | ⟨-, heq⟩
    · rw [heq]
      rfl
    · rw [heq]
      rfl
  | @compares r captured _ hr hchanges _ _ houtline =>
    refine Served.begins (comparing?_of_stack hstack hs) hr (hsame houtline rfl) ?_
    rw [houtline, deliveriesOf_push_delivering, hpopped capturing_ne_entering, begun?, if_pos hchanges]
    rfl
  | @passes _ _ h waiting report _ _ _ hsignal hopen hidle _ _ houtline =>
    -- nothing is owed to a handle that is passed over: it is inactive, or its observer is no callable
    subst hs
    refine Served.serves (serviceOf?_of_stack hstack hsignal) hopen ?_ (hx.deliveriesOf_delivering hstack) ?_
    · rw [hsame houtline rfl, Service.owed]
      split
      · rename_i handle hget
        refine (if_neg ?_).symm
        intro hcan
        rw [Bool.and_eq_true, Bool.and_eq_true] at hcan
        rw [hidle handle hget hcan.1.2] at hcan
        cases hcan.2
      · rfl
    · rw [houtline, deliveriesOf_push_delivering, hpopped delivering_ne_entering]
  | @calls _ h waiting report _ _ _ handle _ hsignal hopen hhandle hactive hcallable _ _ houtline =>
    -- the one call that is recorded is the one that is owed
    subst hs
    refine Served.serves (serviceOf?_of_stack hstack hsignal) hopen ?_ (hx.deliveriesOf_delivering hstack) ?_
    · have hcalls : t.calls = (handle.observer, report.changes) :: s.calls := congrArg Outline.calls houtline
      rw [callsOf_cons hcalls, Service.owed]
      dsimp only
      rw [hhandle]
      refine (if_pos ?_).symm
      rw [hopen, hactive, hcallable]
      rfl
    · have hafter : t.outline.deliveriesOf id =
          ((s.popped below).outline.push (.poll id owner (.delivering (some h) waiting report))).deliveriesOf id := by
        rw [houtline]
        rfl
      rw [hafter, deliveriesOf_push_delivering, hpopped delivering_ne_entering]
  | @ends _ _ outcome u r hr hc _ houtline =>
    have hend : (u.endPoll id owner outcome).outline.deliveriesOf id = (s.popped below).outline.deliveriesOf id := by
      rw [outline_endPoll, ← houtline]
      rfl
    have hcalls : callsOf (s, u.endPoll id owner outcome) = [] :=
      hsame (outline_endPoll _ _ _ _) (congrArg Outline.calls houtline)
    cases hc with
    | @unchanged captured hquiet =>
      refine Served.begins (comparing?_of_stack hstack hs) hr hcalls ?_
      rw [hend, hpopped capturing_ne_entering, begun?, hquiet]
      rfl
    | uncaptured =>
      refine Served.elsewhere (comparing?_of_signal fun _ h => ?_) (serviceOf?_of_stage hstack fun _ _ _ _ h => nomatch h)
        (fun _ => hcalls) ?_
      · rw [hs] at h
        cases h
      rw [hend, outline_of_active hstack capturing_ne_entering]
      rfl
    | @aborted current waiting report f hfatal =>
      have haborts : aborts s.signal = true := by
        rw [hs]
        exact hfatal
      exact Served.ends (serviceOf?_of_aborts haborts) hcalls (hx.deliveriesOf_delivering hstack)
        (hend.trans (hpopped delivering_ne_entering)) (Or.inr ((isAborting_of_stack hstack).trans haborts))
    | served _ =>
      exact Served.ends (serviceOf?_of_stage hstack fun _ _ _ _ h => nomatch h) hcalls (hx.deliveriesOf_delivering hstack)
        (hend.trans (hpopped delivering_ne_entering)) (Or.inl rfl)
    | @shut current h waiting report _ hsignal hgate =>
      -- the gate is closed at the turn of a handle, and the delivery ends there
      subst hs
      refine Served.shuts (serviceOf?_of_stack hstack hsignal) hgate ?_ (hx.deliveriesOf_delivering hstack)
        (hend.trans (hpopped delivering_ne_entering))
      rw [hcalls, Service.owed]
      dsimp only
      rw [hgate]
      split <;> rfl

/-- Every move does one of these things to the delivery for a registration. -/
theorem Move.served (hm : Move s t) (hx : Exclusive s) (id : RegistrationId) : Served id s t := by
  rcases hm.rests_or_polls with ⟨hshift, -, hstuck | hnone⟩ | ⟨k, owner, gate, stage, below, hstack, -, hmove⟩
  · refine Served.elsewhere ?_ ?_ (fun _ => callsOf_same hshift.calls) (hx.deliveriesOf_eq hshift id)
    · unfold comparing?
      split
      · rename_i hstack hsignal
        exact absurd hstuck (hx.step_captured hstack hsignal)
      · rfl
    · unfold serviceOf?
      split
      · rename_i hstack
        exact absurd hstuck (hx.step_delivering hstack)
      · rfl
  · refine Served.of_polled ?_ (hx.deliveriesOf_eq hshift id)
    rw [hnone]
    exact fun h => nomatch h
  · by_cases hk : k = id
    · subst hk
      exact hmove.served hx hstack
    · refine Served.of_polled ?_ (hmove.deliveriesOf_ne hstack hk)
      rw [polled?_of_stack hstack]
      exact fun h => hk (Option.some.inj h)

/-- Calls of observers are made at turns only. -/
theorem Move.calls_at_turn (hm : Move s t) (hx : Exclusive s) : callsOf (s, t) = [] ∨
    ∃ id v changes, serviceOf? id (s, t) = some v ∧ v.calls = callsOf (s, t) ∧ v.calls = v.owed changes := by
  rcases hm.rests_or_polls with ⟨hshift, -, -⟩ | ⟨id, owner, gate, stage, below, hstack, -, hmove⟩
  · exact Or.inl (callsOf_same hshift.calls)
  cases hmove.served hx hstack with
  | elsewhere _ _ hsilent _ => exact Or.inl (hsilent (polled?_of_stack hstack))
  | begins _ _ hsilent _ => exact Or.inl hsilent
  | serves hservice _ howed _ _ => exact Or.inr ⟨id, _, _, hservice, calls_of_service hservice, howed⟩
  | shuts hservice _ howed _ _ => exact Or.inr ⟨id, _, _, hservice, calls_of_service hservice, howed⟩
  | ends _ hsilent _ _ _ => exact Or.inl hsilent

/-! ## The whole delivery -/

/-- What the delivery of a report to some handles comes to in some moves, up to the session `u`. -/
structure FanOut (id : RegistrationId) (handles : List HandleId) (report : Change.Report) (ms : List (Session × Session))
    (u : Session) : Prop where
  /-- The handles get their turns in order, none twice and no other ones. -/
  order : (servicesOf id ms).map (·.handle) <+: handles
  /-- At its turn a handle gets the call that is to be made, with the changes that were found. -/
  owed : ∀ v ∈ servicesOf id ms, v.calls = v.owed report.changes
  /-- After a closed gate nobody gets a turn. -/
  gate : ∀ v ∈ (servicesOf id ms).dropLast, v.isOpen = true
  /-- The poll calls nobody but at the turns. -/
  silent : ∀ m ∈ ms, m.1.polled? = some id → serviceOf? id m = none → callsOf m = []
  /-- As long as the delivery is under way, the handles without a turn wait for it. -/
  under : ∀ d ∈ u.outline.deliveriesOf id, d.report = report ∧ (servicesOf id ms).map (·.handle) ++ d.waiting = handles ∧
    ∀ v ∈ servicesOf id ms, v.isOpen = true
  /-- When it is over, every handle has had its turn, unless the gate was closed or an observer failed fatally. -/
  ended : u.outline.deliveriesOf id = [] → (servicesOf id ms).map (·.handle) = handles ∨
    (∃ v ∈ servicesOf id ms, v.isOpen = false) ∨ ∃ m ∈ ms, m.1.isAborting id = true

/-- A delivery before its first turn. -/
theorem FanOut.start (hservice : serviceOf? id (s, t) = none) (hsilent : callsOf (s, t) = [])
    (h : t.outline.deliveriesOf id = [⟨handles, report⟩] ∨ t.outline.deliveriesOf id = [] ∧ handles = []) :
    FanOut id handles report [(s, t)] t := by
  have hnone : servicesOf id [(s, t)] = [] := List.filterMap_cons_none hservice
  refine ⟨?_, ?_, ?_, ?_, ?_, ?_⟩
  · rw [hnone]
    exact List.nil_prefix
  · rw [hnone]
    exact fun _ h => nomatch h
  · rw [hnone]
    exact fun _ h => nomatch h
  · intro m hm _ _
    rw [List.mem_singleton.mp hm]
    exact hsilent
  · rw [hnone]
    rcases h with h | ⟨h, -⟩
    · rw [h]
      intro d hd
      rw [List.mem_singleton.mp hd]
      exact ⟨rfl, rfl, fun _ hv => nomatch hv⟩
    · rw [h]
      exact fun _ hd => nomatch hd
  · rw [hnone]
    rcases h with h | ⟨-, h⟩
    · rw [h]
      exact fun hd => nomatch hd
    · exact fun _ => Or.inl h.symm

/-- A delivery goes on by one move. -/
theorem FanOut.move (h : FanOut id handles report ms t) (hserved : Served id t u)
    (honly : t.comparing? id = none) : FanOut id handles report (ms ++ [(t, u)]) u := by
  have hsilent : (t.polled? = some id → serviceOf? id (t, u) = none → callsOf (t, u) = []) →
      ∀ m ∈ ms ++ [(t, u)], m.1.polled? = some id → serviceOf? id m = none → callsOf m = [] := by
    intro hlast m hm
    rcases List.mem_append.mp hm with hm | hm
    · exact h.silent m hm
    · rw [List.mem_singleton.mp hm]
      exact hlast
  -- without a turn the turns stay as they are
  have hsame : serviceOf? id (t, u) = none → servicesOf id (ms ++ [(t, u)]) = servicesOf id ms := by
    intro hnone
    rw [servicesOf_concat, hnone]
    exact List.append_nil _
  have hmore : ∀ {v : Service}, serviceOf? id (t, u) = some v →
      servicesOf id (ms ++ [(t, u)]) = servicesOf id ms ++ [v] := by
    intro v hsome
    rw [servicesOf_concat, hsome]
    rfl
  have howed : ∀ {v : Service}, v.calls = v.owed report.changes →
      ∀ v' ∈ servicesOf id ms ++ [v], v'.calls = v'.owed report.changes := by
    intro v hv v' hv'
    rcases List.mem_append.mp hv' with hv' | hv'
    · exact h.owed v' hv'
    · rw [List.mem_singleton.mp hv']
      exact hv
  cases hserved with
  | elsewhere _ hservice hcalls hdeliveries =>
    have hs := hsame hservice
    refine ⟨hs ▸ h.order, hs ▸ h.owed, hs ▸ h.gate, hsilent fun hpolled _ => hcalls hpolled, ?_, ?_⟩
    · rw [hs, hdeliveries]
      exact h.under
    · rw [hs, hdeliveries]
      intro hover
      refine (h.ended hover).imp_right (Or.imp_right ?_)
      rintro ⟨m, hm, habort⟩
      exact ⟨m, List.mem_append_left _ hm, habort⟩
  | begins hcompares _ _ _ =>
    rw [honly] at hcompares
    cases hcompares
  | @serves v waiting report' hservice hopen hcalls hbefore hafter =>
    obtain ⟨rfl, hhandles, hgate⟩ := h.under _ (hbefore ▸ List.mem_singleton_self _)
    have hs := hmore hservice
    have hall : (servicesOf id ms ++ [v]).map (·.handle) ++ waiting = handles := by
      rw [← hhandles, List.map_append, List.append_assoc]
      rfl
    refine ⟨?_, hs ▸ howed hcalls, ?_, hsilent fun _ hnone => ?_, ?_, ?_⟩
    · rw [hs, ← hall]
      exact List.prefix_append _ _
    · rw [hs, List.dropLast_concat]
      exact hgate
    · rw [hservice] at hnone
      cases hnone
    · rw [hs, hafter]
      intro d hd
      rw [List.mem_singleton.mp hd]
      refine ⟨rfl, hall, ?_⟩
      intro v' hv'
      rcases List.mem_append.mp hv' with hv' | hv'
      · exact hgate v' hv'
      · rw [List.mem_singleton.mp hv']
        exact hopen
    · rw [hafter]
      exact fun hover => nomatch hover
  | @shuts v waiting report' hservice hshut hcalls hbefore hafter =>
    obtain ⟨rfl, hhandles, hgate⟩ := h.under _ (hbefore ▸ List.mem_singleton_self _)
    have hs := hmore hservice
    refine ⟨?_, hs ▸ howed hcalls, ?_, hsilent fun _ hnone => ?_, ?_, ?_⟩
    · rw [hs, ← hhandles, List.map_append]
      exact (List.prefix_append_right_inj _).mpr ⟨waiting, rfl⟩
    · rw [hs, List.dropLast_concat]
      exact hgate
    · rw [hservice] at hnone
      cases hnone
    · rw [hafter]
      exact fun _ hd => nomatch hd
    · intro _
      rw [hs]
      exact Or.inr (Or.inl ⟨v, List.mem_append_right _ List.mem_cons_self, hshut⟩)
  | @ends waiting report' hservice hcalls hbefore hafter hwhy =>
    obtain ⟨rfl, hhandles, hgate⟩ := h.under _ (hbefore ▸ List.mem_singleton_self _)
    have hs := hsame hservice
    refine ⟨hs ▸ h.order, hs ▸ h.owed, hs ▸ h.gate, hsilent fun _ _ => hcalls, ?_, ?_⟩
    · rw [hafter]
      exact fun _ hd => nomatch hd
    · intro _
      rw [hs]
      rcases hwhy with rfl | habort
      · left
        rw [← hhandles]
        exact (List.append_nil _).symm
      · exact Or.inr (Or.inr ⟨(t, u), List.mem_append_right _ List.mem_cons_self, habort⟩)

/-- The delivery goes on through any number of moves, as long as no other one begins for its registration. -/
theorem FanOut.moves {m : Session × Session} (h : FanOut id handles report [m] t) (hx : Exclusive t) (hms : Moves t ms u)
    (honly : ∀ m ∈ ms, m.1.comparing? id = none) : FanOut id handles report (m :: ms) u := by
  induction hms with
  | refl => exact h
  | @move ms t' u hms hm ih =>
    have hbefore := ih fun m hmem => honly m (List.mem_append_left _ hmem)
    have hx' : Exclusive t' := hms.keeps (fun h hm => hm.exclusive h) hx
    exact hbefore.move (hm.served hx' id) (honly (t', u) (List.mem_append_right _ List.mem_cons_self))

/-- The handles that are to be served after a comparison: those attached now, if there is anything to deliver. -/
def toServe (r : Registration) (report : Change.Report) : List HandleId :=
  if report.hasChanges then r.handles else []

/-- Only handles that are attached are served. -/
theorem mem_handles_of_toServe {r : Registration} {h : HandleId} (hmem : h ∈ toServe r report) : h ∈ r.handles := by
  unfold toServe at hmem
  split at hmem
  · exact hmem
  · cases hmem

/-- Before a comparison nothing is delivered. -/
theorem Exclusive.deliveriesOf_comparing (hx : Exclusive s) {captured : Snapshot} (hc : s.comparing? id = some captured) :
    s.outline.deliveriesOf id = [] := by
  obtain ⟨owner, gate, below, hstack, -⟩ := comparing?_eq hc
  exact hx.deliveriesOf_capturing hstack

/-- A comparison begins a delivery, or there is nothing to deliver. -/
theorem Move.begins {captured : Snapshot} {r : Registration} (hm : Move s t) (hx : Exclusive s)
    (hc : s.comparing? id = some captured) (hr : s.table.registrations[id]? = some r) : callsOf (s, t) = [] ∧
      t.outline.deliveriesOf id = (begun? r (Snapshot.diff (some r.baseline) captured)).toList := by
  have hnothing := hx.deliveriesOf_comparing hc
  cases hm.served hx id with
  | begins hcompares hr' hsilent hafter =>
    rw [hc] at hcompares
    rw [hr] at hr'
    cases hcompares
    cases hr'
    exact ⟨hsilent, hafter⟩
  | elsewhere hcompares _ _ _ =>
    rw [hc] at hcompares
    cases hcompares
  | serves _ _ _ hbefore _ =>
    rw [hnothing] at hbefore
    cases hbefore
  | shuts _ _ _ hbefore _ =>
    rw [hnothing] at hbefore
    cases hbefore
  | ends _ _ hbefore _ _ =>
    rw [hnothing] at hbefore
    cases hbefore

/-- What is compared is delivered to the handles attached now. -/
theorem Move.compares {captured : Snapshot} {r : Registration} (hm : Move s t) (hx : Exclusive s)
    (hc : s.comparing? id = some captured) (hr : s.table.registrations[id]? = some r) :
    FanOut id (toServe r (Snapshot.diff (some r.baseline) captured)) (Snapshot.diff (some r.baseline) captured) [(s, t)] t := by
  obtain ⟨hsilent, hafter⟩ := hm.begins hx hc hr
  obtain ⟨owner, gate, below, hstack, -⟩ := comparing?_eq hc
  refine FanOut.start (serviceOf?_of_stage hstack fun _ _ _ _ h => nomatch h) hsilent ?_
  rw [hafter, toServe]
  unfold begun?
  split
  · exact Or.inl rfl
  · exact Or.inr ⟨rfl, rfl⟩

/-- The handles of a registration are those that are attached to it. -/
theorem mem_handles_iff {table : Table} (hl : table.Linked) {r : Registration} (hr : table.registrations[id]? = some r)
    (h : HandleId) : h ∈ r.handles ↔
      ∃ handle, table.handles[h]? = some handle ∧ handle.active = true ∧ handle.registration = id := by
  have hlist : table.handlesOf id = r.handles := by rw [Table.handlesOf, hr]
  constructor
  · intro hmem
    exact hl.listed (hlist ▸ hmem)
  · rintro ⟨handle, hget, hactive, rfl⟩
    exact hlist ▸ (hl.active hget hactive).1

/-- When a poll compares its capture with the baseline, the changes go to the handles attached at that moment, in the
order in which they were attached. Until the registration is compared again, each of them gets one turn and no other
handle gets one: it is called with the changes if it is active and the gate is open at its turn, and not at all
otherwise. Without changes nobody is called. -/
theorem fan_out_of_run {w : World} {allowed : Action → Prop} {log : List (RegistrationId × List Change)} (hs : Opens w s)
    (h : Run allowed s log t) {captured : Snapshot} {r : Registration} (hr : t.table.registrations[id]? = some r)
    (hc : t.comparing? id = some captured) {d : Session} (hm : Move t d) (hms : Moves d ms u)
    (honly : ∀ m ∈ ms, m.1.comparing? id = none) :
    r.handles.Pairwise (· < ·) ∧
      (∀ h, h ∈ r.handles ↔ ∃ handle, t.table.handles[h]? = some handle ∧ handle.active = true ∧
        handle.registration = id) ∧
      FanOut id (toServe r (Snapshot.diff (some r.baseline) captured)) (Snapshot.diff (some r.baseline) captured)
        ((t, d) :: ms) u ∧
      ∀ v ∈ servicesOf id ((t, d) :: ms), ∃ attached handle, t.table.handles[v.handle]? = some attached ∧
        v.attachment = some handle ∧ handle.registration = id ∧ handle.observer = attached.observer := by
  have hx : Exclusive t := exclusive_of_run hs h
  have hlinked : t.table.Linked := by
    refine h.edits.linked ?_
    rw [hs.fresh.table]
    exact Table.linked_empty
  have hmem := mem_handles_iff hlinked hr
  have hfan := (hm.compares hx hc hr).moves (hm.exclusive hx) hms honly
  have hordered : r.handles.Pairwise (· < ·) := by
    have hordered := hlinked.ordered id
    rwa [Table.handlesOf, hr] at hordered
  refine ⟨hordered, hmem, hfan, ?_⟩
  intro v hv
  have hserved : v.handle ∈ r.handles :=
    mem_handles_of_toServe (hfan.order.subset (List.mem_map_of_mem hv))
  obtain ⟨attached, hattached, -, hregistration⟩ := (hmem v.handle).mp hserved
  obtain ⟨m, hm', hservice⟩ := List.mem_filterMap.mp hv
  have hedits := ((Moves.single hm).trans hms).edits_of_mem hm'
  obtain ⟨handle, hget, hsame, hobserver⟩ := hedits.remembers v.handle attached hattached
  exact ⟨attached, handle, hattached, (attachment_of_service hservice).trans hget, hsame.trans hregistration, hobserver⟩

/-- A world like the hollow one, in which the first call of one observer cancels another one, attaches a third one,
empties its own list and fails. -/
def unruly : World where
  disk := hollow.disk
  scripts := [("a", [[.cancel "b", .attach ⟨.root, ["w"]⟩ (.named "d" (.text "d")) "d", .clearChanges, .raise]])]

def unrulyTable : Session :=
  (createTable unruly (.text "poll") 1000 4 []).toOption.getD default

/-- Three observers are attached, and a poll is about to find a new file. -/
def crowdedTable : Session :=
  ((((unrulyTable.after (.attach ⟨.root, ["w"]⟩ (.named "a" (.text "a")) "a") 4).after
    (.attach ⟨.root, ["w"]⟩ (.named "b" (.text "b")) "b") 0).after
    (.attach ⟨.root, ["w"]⟩ (.named "c" (.text "c")) "c") 0).after (.put "/w/x" (.file 2)) 0).after (.poll "a" none) 5

/-- The delivery that follows. -/
def crowdedDelivery : Session :=
  crowdedTable.step.getD default

/-- The first observer and the last one are called with the new file, and nobody else is. -/
theorem fan_out_of_run_unruly : ∃ r captured, crowdedTable.table.registrations[0]? = some r ∧
    FanOut 0 (toServe r (Snapshot.diff (some r.baseline) captured)) (Snapshot.diff (some r.baseline) captured)
      ((crowdedTable, crowdedDelivery) :: movesOf 9 crowdedDelivery) (run 9 crowdedDelivery) ∧
    ((servicesOf 0 ((crowdedTable, crowdedDelivery) :: movesOf 9 crowdedDelivery)).map fun v =>
      (v.handle, v.isOpen, v.calls.map (·.2))) =
        [(0, true, [[⟨.added, ⟨.root, ["w", "x"]⟩⟩]]), (1, true, []),
          (2, true, [[⟨.added, ⟨.root, ["w", "x"]⟩⟩]])] := by
  have hmade : createTable unruly (.text "poll") 1000 4 [] = .ok unrulyTable := rfl
  have hopens : Opens unruly unrulyTable := Opens.table hmade
  have hrun : ∃ log, Run (fun _ => True) unrulyTable log crowdedTable := by
    refine Moves.run (((((Moves.refl.acts _ 4 ?_).acts _ 0 ?_).acts _ 0 ?_).acts _ 0 ?_).acts _ 5 ?_)
    all_goals decide +kernel
  obtain ⟨log, hrun⟩ := hrun
  have hregistered : (crowdedTable.table.registrations[0]?).isSome = true := by decide +kernel
  obtain ⟨r, hr⟩ := Option.isSome_iff_exists.mp hregistered
  have hcompares : (crowdedTable.comparing? 0).isSome = true := by decide +kernel
  obtain ⟨captured, hc⟩ := Option.isSome_iff_exists.mp hcompares
  have hsteps : crowdedTable.step.isSome = true := by decide +kernel
  obtain ⟨d, hd⟩ := Option.isSome_iff_exists.mp hsteps
  have hdelivery : crowdedDelivery = d := by rw [crowdedDelivery, hd, Option.getD_some]
  have honly : (movesOf 9 crowdedDelivery).all (fun m => (m.1.comparing? 0).isNone) = true := by decide +kernel
  have honly : ∀ m ∈ movesOf 9 crowdedDelivery, m.1.comparing? 0 = none :=
    fun m hm => Option.isNone_iff_eq_none.mp (List.all_eq_true.mp honly m hm)
  have hfan := fan_out_of_run hopens hrun hr hc (Move.step (hdelivery ▸ hd)) (moves_run 9 crowdedDelivery) honly
  exact ⟨r, captured, hr, hfan.2.2.1, by decide +kernel⟩

end DirWatch.Session
