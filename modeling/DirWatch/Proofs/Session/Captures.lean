import DirWatch.Proofs.Session.FanOut

/-!
# The captures of polls

A capture stands directly above the poll that waits for it, on the stack or among what is parked, whatever is put on top
of it meanwhile. So a property that each answer keeps holds of the capture of a poll as long as it goes on
(`Carries.move`), and of what the poll gets in the end (`Carries.compared`).
-/

namespace DirWatch.Session

/-- A capture that stands above a poll that waits for it has the property. -/
def Bears (P : Capture → Prop) (id : RegistrationId) : Frame → Frame → Prop
  | .capturing c _, .polling other _ _ .capturing => other = id → P c
  | _, _ => True

/-- Every capture that a poll of this registration waits for has the property. -/
structure Carries (P : Capture → Prop) (id : RegistrationId) (s : Session) : Prop where
  stack : s.stack.IsChain (Bears P id)
  /-- What is parked ends with the poll of a job. -/
  parked : ∀ fs ∈ s.parked, fs.IsChain (Bears P id) ∧ ∃ first f, fs = first ++ [f] ∧ (jobOf? f).isSome = true

def IsCapture : Frame → Bool
  | .capturing .. => true
  | _ => false

variable {P : Capture → Prop} {cause : Option Action} {s t u : Session} {signal : Option Signal} {table : Table}
    {state : WatcherState}
  {f frame : Frame} {fs below : List Frame} {id : RegistrationId}

/-- Only captures are asked for the property. -/
theorem bears_of_other (h : IsCapture f = false) (lower : Frame) : Bears P id f lower := by
  cases f with
  | capturing _ _ => cases h
  | _ => trivial

/-- A passive frame is no capture. -/
theorem Passive.not_capture (h : Passive f) : IsCapture f = false := by
  cases f with
  | capturing _ _ => exact h.elim
  | _ => rfl

/-- The frame of a job is a poll. -/
theorem jobOf?_not_capture (h : (jobOf? f).isSome = true) : IsCapture f = false := by
  cases f with
  | capturing _ _ => cases h
  | _ => rfl

/-! ## Frames that come and go -/

/-- A capture that comes on top must have the property if a poll below waits for it. -/
theorem Carries.push (h : Carries P id s) (hf : ∀ lower ∈ s.stack.head?, Bears P id f lower) : Carries P id (s.push f) :=
  ⟨List.isChain_cons.mpr ⟨hf, h.stack⟩, h.parked⟩

/-- Any other frame may come on top. -/
theorem Carries.pushOther (h : Carries P id s) (hf : IsCapture f = false) : Carries P id (s.push f) :=
  h.push fun lower _ => bears_of_other hf lower

/-- So may several. -/
theorem Carries.pushAll (h : Carries P id s) (hfs : ∀ f ∈ fs, IsCapture f = false) :
    Carries P id { s with stack := fs ++ s.stack } := by
  induction fs with
  | nil => exact h
  | cons f fs ih =>
    have hrest := ih fun g hg => hfs g (List.mem_cons_of_mem _ hg)
    exact hrest.pushOther (hfs f List.mem_cons_self)

/-- A part of a step changes the captures only by the frames that it puts on the stack. -/
theorem Carries.leads (h : Carries P id { s with stack := fs ++ s.stack }) (hl : Leads s t table state fs) : Carries P id t :=
  ⟨hl.stack ▸ h.stack, hl.parked ▸ h.parked⟩

/-- A capture may begin that no poll waits for. -/
theorem Carries.pushAside (h : Carries P id s) (hf : IsCapture f = false) (hnot : ∀ c ready, Bears P id (.capturing c ready) f)
    (c : Capture) (ready : Bool) : Carries P id { s with stack := [.capturing c ready, f] ++ s.stack } := by
  refine (h.pushOther hf).push ?_
  rintro lower ⟨⟩
  exact hnot c ready

/-- The frame on top may go. -/
theorem Carries.popped (h : Carries P id s) (hstack : s.stack = frame :: below) : Carries P id (s.popped below) := by
  have hchain := h.stack
  rw [hstack, List.isChain_cons] at hchain
  exact ⟨hchain.2, h.parked⟩

/-- Frames that are parked stay above one another. -/
theorem Carries.park (h : Carries P id s) (ht : s.park = some t) : Carries P id t := by
  obtain ⟨above, below, hstack, hlast, rfl⟩ := park_eq ht
  have hchain := h.stack
  rw [hstack] at hchain
  refine ⟨hchain.right_of_append, fun fs hmem => ?_⟩
  rcases List.mem_append.mp hmem with hmem | hmem
  · exact h.parked fs hmem
  · rw [List.mem_singleton.mp hmem]
    exact ⟨hchain.left_of_append, hlast⟩

/-- They come back on a frame that waits for no capture of theirs. -/
theorem Carries.unpark? (h : Carries P id s) (ht : s.unpark? = some t) : Carries P id t := by
  obtain ⟨above, rest, hparked, rfl⟩ := unpark?_eq ht
  obtain ⟨hchain, first, f, hlast, hjob⟩ := h.parked above (by rw [hparked]; exact List.mem_cons_self)
  refine ⟨hchain.append h.stack ?_, fun fs hmem => h.parked fs (by rw [hparked]; exact List.mem_cons_of_mem _ hmem)⟩
  intro g hg lower _
  rw [hlast, List.getLast?_concat] at hg
  cases hg
  exact bears_of_other (jobOf?_not_capture hjob) lower

/-! ## Moves -/

/-- No action does anything to a capture that a poll waits for. -/
theorem Carries.effect (h : Carries P id s) (he : Effect cause s t) : Carries P id t := by
  cases he with
  | quiet hl hfs => exact (h.pushAll fun f hf => (hfs f hf).not_capture).leads hl
  | starts hl _ => exact Carries.leads h hl
  | cancels _ hl => exact Carries.leads h hl
  | joins _ hl _ => exact Carries.leads h hl
  | revokes _ hl => exact Carries.leads h hl
  | attaches hl _ => exact Carries.leads (h.pushAside (f := .attaching _ _ _ _) rfl (fun _ _ => trivial) _ _) hl
  | reports hl => exact Carries.leads (h.pushAside (f := .reporting) rfl (fun _ _ => trivial) _ _) hl
  | clears hl => exact Carries.leads h hl
  | polls hl => exact Carries.leads (h.pushOther rfl) hl
  | closes hl _ => exact Carries.leads (h.pushOther rfl) hl
  | closed hl => exact Carries.leads h hl
  | closedUncleared hl _ => exact Carries.leads h hl
  | unparks hl ht =>
    have hback := Carries.leads (h.pushOther (f := .releasing) rfl) hl
    exact hback.unpark? ht
  | rewrites _ hu _ =>
    have hback := Carries.leads h hu
    exact ⟨hback.stack, hback.parked⟩
  | disables _ hu =>
    have hback := Carries.leads h hu
    exact ⟨hback.stack, hback.parked⟩

/-- A frame that is neither a capture nor a poll about to capture does nothing to the captures of polls. -/
theorem Carries.turn (h : Carries P id s) (hturn : Turn cause s frame signal t) (hcapture : IsCapture frame = false)
    (hpoll : ∀ other owner gate, frame ≠ .polling other owner gate .entering) : Carries P id t := by
  cases hturn with
  | acts _ hl hfs he => exact (Carries.leads (h.pushAll fun f hf => (hfs f hf).not_capture) hl).effect he
  | startsJob _ hl _ => exact Carries.leads ((h.pushOther hcapture).pushOther rfl) hl
  | stays hl => exact Carries.leads (h.pushOther rfl) hl
  | unparks hl ht => exact (Carries.leads (h.pushOther rfl) hl).unpark? ht
  | clears hl => exact Carries.leads h hl
  | uncleared hl _ => exact Carries.leads h hl
  | parks hl ht => exact (Carries.leads (h.pushOther rfl) hl).park ht
  | asks _ _ _ => cases hcapture
  | waits _ => cases hcapture
  | hands _ => cases hcapture
  | attaches he _ => exact h.effect he
  | registers _ hl _ => exact Carries.leads h hl
  | revokes _ hl => exact Carries.leads h hl
  | enters _ _ _ => exact absurd rfl (hpoll _ _ _)
  | compares _ hl => exact Carries.leads (h.pushOther rfl) hl
  | passes hl => exact Carries.leads (h.pushOther rfl) hl
  | calls _ _ hl =>
    have hback := Carries.leads (h.pushOther rfl) hl
    exact ⟨(hback.pushOther (f := .observing _ _ _ _) rfl).stack, hback.parked⟩
  | ends _ _ hu => exact Carries.leads (Carries.leads h hu) (endPoll_leads _ _ _ _)

/-- A capture goes on with an answer, or other things happen first, or it is handed over. -/
theorem Carries.capture (h : Carries P id s) {c : Capture} {ready : Bool} (hstack : s.stack = .capturing c ready :: below)
    (hasks : ∀ {call : Call} {resume a}, P c → c.next = .ask call resume → s.ask call ready = .answered a →
      P (resume a).1) :
    Carries P id ((s.popped below).stepCapture c ready) := by
  have hpopped := h.popped hstack
  have htop : ∀ lower ∈ below.head?, Bears P id (.capturing c ready) lower := by
    have hchain := h.stack
    rw [hstack, List.isChain_cons] at hchain
    exact hchain.1
  have hbears : ∀ {c' ready'}, (P c → P c') → ∀ lower ∈ below.head?, Bears P id (.capturing c' ready') lower := by
    intro c' ready' hkeeps lower hlower
    have hc := htop lower hlower
    unfold Bears at hc ⊢
    split
    · rename_i heq
      cases heq
      exact fun hid => hkeeps (hc hid)
    · trivial
  unfold stepCapture
  split
  · exact ⟨hpopped.stack, hpopped.parked⟩
  · rename_i call resume hnext
    split
    · rename_i a hask
      have hnotices : Carries P id ((s.popped below).notices (resume a).2) :=
        Carries.leads hpopped (Calm.notices (s.popped below) (resume a).2)
      refine hnotices.push ?_
      rw [(Calm.notices (s.popped below) (resume a).2).stack]
      exact hbears fun hc => hasks hc hnext (ask_popped hask)
    · rename_i u steps hask
      obtain ⟨-, -, rfl⟩ := ask_preceded hask
      have hfaults : Carries P id ((s.popped below).setFault (s.disk.absoluteText call.path) call.kind none) :=
        ⟨hpopped.stack, hpopped.parked⟩
      exact (hfaults.push (hbears fun hc => hc)).pushOther rfl

/-- What holds of a capture when it begins and with every answer it gets holds of the captures that the polls of a
registration wait for. -/
theorem Carries.move (h : Carries P id s) (hm : Move s t)
    (hbegins : ∀ {r : Registration} {time : Int}, s.table.registrations[id]? = some r →
      P { root := r.root, patterns := s.patterns, capturedAt := time })
    (hasks : ∀ {c : Capture} {call : Call} {resume ready a}, P c → c.next = .ask call resume →
      s.ask call ready = .answered a →
      P (resume a).1) : Carries P id t := by
  cases hm with
  | act action _ =>
    have hquiet : Carries P id { s with signal := none } := ⟨h.stack, h.parked⟩
    exact hquiet.effect (perform_effect _ action)
  | step ht =>
    obtain ⟨frame, below, hstack, hturn⟩ := step_turn ht
    by_cases hcapture : IsCapture frame = true
    · cases frame with
      | capturing c ready =>
        have hstep : s.step = some ((s.popped below).stepCapture c ready) := by
          unfold step
          rw [hstack]
          rfl
        rw [hstep] at ht
        cases ht
        exact h.capture hstack hasks
      | _ => cases hcapture
    · rw [Bool.not_eq_true] at hcapture
      -- only a poll at its entry begins a capture and waits for it
      by_cases hpoll : ∃ other owner gate, frame = .polling other owner gate .entering
      · obtain ⟨other, owner, gate, rfl⟩ := hpoll
        have hmove := step_move hstack ht
        have hpopped := h.popped hstack
        cases hturn with
        | enters hr hfree hl =>
          generalize hstage : PollStage.entering = stage at hmove
          generalize s.signal = signal at hmove
          cases hmove with
          | enters hr' _ _ hback _ =>
            refine Carries.leads ((hpopped.pushOther (f := .polling other owner gate .capturing) rfl).push ?_) hl
            rintro lower ⟨⟩ rfl
            rw [hl.stack] at hback
            obtain ⟨hfirst, -⟩ := List.cons.inj hback
            rw [(Frame.capturing.inj hfirst).1]
            exact hbegins hr'
          | ends _ hc _ _ =>
            subst hstage
            cases hc
          | _ => cases hstage
        | acts hpassive _ _ _ => exact hpassive.elim
        | startsJob _ _ hpassive =>
          rcases hpassive with hpassive | ⟨_, heq⟩
          · exact hpassive.elim
          · cases heq
        | ends _ ho _ => exact absurd rfl ho.stage
      · exact (h.popped hstack).turn hturn hcapture fun other owner gate heq => hpoll ⟨other, owner, gate, heq⟩

/-- What a poll gets to compare is the outcome of a capture with the property. -/
theorem Carries.compared (h : Carries P id s) (hm : Move s t) {captured : Snapshot} (hc : t.comparing? id = some captured) :
    ∃ c, P c ∧ c.next = .stop (.ok captured) := by
  obtain ⟨owner, gate, below, hstack, hsignal⟩ := comparing?_eq hc
  cases hm with
  | act action _ => cases (perform_effect { s with signal := none } action).captured hsignal
  | step ht =>
    obtain ⟨frame, below', hstack', hturn⟩ := step_turn ht
    obtain ⟨c, ready, outcome, rfl, hnext, hr, rfl⟩ := hturn.captured rfl hsignal
    have hchain := h.stack
    rw [hstack', List.isChain_cons] at hchain
    have hbelow : below' = .polling id owner gate .capturing :: below := hstack
    have hP : P c := hchain.1 (.polling id owner gate .capturing) (by rw [hbelow]; rfl) rfl
    cases outcome with
    | error e => cases hr
    | ok snapshot =>
      cases hr
      exact ⟨c, hP, hnext⟩

end DirWatch.Session
