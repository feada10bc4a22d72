import DirWatch.Proofs.Session.Frames
import DirWatch.Proofs.Session.Registrations

/-!
# No delivery after a close

A delivery begins with an active handle, and a close leaves none: the table is cleared, and whatever attaches afterwards is
taken off again. `Guarded` says what keeps this true while the close is still under way, and `no_call_after_close` that no
observer is called once it has returned, however the session goes on.
-/

namespace DirWatch

/-- Whether an action is one of those who use a watcher and leave its table and its scheduler to it. They cannot make a
stop or the clearing of the table fail. -/
def Action.isOfUser : Action → Bool
  | .attach .. | .stopScheduler | .disable .stop _ | .disable .clear _ => false
  | _ => true

namespace Session

open Table (Linked Idle)

/-- The actions of those who use a watcher. They do not attach to its table behind its back, and they cannot make the table
fail to clear. -/
def OfWatcher : Action → Prop
  | .attach .. => False
  | .disable .clear _ => False
  | _ => True

/-- The first close has returned: the watcher is closed, and no call of close is about to clear the table. -/
def CloseReturned (s : Session) : Prop :=
  s.watcher.state = .closed ∧ .stopping .closing ∉ s.frames

/-- A frame that attaches for itself and not for a watcher. -/
def AttachesDirectly : Frame → Prop
  | .attaching _ _ _ .caller => True
  | _ => False

/-- What keeps a closed watcher from calling an observer. -/
structure Guarded (s : Session) : Prop where
  linked : s.table.Linked
  /-- The table can be cleared. -/
  clear : s.disabled.lookup .clear = none
  /-- Every attachment under way is made for the watcher. -/
  attaching : ∀ f ∈ s.frames, ¬AttachesDirectly f
  /-- A closed watcher has no active handle, or is about to clear its table. -/
  closed : s.watcher.state = .closed → .stopping .closing ∈ s.frames ∨ s.table.Idle

variable {action : Action} {cause : Option Action} {s t u : Session} {signal : Option Signal}
    {log more : List (RegistrationId × List Change)}

/-- Whoever leaves the table and the scheduler to a watcher does not attach behind its back. -/
theorem ofWatcher_of_isOfUser (h : action.isOfUser = true) : OfWatcher action := by
  cases action with
  | attach => cases h
  | disable operation times =>
    cases operation with
    | clear => cases h
    | _ => trivial
  | _ => trivial

/-- A run of the users of a watcher is one of the watcher. -/
theorem Run.ofWatcher (h : Run (fun action => action.isOfUser = true) s log t) : Run OfWatcher s log t := by
  induction h with
  | refl => exact Run.refl
  | act _ hrest ha ih => exact ih.act hrest (ofWatcher_of_isOfUser ha)
  | step _ ht ha ih => exact ih.step ht fun action hnext => ofWatcher_of_isOfUser (ha action hnext)

/-- A passive frame attaches nothing. -/
theorem passive_not_direct {f : Frame} (h : Passive f) : ¬AttachesDirectly f := by
  cases f <;> simp_all [Passive, AttachesDirectly]

theorem passive_not_closing {f : Frame} (h : Passive f) : f ≠ .stopping .closing := by
  rintro rfl
  cases h

/-- A part of a step leads to a guarded session if the table is linked there, nothing is attached directly, and a closed
watcher is idle or about to clear. -/
theorem Leads.guarded {table : Table} {state : WatcherState} {fs : List Frame} (h : Leads s t table state fs)
    (hlinked : table.Linked) (hclear : s.disabled.lookup .clear = none) (hattaching : ∀ f ∈ s.frames, ¬AttachesDirectly f)
    (hfs : ∀ f ∈ fs, ¬AttachesDirectly f)
    (hclosed : state = .closed → .stopping .closing ∈ fs ++ s.frames ∨ table.Idle) : Guarded t where
  linked := h.table ▸ hlinked
  clear := h.clear hclear
  attaching := by
    intro f hf
    rw [h.frames] at hf
    exact (List.mem_append.mp hf).elim (hfs f) (hattaching f)
  closed := by
    intro hstate
    rw [h.frames, h.table]
    exact hclosed (h.state.symm.trans hstate)

/-- A part of a step keeps the guard if its table is linked, no new frame attaches directly, and a watcher that it
closes is about to clear its table. -/
theorem Guarded.leads {table : Table} {state : WatcherState} {fs : List Frame} (hg : Guarded s)
    (h : Leads s t table state fs) (hlinked : table.Linked) (hfs : ∀ f ∈ fs, ¬AttachesDirectly f)
    (hclosed : state = .closed → .stopping .closing ∈ fs ++ s.frames ∨ table.Idle) : Guarded t :=
  h.guarded hlinked hg.clear hg.attaching hfs hclosed

/-- A part of a step that leaves the table and the state alone. -/
theorem Guarded.quiet {fs : List Frame} (hg : Guarded s) (h : Leads s t s.table s.watcher.state fs)
    (hfs : ∀ f ∈ fs, ¬AttachesDirectly f) : Guarded t :=
  hg.leads h hg.linked hfs fun hstate => (hg.closed hstate).imp_left (List.mem_append_right fs)

/-- The order of the frames does not matter. -/
theorem Guarded.moved (hg : Guarded s) (hframes : t.frames.Perm s.frames) (htable : t.table = s.table)
    (hstate : t.watcher.state = s.watcher.state) (hdisabled : t.disabled = s.disabled) : Guarded t where
  linked := htable ▸ hg.linked
  clear := hdisabled ▸ hg.clear
  attaching := fun f hf => hg.attaching f (hframes.mem_iff.mp hf)
  closed := by
    intro hclosed
    rw [htable, hframes.mem_iff]
    exact hg.closed (hstate ▸ hclosed)

/-- Frames that come back are guarded already. -/
theorem Guarded.unpark? (hg : Guarded s) (h : s.unpark? = some t) : Guarded t := by
  have hframes := unpark?_frames h
  obtain ⟨above, rest, -, rfl⟩ := unpark?_eq h
  exact hg.moved hframes rfl rfl rfl

theorem Guarded.park (hg : Guarded s) (h : s.park = some t) : Guarded t := by
  have hframes := park_frames h
  obtain ⟨above, below, -, -, rfl⟩ := park_eq h
  exact hg.moved hframes rfl rfl rfl

/-- A table on which only handles are cancelled, or a handle joins and is taken off, is as idle as before. -/
theorem Guarded.idle {table : Table} {state : WatcherState} (hg : Guarded s) (h : Leads s t table state [])
    (hlinked : table.Linked) (hstate : state = s.watcher.state) (hidle : s.table.Idle → table.Idle) : Guarded t :=
  hg.leads h hlinked (fun _ hf => nomatch hf) fun hclosed => (hg.closed (hstate ▸ hclosed)).imp_right hidle

/-- Cancelling activates nothing. -/
theorem idle_cancelEach {table : Table} (hlinked : table.Linked) (hidle : table.Idle) (hs : List HandleId) :
    (cancelEach table hs).Idle := by
  unfold cancelEach
  induction hs generalizing table with
  | nil => exact hidle
  | cons h hs ih => exact ih (hlinked.cancel h) (hlinked.idle_cancel hidle h)

/-- No effect of an action of a watcher breaks the guard. -/
theorem Guarded.effect (hg : Guarded s) (he : Effect cause s t) (hcause : ∀ action, cause = some action → OfWatcher action) :
    Guarded t := by
  have hdirect : ¬Direct cause := by
    rintro ⟨root, observer, label, heq⟩
    exact hcause _ heq
  have hlinked := he.edits.linked hg.linked
  cases he with
  | quiet h hfs => exact hg.quiet h fun f hf => passive_not_direct (hfs f hf)
  | starts h _ => exact hg.leads h hg.linked (fun _ hf => nomatch hf) (fun hstate => nomatch hstate)
  | cancels hs h =>
    rw [h.table] at hlinked
    exact hg.idle h hlinked rfl fun hidle => idle_cancelEach hg.linked hidle hs
  | joins hid h hopen =>
    rw [h.table] at hlinked
    have hrunning := hopen.resolve_right hdirect
    refine hg.leads h hlinked (fun _ hf => nomatch hf) fun hstate => ?_
    rw [hrunning] at hstate
    cases hstate
  | revokes hid h =>
    rw [h.table] at hlinked
    refine hg.idle h hlinked rfl fun hidle => ?_
    exact Linked.idle_revoke hidle ((Table.Edit.join hid _).linked hg.linked)
  | attaches h hopen =>
    refine hg.quiet h ?_
    rw [hopen.resolve_right hdirect]
    exact List.forall_mem_cons.mpr ⟨fun hc => hc, List.forall_mem_singleton.mpr fun hc => hc⟩
  | reports h => exact hg.quiet h (List.forall_mem_cons.mpr ⟨fun hc => hc, List.forall_mem_singleton.mpr fun hc => hc⟩)
  | clears h =>
    rw [h.table] at hlinked
    exact hg.leads h hlinked (fun _ hf => nomatch hf) fun _ => Or.inr fun _ _ hget => hg.linked.inactive_clear hget
  | polls h => exact hg.quiet h (List.forall_mem_singleton.mpr fun hc => hc)
  | closes h _ =>
    have hnot : ∀ f ∈ [Frame.stopping .closing], ¬AttachesDirectly f := List.forall_mem_singleton.mpr fun hc => hc
    exact hg.leads h hg.linked hnot fun _ => Or.inl (List.mem_append_left _ List.mem_cons_self)
  | closed h =>
    rw [h.table] at hlinked
    exact hg.leads h hlinked (fun _ hf => nomatch hf) fun _ => Or.inr fun _ _ hget => hg.linked.inactive_clear hget
  | closedUncleared h hbroken => exact absurd hg.clear hbroken
  | unparks h ht => exact (hg.quiet h (List.forall_mem_singleton.mpr fun hc => hc)).unpark? ht
  | rewrites _ hu _ => exact (hg.quiet hu (fun _ hf => nomatch hf)).moved (List.Perm.refl _) rfl rfl rfl
  | @disables u operation times heq hu =>
    have hgu := hg.quiet hu (fun _ hf => nomatch hf)
    refine ⟨hgu.linked, ?_, hgu.attaching, hgu.closed⟩
    have hne : Operation.clear ≠ operation := by
      rintro rfl
      exact hcause _ heq
    change ((operation, times) :: u.disabled.filter (·.1 != operation)).lookup .clear = none
    rw [List.lookup_cons, beq_eq_false_iff_ne.mpr hne]
    exact (lookup_filter_ne hne _).trans hgu.clear

/-! ## Steps keep the guard -/

/-- The top frame can go, unless it is to clear the table. -/
theorem Guarded.popped {frame : Frame} {below : List Frame} (hg : Guarded s) (hstack : s.stack = frame :: below)
    (hne : frame ≠ .stopping .closing) : Guarded (s.popped below) where
  linked := hg.linked
  clear := hg.clear
  attaching := fun f hf => hg.attaching f (mem_frames_of_popped hstack hf)
  closed := by
    intro hclosed
    refine (hg.closed hclosed).imp_left fun hmem => ?_
    rw [frames_popped hstack] at hmem
    exact (List.mem_cons.mp hmem).resolve_left (Ne.symm hne)

/-- The frame on top stays where it is, below some others. -/
theorem Guarded.back {frame : Frame} {below : List Frame} (hg : Guarded s) (hstack : s.stack = frame :: below)
    (fs : List Frame) (h : Leads (s.popped below) t s.table s.watcher.state (fs ++ [frame]))
    (hfs : ∀ f ∈ fs, ¬AttachesDirectly f) :
    Guarded t := by
  have hframes : fs ++ [frame] ++ (s.popped below).frames = fs ++ s.frames := by
    rw [frames_popped hstack, List.append_assoc]
    rfl
  have hattaching : ∀ f ∈ (s.popped below).frames, ¬AttachesDirectly f := fun f hf =>
    hg.attaching f (mem_frames_of_popped hstack hf)
  refine h.guarded hg.linked hg.clear hattaching ?_ ?_
  · intro f hf
    refine (List.mem_append.mp hf).elim (hfs f) fun hf => hg.attaching f ?_
    rw [List.mem_singleton.mp hf]
    exact top_mem_frames hstack
  · intro hclosed
    rw [hframes]
    exact (hg.closed hclosed).imp_left (List.mem_append_right fs)

theorem idle_endTable {table : Table} (hidle : table.Idle) (id : RegistrationId) (outcome : Except Failure Change.Report) :
    (endTable table id outcome).Idle := by
  cases outcome <;> exact hidle

/-- No turn of a session breaks the guard. -/
theorem Guarded.turn {frame : Frame} {below : List Frame} (hg : Guarded s) (hstack : s.stack = frame :: below)
    (hturn : Turn cause (s.popped below) frame signal t) (hcause : ∀ action, cause = some action → OfWatcher action) :
    Guarded t := by
  have hlinked := hturn.edits.linked hg.linked
  have hnone : ∀ f ∈ ([] : List Frame), ¬AttachesDirectly f := List.forall_mem_nil _
  cases hturn with
  | acts hframe h hfs he =>
    have hpopped := hg.popped hstack (passive_not_closing hframe)
    exact (hpopped.quiet h fun f hf => passive_not_direct (hfs f hf)).effect he hcause
  | startsJob _ h _ => exact hg.back hstack [_] h (List.forall_mem_singleton.mpr fun hc => hc)
  | stays h => exact hg.back hstack [] h hnone
  | unparks h ht => exact (hg.back hstack [] h hnone).unpark? ht
  | clears h =>
    -- the close that waited clears the table, and from then on it is idle
    rw [h.table] at hlinked
    have hattaching : ∀ f ∈ (s.popped below).frames, ¬AttachesDirectly f := fun f hf =>
      hg.attaching f (mem_frames_of_popped hstack hf)
    exact h.guarded hlinked hg.clear hattaching hnone fun _ => Or.inr fun _ _ hget => hg.linked.inactive_clear hget
  | uncleared _ hbroken => exact absurd hg.clear hbroken
  | parks hu ht =>
    have hpopped := hg.popped hstack (fun hc => nomatch hc)
    exact (hpopped.quiet hu (List.forall_mem_singleton.mpr fun hc => hc)).park ht
  | asks _ _ h => exact (hg.popped hstack (fun hc => nomatch hc)).quiet h (List.forall_mem_singleton.mpr fun hc => hc)
  | waits h =>
    exact (hg.popped hstack (fun hc => nomatch hc)).quiet h
      (List.forall_mem_cons.mpr ⟨fun hc => hc, List.forall_mem_singleton.mpr fun hc => hc⟩)
  | hands _ => exact (hg.popped hstack (fun hc => nomatch hc)).moved (List.Perm.refl _) rfl rfl rfl
  | @attaches root observer label purpose signal t cause' he hpurpose =>
    have hwatch : purpose ≠ .caller := by
      rintro rfl
      exact hg.attaching (.attaching root observer label .caller) (top_mem_frames hstack) trivial
    refine (hg.popped hstack (fun hc => nomatch hc)).effect he ?_
    rw [hpurpose.resolve_right fun hcaller => hwatch hcaller.1]
    exact fun _ hc => nomatch hc
  | @registers root observer label purpose baseline t hfree h hopen =>
    -- only a running watcher registers a root
    rw [h.table] at hlinked
    have hwatch : purpose ≠ .caller := by
      rintro rfl
      exact hg.attaching (.attaching root observer label .caller) (top_mem_frames hstack) trivial
    refine (hg.popped hstack (fun hc => nomatch hc)).leads h hlinked hnone fun hclosed => ?_
    rw [hopen.resolve_left hwatch] at hclosed
    cases hclosed
  | @revokes root observer label purpose baseline t hfree h =>
    -- taken back at once, the new handle leaves an idle table idle
    rw [h.table] at hlinked
    refine (hg.popped hstack (fun hc => nomatch hc)).idle h hlinked rfl fun hidle => ?_
    have hregistered : (s.table.register root baseline).1.Idle := hidle
    exact Linked.idle_revoke hregistered ((Table.Edit.register hfree baseline observer).linked hg.linked)
  | enters _ _ h =>
    rw [h.table] at hlinked
    refine (hg.popped hstack (fun hc => nomatch hc)).leads h hlinked
      (List.forall_mem_cons.mpr ⟨fun hc => hc, List.forall_mem_singleton.mpr fun hc => hc⟩) ?_
    intro hclosed
    refine ((hg.popped hstack (fun hc => nomatch hc)).closed hclosed).imp_left ?_
    exact List.mem_append_right _
  | compares _ h => exact (hg.popped hstack (fun hc => nomatch hc)).quiet h (List.forall_mem_singleton.mpr fun hc => hc)
  | passes h => exact (hg.popped hstack (fun hc => nomatch hc)).quiet h (List.forall_mem_singleton.mpr fun hc => hc)
  | calls _ _ hu =>
    have hgu := (hg.popped hstack (fun hc => nomatch hc)).quiet hu (List.forall_mem_singleton.mpr fun hc => hc)
    refine ⟨hgu.linked, hgu.clear, List.forall_mem_cons.mpr ⟨fun hc => hc, hgu.attaching⟩, fun hclosed => ?_⟩
    exact (hgu.closed hclosed).imp_left (List.mem_cons_of_mem _)
  | @ends id owner _ _ _ _ outcome u _ _ hu =>
    have hgu := (hg.popped hstack (fun hc => nomatch hc)).quiet hu hnone
    have h := endPoll_leads u id owner outcome
    rw [h.table] at hlinked
    exact hgu.idle h hlinked rfl fun hidle => idle_endTable hidle id outcome

/-- Every session of a watcher that can be reached is guarded. -/
theorem guarded_of_run {w : World} (hs : Opens w s) (h : Run OfWatcher s log t) : Guarded t := by
  have hfresh := hs.fresh
  induction h with
  | refl =>
    refine ⟨hs.linked, hfresh.clear, ?_, fun hclosed => absurd hclosed hfresh.open_⟩
    intro f hf
    rw [frames, hfresh.stack, hfresh.parked] at hf
    cases hf
  | @act log t action _ _ ha ih =>
    have hquiet : Guarded { t with signal := none } := ih.moved (List.Perm.refl _) rfl rfl rfl
    refine hquiet.effect (perform_effect _ action) ?_
    rintro _ ⟨⟩
    exact ha
  | step _ hstep ha ih =>
    obtain ⟨frame, below, hstack, hturn⟩ := step_turn hstep
    exact ih.turn hstack hturn ha

/-! ## After the close -/

/-- A part of a step that leaves a closed watcher closed. -/
theorem CloseReturned.leads {table : Table} {state : WatcherState} {fs : List Frame} (hc : CloseReturned s)
    (h : Leads s t table state fs) (hstate : state = .closed) (hfs : .stopping .closing ∉ fs) :
    CloseReturned t ∧ t.calls = s.calls := by
  refine ⟨⟨h.state.trans hstate, ?_⟩, h.calls⟩
  rw [h.frames]
  intro hmem
  exact (List.mem_append.mp hmem).elim hfs hc.2

/-- What counts are the frames, wherever they stand, and the state. -/
theorem CloseReturned.moved (hc : CloseReturned s) (hframes : t.frames.Perm s.frames)
    (hstate : t.watcher.state = s.watcher.state) : CloseReturned t :=
  ⟨hstate.trans hc.1, fun hmem => hc.2 (hframes.mem_iff.mp hmem)⟩

/-- A call that is taken up again was made before. -/
theorem CloseReturned.unpark? (hc : CloseReturned s) (h : s.unpark? = some t) : CloseReturned t ∧ t.calls = s.calls := by
  have hframes := unpark?_frames h
  obtain ⟨above, rest, -, rfl⟩ := unpark?_eq h
  exact ⟨hc.moved hframes rfl, rfl⟩

/-- A call that parks was made before. -/
theorem CloseReturned.park (hc : CloseReturned s) (h : s.park = some t) : CloseReturned t ∧ t.calls = s.calls := by
  have hframes := park_frames h
  obtain ⟨above, below, -, -, rfl⟩ := park_eq h
  exact ⟨hc.moved hframes rfl, rfl⟩

/-- No action opens a closed watcher again, and none calls an observer by itself. -/
theorem CloseReturned.effect (hc : CloseReturned s) (he : Effect cause s t) : CloseReturned t ∧ t.calls = s.calls := by
  have hnil : Frame.stopping .closing ∉ ([] : List Frame) := List.not_mem_nil
  have hone : ∀ {f : Frame}, .stopping .closing ≠ f → .stopping .closing ∉ [f] := fun hf =>
    List.not_mem_cons_of_ne_of_not_mem hf hnil
  cases he with
  | quiet h hfs => exact hc.leads h hc.1 fun hmem => passive_not_closing (hfs _ hmem) rfl
  | starts _ hstate =>
    rw [hc.1] at hstate
    cases hstate
  | cancels hs h => exact hc.leads h hc.1 hnil
  | joins _ h _ => exact hc.leads h hc.1 hnil
  | revokes _ h => exact hc.leads h hc.1 hnil
  | attaches h _ => exact hc.leads h hc.1 (List.not_mem_cons_of_ne_of_not_mem (fun hc => nomatch hc) (hone fun hc => nomatch hc))
  | reports h => exact hc.leads h hc.1 (List.not_mem_cons_of_ne_of_not_mem (fun hc => nomatch hc) (hone fun hc => nomatch hc))
  | clears h => exact hc.leads h hc.1 hnil
  | polls h => exact hc.leads h hc.1 (hone fun hc => nomatch hc)
  | closes _ hopen => exact absurd hc.1 hopen
  | closed h => exact hc.leads h rfl hnil
  | closedUncleared h _ => exact hc.leads h rfl hnil
  | unparks h ht =>
    obtain ⟨hcu, hcalls⟩ := hc.leads h hc.1 (hone fun hc => nomatch hc)
    obtain ⟨hct, hcalls'⟩ := hcu.unpark? ht
    exact ⟨hct, hcalls'.trans hcalls⟩
  | rewrites _ hu _ =>
    obtain ⟨hcu, hcalls⟩ := hc.leads hu hc.1 hnil
    exact ⟨hcu.moved (List.Perm.refl _) rfl, hcalls⟩
  | disables _ hu =>
    obtain ⟨hcu, hcalls⟩ := hc.leads hu hc.1 hnil
    exact ⟨hcu.moved (List.Perm.refl _) rfl, hcalls⟩

/-- A turn of a closed watcher calls no observer. -/
theorem CloseReturned.turn {frame : Frame} {below : List Frame} (hc : CloseReturned s) (hg : Guarded s)
    (hstack : s.stack = frame :: below) (hturn : Turn cause (s.popped below) frame signal t) :
    CloseReturned t ∧ t.calls = s.calls := by
  have hidle : s.table.Idle := (hg.closed hc.1).resolve_left hc.2
  have hne : frame ≠ .stopping .closing := by
    rintro rfl
    exact hc.2 (top_mem_frames hstack)
  have hpopped : CloseReturned (s.popped below) := by
    exact ⟨hc.1, fun hmem => hc.2 (mem_frames_of_popped hstack hmem)⟩
  have hnil : Frame.stopping .closing ∉ ([] : List Frame) := List.not_mem_nil
  have hone : ∀ {f : Frame}, .stopping .closing ≠ f → .stopping .closing ∉ [f] := fun hf =>
    List.not_mem_cons_of_ne_of_not_mem hf hnil
  cases hturn with
  | acts _ h hfs he =>
    obtain ⟨hcu, hcalls⟩ := hpopped.leads h hc.1 fun hmem => passive_not_closing (hfs _ hmem) rfl
    obtain ⟨hct, hcalls'⟩ := hcu.effect he
    exact ⟨hct, hcalls'.trans hcalls⟩
  | startsJob _ h _ => exact hpopped.leads h hc.1 (List.not_mem_cons_of_ne_of_not_mem (fun hc => nomatch hc) (hone hne.symm))
  | stays h => exact hpopped.leads h hc.1 (hone hne.symm)
  | unparks h ht =>
    obtain ⟨hcu, hcalls⟩ := hpopped.leads h hc.1 (hone hne.symm)
    obtain ⟨hct, hcalls'⟩ := hcu.unpark? ht
    exact ⟨hct, hcalls'.trans hcalls⟩
  | clears _ => exact absurd rfl hne
  | uncleared _ _ => exact absurd rfl hne
  | parks hu ht =>
    obtain ⟨hcu, hcalls⟩ := hpopped.leads hu hc.1 (hone fun hc => nomatch hc)
    obtain ⟨hct, hcalls'⟩ := hcu.park ht
    exact ⟨hct, hcalls'.trans hcalls⟩
  | asks _ _ h => exact hpopped.leads h hc.1 (hone fun hc => nomatch hc)
  | waits h => exact hpopped.leads h hc.1 (List.not_mem_cons_of_ne_of_not_mem (fun hc => nomatch hc) (hone fun hc => nomatch hc))
  | hands _ => exact ⟨hpopped.moved (List.Perm.refl _) rfl, rfl⟩
  | attaches he _ => exact hpopped.effect he
  | registers _ h _ => exact hpopped.leads h hc.1 hnil
  | revokes _ h => exact hpopped.leads h hc.1 hnil
  | enters _ _ h =>
    exact hpopped.leads h hc.1 (List.not_mem_cons_of_ne_of_not_mem (fun hc => nomatch hc) (hone fun hc => nomatch hc))
  | compares _ h => exact hpopped.leads h hc.1 (hone fun hc => nomatch hc)
  | passes h => exact hpopped.leads h hc.1 (hone fun hc => nomatch hc)
  | calls hh hactive _ =>
    -- a call would need an active handle
    have hoff := hidle _ _ hh
    rw [hactive] at hoff
    cases hoff
  | ends _ _ hu =>
    obtain ⟨hcu, hcalls⟩ := hpopped.leads hu hc.1 hnil
    obtain ⟨hct, hcalls'⟩ := hcu.leads (endPoll_leads _ _ _ _) hcu.1 hnil
    exact ⟨hct, hcalls'.trans hcalls⟩

/-- Once the first close of a watcher has returned, no observer is called again, however the session goes on. -/
theorem no_call_after_close {w : World} (hs : Opens w s) (h : Run OfWatcher s log t) (hc : CloseReturned t)
    (h' : Run OfWatcher t more u) : u.calls = t.calls := by
  have hclosed : CloseReturned u ∧ u.calls = t.calls := by
    induction h' with
    | refl => exact ⟨hc, rfl⟩
    | @act more u action _ _ _ ih =>
      have hquiet : CloseReturned { u with signal := none } := ih.1.moved (List.Perm.refl _) rfl
      obtain ⟨hcu, hcalls⟩ := hquiet.effect (perform_effect _ action)
      exact ⟨hcu, hcalls.trans ih.2⟩
    | step hrun hstep _ ih =>
      have hguarded := guarded_of_run hs (h.trans hrun)
      obtain ⟨frame, below, hstack, hturn⟩ := step_turn hstep
      obtain ⟨hcu, hcalls⟩ := ih.1.turn hguarded hstack hturn
      exact ⟨hcu, hcalls.trans ih.2⟩
  exact hclosed.2

/-- A world of two directories. The first observer of one waits in its first call, and that of the other one closes the
watcher. -/
def stalled : World where
  disk := { root := .directory [("v", .directory [] 1), ("w", .directory [] 1)] 0 }
  scripts := [("a", [[.park]]), ("b", [[.close]])]

def stalledWatcher : Session :=
  (createRunning stalled {}).toOption.getD default

/-- One directory has two observers and the other one has one, and both have a new file. -/
def stalledChanged : Session :=
  ((((stalledWatcher.after (.watch (.path ⟨.root, ["w"]⟩) (.named "a" (.text "a")) "a") 12).after
    (.watch (.path ⟨.root, ["w"]⟩) (.named "c" (.text "c")) "c") 12).after
    (.watch (.path ⟨.root, ["v"]⟩) (.named "b" (.text "b")) "b") 12).after (.put "/w/x" (.file 2)) 0).after
    (.put "/v/x" (.file 2)) 0

/-- The watcher has been closed, when the first observer of a directory waits and the second one has not had its turn. -/
def stalledClosed : Session :=
  stalledChanged.after .pollNow 24

/-- There is another new file, the observer that waits is let go on, its registration is polled through its handle, and
the loop goes round once more. -/
def stalledResumed : Session :=
  (((stalledClosed.after (.put "/w/y" (.file 3)) 0).after .release 3).after (.poll "a" none) 8).after (.loop [[]]) 1

/-- The observer whose turn had not come at the close is never called, and neither are the others again. -/
theorem no_call_after_close_stalled : CloseReturned stalledClosed ∧ stalledClosed.parked.length = 1 ∧
    stalledClosed.calls.length = 2 ∧ stalledResumed.parked.length = 0 ∧ stalledResumed.calls = stalledClosed.calls := by
  have hopens : Opens stalled stalledWatcher := Opens.running_of_isSome (by decide +kernel)
  have hstart : Run (fun action => action.isOfUser = true) stalledWatcher [] stalledWatcher := Run.refl
  have hchanged : ∃ log, Run (fun action => action.isOfUser = true) stalledWatcher log stalledChanged := by
    refine ⟨_, ((((hstart.actsWithin ?_ rfl ?_).actsWithin ?_ rfl ?_).actsWithin ?_ rfl ?_).actsWithin
      ?_ rfl ?_).actsWithin ?_ rfl ?_⟩
    all_goals decide +kernel
  obtain ⟨log, hchanged⟩ := hchanged
  have hclosed : Run (fun action => action.isOfUser = true) stalledWatcher _ stalledClosed :=
    hchanged.actsWithin (by decide +kernel) rfl (by decide +kernel)
  have hresumed : ∃ log, Run (fun action => action.isOfUser = true) stalledClosed log stalledResumed := by
    have hnow : Run (fun action => action.isOfUser = true) stalledClosed [] stalledClosed := Run.refl
    refine ⟨_, (((hnow.actsWithin ?_ rfl ?_).actsWithin ?_ rfl ?_).actsWithin ?_ rfl ?_).actsWithin ?_ rfl ?_⟩
    all_goals decide +kernel
  obtain ⟨more, hresumed⟩ := hresumed
  have hreturned : CloseReturned stalledClosed := by
    refine ⟨by decide +kernel, fun hmem => ?_⟩
    have hnone : stalledClosed.frames.all (fun | .stopping .closing => false | _ => true) = true := by decide +kernel
    cases List.all_eq_true.mp hnone _ hmem
  exact ⟨hreturned, by decide +kernel, by decide +kernel, by decide +kernel,
    no_call_after_close hopens hclosed.ofWatcher hreturned hresumed.ofWatcher⟩

end Session

end DirWatch
