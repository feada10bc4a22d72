import DirWatch.Proofs.Session.Moves

/-!
# Polls exclude each other

While a poll of a registration is past its entry, no other one gets there: the table says whether there is one, and
there is never a second (`Exclusive`). So there is at most one delivery under way for a registration (`deliveriesOf`),
and a move changes it only if it is a step of that poll.
-/

namespace DirWatch.Session

open Table (Rests)

/-- A delivery under way: the handles that wait for their turn, and what is delivered. -/
structure Delivery where
  waiting : List HandleId
  report : Change.Report

/-- The registration of a poll past its entry. -/
def Duty.active? : Duty → Option RegistrationId
  | .poll _ _ .entering => none
  | .poll id _ _ => some id
  | .call _ => none

/-- The delivery of a poll of this registration. -/
def Duty.delivery? (id : RegistrationId) : Duty → Option Delivery
  | .poll other _ (.delivering _ waiting report) => if other = id then some ⟨waiting, report⟩ else none
  | _ => none

/-- The registrations of the polls past their entry. -/
def Outline.active (o : Outline) : List RegistrationId :=
  o.all.filterMap Duty.active?

/-- The deliveries under way for a registration. -/
def Outline.deliveriesOf (o : Outline) (id : RegistrationId) : List Delivery :=
  o.all.filterMap (Duty.delivery? id)

/-- The table says of every registration whether a poll of it is past its entry, and there is at most one. -/
def Exclusive (s : Session) : Prop :=
  ∀ id, s.outline.active.count id = (s.table.isPolling id).toNat

variable {s t u : Session} {o o' : Outline} {id k : RegistrationId} {owner : PollOwner} {gate : Gate} {stage : PollStage}
  {below : List Frame} {signal : Option Signal} {allowed : Action → Prop} {log : List (RegistrationId × List Change)}

/-! ## Shifts -/

theorem Outline.all_push (o : Outline) (duty : Duty) : (o.push duty).all = duty :: o.all := rfl

/-- Parking moves duties and changes nothing else. -/
theorem Outline.all_park {above below : List Duty} (h : o.duties = above ++ below) :
    ({ o with duties := below, parked := o.parked ++ [above] } : Outline).all.Perm o.all := by
  unfold Outline.all
  dsimp only
  rw [h, List.flatten_concat, ← List.append_assoc, List.append_assoc above]
  exact List.perm_append_comm

/-- Unparking brings the duties back. -/
theorem Outline.all_unpark {above : List Duty} {rest : List (List Duty)} (h : o.parked = above :: rest) :
    ({ o with duties := above ++ o.duties, parked := rest } : Outline).all.Perm o.all := by
  unfold Outline.all
  dsimp only
  rw [h, List.flatten_cons, List.append_assoc]
  exact List.perm_append_comm_assoc above _ _

/-- The call that ends is the first of all duties. -/
theorem Outline.all_return {handle : HandleId} {below : List Duty} (h : o.duties = .call handle :: below) :
    o.all = .call handle :: ({ o with duties := below } : Outline).all := by
  rw [Outline.all, h]
  rfl

/-- Without a step of a poll, calls may go and entering polls may come. -/
theorem Shift.all_cases (h : Shift o o') : o'.all.Perm o.all ∨ (∃ handle, o.all = .call handle :: o'.all) ∨
    ∃ id owner, o'.all = .poll id owner .entering :: o.all := by
  cases h with
  | same => exact Or.inl (List.Perm.refl _)
  | parks h _ _ => exact Or.inl (Outline.all_park h)
  | unparks h => exact Or.inl (Outline.all_unpark h)
  | returns h => exact Or.inr (Or.inl ⟨_, Outline.all_return h⟩)
  | prunes => exact Or.inl (List.Perm.refl _)
  | submits _ => exact Or.inl (List.Perm.refl _)
  | starts _ _ => exact Or.inr (Or.inr ⟨_, _, rfl⟩)

/-- What does not count calls and entering polls is the same after a shift, up to order. -/
theorem Shift.filterMap_perm {β : Type} {f : Duty → Option β} (h : Shift o o') (hcall : ∀ handle, f (.call handle) = none)
    (hentering : ∀ id owner, f (.poll id owner .entering) = none) : (o'.all.filterMap f).Perm (o.all.filterMap f) := by
  rcases h.all_cases with hperm | ⟨handle, heq⟩ | ⟨id, owner, heq⟩
  · exact hperm.filterMap f
  · rw [heq, List.filterMap_cons_none (hcall handle)]
  · rw [heq, List.filterMap_cons_none (hentering id owner)]

/-- Without a step of a poll, the same polls are past their entry. -/
theorem Shift.active_perm (h : Shift o o') : o'.active.Perm o.active :=
  h.filterMap_perm (fun _ => rfl) (fun _ _ => rfl)

theorem Shift.deliveriesOf_perm (h : Shift o o') (id : RegistrationId) : (o'.deliveriesOf id).Perm (o.deliveriesOf id) :=
  h.filterMap_perm (fun _ => rfl) (fun _ _ => rfl)

/-! ## The poll in control -/

theorem capturing_ne_entering : PollStage.capturing ≠ .entering :=
  fun h => nomatch h

theorem delivering_ne_entering {current : Option HandleId} {waiting : List HandleId} {report : Change.Report} :
    PollStage.delivering current waiting report ≠ .entering :=
  fun h => nomatch h

/-- A poll at its entry does not count yet. -/
theorem active_push_entering (o : Outline) (id : RegistrationId) (owner : PollOwner) :
    (o.push (.poll id owner .entering)).active = o.active :=
  List.filterMap_cons_none rfl

/-- A poll in any later stage counts. -/
theorem active_push (o : Outline) (id : RegistrationId) (owner : PollOwner) (hstage : stage ≠ .entering) :
    (o.push (.poll id owner stage)).active = id :: o.active := by
  refine List.filterMap_cons_some ?_
  cases stage with
  | entering => exact absurd rfl hstage
  | _ => rfl

/-- A poll that delivers is a delivery of its registration. -/
theorem deliveriesOf_push_delivering (o : Outline) (id : RegistrationId) (owner : PollOwner) (current : Option HandleId)
    (waiting : List HandleId) (report : Change.Report) :
    (o.push (.poll id owner (.delivering current waiting report))).deliveriesOf id = ⟨waiting, report⟩ :: o.deliveriesOf id :=
  List.filterMap_cons_some (if_pos rfl)

/-- It is none of another registration. -/
theorem deliveriesOf_push_ne (o : Outline) (owner : PollOwner) (stage : PollStage) (hne : id ≠ k) :
    (o.push (.poll id owner stage)).deliveriesOf k = o.deliveriesOf k := by
  refine List.filterMap_cons_none ?_
  cases stage with
  | delivering _ _ _ => exact if_neg hne
  | _ => rfl

/-- The poll in control has its duty, unless its caller has only begun it. -/
theorem outline_of_polling (hstack : s.stack = .polling id owner gate stage :: below) :
    s.outline = (s.popped below).outline.push (.poll id owner stage) ∨
      stage = .entering ∧ s.outline = (s.popped below).outline := by
  cases owner with
  | job job => exact Or.inl (outline_popped_push hstack rfl)
  | caller =>
    cases stage with
    | entering => exact Or.inr ⟨rfl, (outline_popped hstack rfl).symm⟩
    | _ => exact Or.inl (outline_popped_push hstack rfl)

section

variable (hstack : s.stack = .polling id owner gate stage :: below)

include hstack

/-- At its entry the poll in control makes no difference to the polls that count. -/
theorem active_entering (hstage : stage = .entering) : s.outline.active = (s.popped below).outline.active := by
  subst hstage
  rcases outline_of_polling hstack with heq | ⟨-, heq⟩
  · rw [heq, active_push_entering]
  · rw [heq]

/-- Past its entry, the duty of the poll in control comes before those below it. -/
theorem outline_of_active (hstage : stage ≠ .entering) :
    s.outline = (s.popped below).outline.push (.poll id owner stage) :=
  (outline_of_polling hstack).resolve_right fun h => hstage h.1

/-- Past its entry, the poll in control counts besides those below it. -/
theorem active_of_polling (hstage : stage ≠ .entering) : s.outline.active = id :: (s.popped below).outline.active := by
  rw [outline_of_active hstack hstage, active_push _ _ _ hstage]

/-- A poll past its entry is known to the table, and it is the only one of its registration. -/
theorem Exclusive.polling (h : Exclusive s) (hstage : stage ≠ .entering) :
    s.table.isPolling id = true ∧ (s.popped below).outline.active.count id = 0 := by
  have hcount := h id
  rw [active_of_polling hstack hstage, List.count_cons_self] at hcount
  have hle := Bool.toNat_le (s.table.isPolling id)
  refine ⟨?_, by omega⟩
  by_contra hidle
  rw [Bool.not_eq_true] at hidle
  rw [hidle, Bool.toNat_false] at hcount
  omega

end

/-! ## The invariant -/

/-- Polls that rest go on excluding each other. -/
theorem Shift.exclusive (hshift : Shift s.outline t.outline) (hrests : Rests s.table t.table) (h : Exclusive s) :
    Exclusive t := by
  intro id
  rw [hshift.active_perm.count_eq, hrests.isPolling]
  exact h id

/-- The registration of a poll that has ended is free. -/
theorem isPolling_endTable {table : Table} {r : Registration} (hr : table.bare? id = some r)
    (outcome : Except Failure Change.Report) (k : RegistrationId) :
    (endTable table id outcome).isPolling k = if id = k then false else table.isPolling k := by
  rw [Table.isPolling, bare?_endTable hr]
  by_cases hk : id = k
  · rw [if_pos hk, if_pos hk]
    rfl
  · rw [if_neg hk, if_neg hk]
    rfl

/-- The step of a poll marks its registration when it goes past its entry and unmarks it at its end. -/
theorem PollMove.exclusive (hmove : PollMove s below id owner gate stage signal t)
    (hstack : s.stack = .polling id owner gate stage :: below) (h : Exclusive s) : Exclusive t := by
  have hgoes : stage ≠ .entering → ∀ {stage'}, stage' ≠ .entering → t.table = s.table →
      t.outline.active = ((s.popped below).outline.push (.poll id owner stage')).active → Exclusive t := by
    intro hstage stage' hstage' htable hactive k
    rw [hactive, htable, active_push _ _ _ hstage', ← active_of_polling hstack hstage]
    exact h k
  cases hmove with
  | enters hr hfree htable _ houtline =>
    have hbare := Table.bare?_of_get hr
    have hidle : s.table.isPolling id = false := by
      rw [Table.isPolling_of_get hr, hfree]
    intro k
    have hcount := h k
    rw [active_entering hstack rfl] at hcount
    rw [houtline, active_push _ _ _ capturing_ne_entering, htable, List.count_cons, hcount]
    by_cases hk : id = k
    · subst hk
      rw [Table.isPolling_setPolling hbare, hidle, if_pos (beq_self_eq_true id)]
      rfl
    · rw [Table.isPolling_setPolling_ne hk, if_neg (by simpa using hk)]
      rfl
  | compares _ _ htable _ houtline =>
    exact hgoes capturing_ne_entering delivering_ne_entering htable (congrArg Outline.active houtline)
  | passes _ _ _ htable _ houtline =>
    exact hgoes delivering_ne_entering delivering_ne_entering htable (congrArg Outline.active houtline)
  | @calls _ h waiting report _ _ _ _ _ _ _ _ _ _ htable _ houtline =>
    have hactive : t.outline.active =
        ((s.popped below).outline.push (.poll id owner (.delivering (some h) waiting report))).active := by
      rw [houtline]
      rfl
    exact hgoes delivering_ne_entering delivering_ne_entering htable hactive
  | @ends _ _ outcome u r hr hc hu houtline =>
    have hstage : stage ≠ .entering := by
      rintro rfl
      cases hc
    have hcount := h.polling hstack hstage
    have htable : (u.endPoll id owner outcome).table = Session.endTable s.table id outcome := by
      rw [(endPoll_leads u id owner outcome).table, hu.table]
      rfl
    have hactive : (u.endPoll id owner outcome).outline.active = (s.popped below).outline.active := by
      rw [outline_endPoll, ← houtline]
      rfl
    intro k
    rw [hactive, htable, isPolling_endTable (Table.bare?_of_get hr)]
    by_cases hk : id = k
    · subst hk
      rw [if_pos rfl, hcount.2]
      rfl
    · have hother := h k
      rw [active_of_polling hstack hstage, List.count_cons_of_ne hk] at hother
      rw [if_neg hk, hother]

/-- Every move keeps the exclusion: it is the step of a poll, or the polls rest. -/
theorem Move.exclusive (h : Exclusive s) (hm : Move s t) : Exclusive t := by
  rcases hm.rests_or_polls with ⟨hshift, hrests, -⟩ | ⟨id, owner, gate, stage, below, hstack, -, hmove⟩
  · exact hshift.exclusive hrests h
  · exact hmove.exclusive hstack h

/-- A new session has no polls at all. -/
theorem Opens.exclusive {w : World} (h : Opens w s) : Exclusive s := by
  intro id
  rw [Outline.active, Outline.all, outline, h.fresh.stack, h.fresh.parked, h.fresh.table]
  rfl

/-- On every run, polls of one registration exclude each other. -/
theorem exclusive_of_run {w : World} (hs : Opens w s) (h : Run allowed s log t) : Exclusive t :=
  h.keeps (fun h hm => hm.exclusive h) hs.exclusive

/-! ## Deliveries under way -/

/-- Where there is a delivery, there is a poll. -/
theorem length_deliveriesOf_le (o : Outline) (id : RegistrationId) : (o.deliveriesOf id).length ≤ o.active.count id := by
  have hlength : (o.deliveriesOf id).length = o.all.countP fun d => (d.delivery? id).isSome :=
    List.length_filterMap_eq_countP
  rw [hlength, Outline.active, List.count_filterMap]
  refine List.countP_mono_left ?_
  intro d _ hd
  cases d with
  | call handle => cases hd
  | poll other owner stage =>
    cases stage with
    | delivering _ _ _ =>
      have hother : other = id := by
        by_contra hne
        rw [Duty.delivery?, if_neg hne] at hd
        cases hd
      rw [hother]
      exact beq_self_eq_true (some id)
    | _ => cases hd

/-- While a poll is in control past its entry, nothing else delivers for its registration. -/
theorem Exclusive.deliveriesOf_popped (h : Exclusive s) (hstack : s.stack = .polling id owner gate stage :: below)
    (hstage : stage ≠ .entering) : (s.popped below).outline.deliveriesOf id = [] := by
  have hle := length_deliveriesOf_le (s.popped below).outline id
  rw [(h.polling hstack hstage).2] at hle
  exact List.eq_nil_of_length_eq_zero (Nat.le_zero.mp hle)

/-- A poll that captures does not deliver, and nothing else delivers for its registration. -/
theorem Exclusive.deliveriesOf_capturing (h : Exclusive s) (hstack : s.stack = .polling id owner gate .capturing :: below) :
    s.outline.deliveriesOf id = [] := by
  rw [outline_of_active hstack capturing_ne_entering]
  exact h.deliveriesOf_popped hstack capturing_ne_entering

/-- The delivery in control is the one under way. -/
theorem Exclusive.deliveriesOf_delivering (h : Exclusive s) {current : Option HandleId} {waiting : List HandleId}
    {report : Change.Report} (hstack : s.stack = .polling id owner gate (.delivering current waiting report) :: below) :
    s.outline.deliveriesOf id = [⟨waiting, report⟩] := by
  rw [outline_of_active hstack delivering_ne_entering, deliveriesOf_push_delivering,
    h.deliveriesOf_popped hstack delivering_ne_entering]

/-- The deliveries under way are the same after a shift, as there is at most one. -/
theorem Exclusive.deliveriesOf_eq (h : Exclusive s) (hshift : Shift s.outline t.outline) (id : RegistrationId) :
    t.outline.deliveriesOf id = s.outline.deliveriesOf id := by
  have hperm := hshift.deliveriesOf_perm id
  have hle : (s.outline.deliveriesOf id).length ≤ 1 := by
    refine (length_deliveriesOf_le s.outline id).trans ?_
    rw [h id]
    exact Bool.toNat_le _
  generalize s.outline.deliveriesOf id = ds at hperm hle
  match ds, hle with
  | [], _ => exact hperm.eq_nil
  | [d], _ => exact List.perm_singleton.mp hperm

/-- A poll past its entry has its registration. -/
theorem Exclusive.registered (h : Exclusive s) (hstack : s.stack = .polling id owner gate stage :: below)
    (hstage : stage ≠ .entering) : ∃ r, s.table.registrations[id]? = some r := by
  have hpolling := (h.polling hstack hstage).1
  cases hr : s.table.registrations[id]? with
  | some r => exact ⟨r, rfl⟩
  | none =>
    rw [Table.isPolling, Table.bare?, hr] at hpolling
    cases hpolling

/-- A delivery in control is never stuck. -/
theorem Exclusive.step_delivering (h : Exclusive s) {current : Option HandleId} {waiting : List HandleId}
    {report : Change.Report} (hstack : s.stack = .polling id owner gate (.delivering current waiting report) :: below) :
    s.step ≠ none := by
  obtain ⟨r, hr⟩ := h.registered hstack delivering_ne_entering
  unfold step
  rw [hstack]
  dsimp only
  unfold stepPoll
  rw [hr]
  dsimp only
  split
  · contradiction
  · contradiction
  · contradiction
  · contradiction
  · split <;> exact Option.some_ne_none _
  · exact Option.some_ne_none _

/-- A poll that has its capture is never stuck. -/
theorem Exclusive.step_captured (h : Exclusive s) (hstack : s.stack = .polling id owner gate .capturing :: below)
    {outcome : Except Failure Snapshot} (hsignal : s.signal = some (.captured outcome)) : s.step ≠ none := by
  obtain ⟨r, hr⟩ := h.registered hstack capturing_ne_entering
  unfold step
  rw [hstack, hsignal]
  dsimp only
  unfold stepPoll
  rw [hr]
  cases outcome <;> exact Option.some_ne_none _

/-- Nobody delivers for a registration that is not polled. -/
theorem Exclusive.deliveriesOf_idle (h : Exclusive s) (hidle : s.table.isPolling id = false) :
    s.outline.deliveriesOf id = [] := by
  have hle := length_deliveriesOf_le s.outline id
  rw [h id, hidle, Bool.toNat_false] at hle
  exact List.eq_nil_of_length_eq_zero (Nat.le_zero.mp hle)

end DirWatch.Session
