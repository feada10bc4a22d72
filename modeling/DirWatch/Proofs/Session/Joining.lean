import DirWatch.Proofs.Capture.Presence
import DirWatch.Proofs.Session.Captures
import DirWatch.Proofs.Session.Swaps

/-!
# Observers that join

An observer that joins a root shares its baseline, which may lag behind the tree. What the baseline accounts for is
never added for it, as long as it stays in the tree and no call fails: every capture has it (`Capture.Covers`), so no
comparison adds it and every next baseline accounts for it again (`Spared.move`). A delivery that was begun before the
observer joined is none for it. So `spared_of_course` says of a path what an observer that joins is spared, and
`joined_late` that the baseline has to account for the path.
-/

namespace DirWatch

namespace Snapshot

/-- Whether a snapshot has what names lead to, if it is to be seen at all. -/
def accountsFor (s : Snapshot) (visible : Bool) (names : List String) : Bool :=
  !visible || (s.at? names).isSome

variable {old new : Snapshot} {visible : Bool} {names : List String}

/-- A snapshot accounts for what is hidden, and for what it has. -/
theorem accountsFor_iff {s : Snapshot} :
    s.accountsFor visible names = true ↔ (visible = true → (s.at? names).isSome = true) := by
  cases visible <;> simp [accountsFor]

/-- What the older snapshot accounts for is not added. -/
theorem Comparable.not_added (h : Comparable (some old) new) (hold : old.accountsFor visible names = true)
    (hnew : (new.at? names).isSome = visible) : ⟨.added, new.root.down names⟩ ∉ (diff (some old) new).changes := by
  rw [mem_diff_iff h]
  rintro ⟨other, -, hpath, habsent, hpresent, -⟩
  cases Path.down_inj.mp hpath
  have hvisible : visible = true := hnew.symm.trans hpresent
  have hsome := accountsFor_iff.mp hold hvisible
  have hnone : old.at? names = none := habsent
  rw [hnone] at hsome
  cases hsome

/-- The next baseline accounts for it too. -/
theorem Comparable.accountsFor_baseline (h : Comparable (some old) new) (hold : old.accountsFor visible names = true)
    (hnew : (new.at? names).isSome = visible) : (diff (some old) new).baseline.accountsFor visible names = true := by
  refine accountsFor_iff.mpr fun hvisible => (isSome_baseline h names).mpr ⟨?_, hnew.trans hvisible⟩
  by_cases hne : names = []
  · subst hne
    rfl
  · exact (h.old_wellFormed old rfl).1.known_dropLast hne (accountsFor_iff.mp hold hvisible)

end Snapshot

namespace Session

/-- Whether no fault keeps a call from its answer. -/
def readsFreely (s : Session) : Bool :=
  s.faults.all fun entry =>
    match entry.2 with
    | .precede _ => true
    | _ => false

/-- Whether the path exists that names lead to from a root, and no call fails. -/
def stands (s : Session) (root : Path) (names : List String) : Bool :=
  s.disk.holds root names && s.readsFreely

/-- Whether the baseline of a registration accounts for what names lead to. -/
def accountsFor (s : Session) (id : RegistrationId) (visible : Bool) (names : List String) : Bool :=
  (s.baseline? id).any fun baseline => baseline.accountsFor visible names

/-- A run with all its moves, on which only allowed actions begin. -/
inductive Course (allowed : Action → Prop) (s : Session) : List (Session × Session) → Session → Prop
  | refl : Course allowed s [] s
  | act {ms t action} (h : Course allowed s ms t) (hrest : t.step = none) (ha : allowed action) :
      Course allowed s (ms ++ [(t, { t with signal := none }.perform action)]) ({ t with signal := none }.perform action)
  | step {ms t u} (h : Course allowed s ms t) (ht : t.step = some u)
      (ha : ∀ action, t.nextAction? = some action → allowed action) : Course allowed s (ms ++ [(t, u)]) u

/-- The registration accounts for what names lead to before some moves: nobody polls it, or a poll of it has found its
changes, and its next baseline will account for it. -/
inductive Settled (id : RegistrationId) (visible : Bool) (names : List String) (s : Session)
    (ms : List (Session × Session)) : Prop
  | rests (hidle : s.table.isPolling id = false) (hbaseline : s.accountsFor id visible names = true)
  | delivers {d : Delivery} (hd : d ∈ s.outline.deliveriesOf id) (hnext : d.report.baseline.accountsFor visible names = true)
      (habort : ∀ m ∈ ms, m.1.isAborting id = true → m.1.accountsFor id visible names = true)

/-- What holds while what names lead to stays: the baseline accounts for it, or the next one will, and no handle `k`
that waits for its turn is to be told that it was added. -/
structure Spared (id : RegistrationId) (k : HandleId) (root : Path) (visible : Bool) (names : List String)
    (s : Session) : Prop where
  known : s.accountsFor id visible names = true ∨ s.outline.deliveriesOf id ≠ []
  next : ∀ d ∈ s.outline.deliveriesOf id, d.report.baseline.accountsFor visible names = true
  silent : ∀ d ∈ s.outline.deliveriesOf id, k ∈ d.waiting → ⟨.added, root.down names⟩ ∉ d.report.changes

variable {allowed : Action → Prop} {s t u : Session} {id : RegistrationId} {k : HandleId} {r : Registration} {root : Path}
  {visible : Bool} {names : List String} {ms : List (Session × Session)} {captured : Snapshot} {report : Change.Report}
  {log : List (RegistrationId × List Change)}

/-! ## Courses -/

/-- A course is a run. -/
theorem Course.run (h : Course allowed s ms t) : ∃ log, Run allowed s log t := by
  induction h with
  | refl => exact ⟨[], Run.refl⟩
  | act _ hrest ha ih =>
    obtain ⟨log, hlog⟩ := ih
    exact ⟨log, hlog.act hrest ha⟩
  | step _ ht ha ih =>
    obtain ⟨log, hlog⟩ := ih
    exact ⟨_, hlog.step ht ha⟩

/-- What holds at the beginning and after every further move holds of the whole course. -/
theorem Course.keeps {P : List (Session × Session) → Session → Prop} (h : Course allowed s ms t) (hstart : P [] s)
    (hmove : ∀ {ms t u}, Course allowed s ms t → Move t u → P ms t → P (ms ++ [(t, u)]) u) : P ms t := by
  induction h with
  | refl => exact hstart
  | act h hrest _ ih => exact hmove h (Move.act _ hrest) ih
  | step h ht _ ih => exact hmove h (Move.step ht) ih

/-- A course goes on by steps that begin no action. -/
theorem Course.steps (h : Course allowed s ms t) (n : Nat) (hn : ∀ m < n, (Session.run m t).nextAction?.isNone = true) :
    Course allowed s (ms ++ movesOf n t) (Session.run n t) := by
  induction n generalizing ms t with
  | zero =>
    rw [movesOf, List.append_nil]
    exact h
  | succ n ih =>
    cases hstep : t.step with
    | none =>
      rw [Session.run, movesOf, hstep, List.append_nil]
      exact h
    | some u =>
      have hrun : ∀ m, Session.run (m + 1) t = Session.run m u := fun m => by rw [Session.run, hstep]
      have hmoves : ms ++ movesOf (n + 1) t = (ms ++ [(t, u)]) ++ movesOf n u := by
        rw [movesOf, hstep, List.append_assoc]
        rfl
      rw [hrun, hmoves]
      refine ih (h.step hstep ?_) ?_
      · intro action haction
        have hfirst := hn 0 (Nat.succ_pos n)
        rw [Session.run, haction] at hfirst
        cases hfirst
      · intro m hm
        rw [← hrun]
        exact hn (m + 1) (Nat.succ_lt_succ hm)

/-- A course goes on with an action from outside and steps that begin no other. -/
theorem Course.acts {action : Action} {n : Nat} (h : Course allowed s ms t) (hrest : t.step.isNone = true) (ha : allowed action)
    (hn : ∀ m < n, (t.after action m).nextAction?.isNone = true) :
    Course allowed s (ms ++ t.movesAfter action n) (t.after action n) := by
  have hsteps := (h.act (Option.isNone_iff_eq_none.mp hrest) ha).steps n hn
  rwa [List.append_assoc, List.singleton_append] at hsteps

/-! ## Answers -/

/-- Without faults a call gets its answer from the tree. -/
theorem answer_of_readsFreely (h : s.readsFreely = true) {call : Call} {ready : Bool} {a : Except CallError call.Result}
    (ha : s.ask call ready = .answered a) : a = s.disk.answer call := by
  have hfaults : ∀ fault, s.faultOf? call = some fault → ∃ steps, fault = .precede steps := by
    intro fault hfault
    have hentry := List.all_eq_true.mp h _ (mem_faults hfault)
    cases fault with
    | precede steps => exact ⟨steps, rfl⟩
    | _ => cases hentry
  unfold ask at ha
  split at ha
  · rename_i hfault
    obtain ⟨steps, hsteps⟩ := hfaults _ hfault
    cases hsteps
  · rename_i hfault
    obtain ⟨steps, hsteps⟩ := hfaults _ hfault
    cases hsteps
  · cases ha
  · cases ha
    rfl

/-! ## Deliveries -/

/-- A registration accounts for what its baseline does. -/
theorem accountsFor_of_get (hr : s.table.registrations[id]? = some r) :
    s.accountsFor id visible names = r.baseline.accountsFor visible names := by
  rw [accountsFor, baseline?_of_get hr]
  rfl

/-- At most one delivery is under way for a registration. -/
theorem Exclusive.deliveriesOf_cases (hx : Exclusive s) (id : RegistrationId) :
    s.outline.deliveriesOf id = [] ∨ ∃ d, s.outline.deliveriesOf id = [d] := by
  have hle := length_deliveriesOf_le s.outline id
  rw [hx id] at hle
  have hone := hle.trans (Bool.toNat_le _)
  match hds : s.outline.deliveriesOf id, hone with
  | [], _ => exact Or.inl rfl
  | [d], _ => exact Or.inr ⟨d, rfl⟩
  | _ :: _ :: _, hone => simp at hone

/-- A capture that is about to be compared can be compared with the baseline in force. -/
theorem Faithful.compares (hf : Faithful s) (hhanded : Handed s) (hr : s.table.registrations[id]? = some r)
    (hc : s.comparing? id = some captured) : Snapshot.Comparable (some r.baseline) captured ∧ captured.root = r.root := by
  obtain ⟨owner, gate, below, hstack, hsignal⟩ := comparing?_eq hc
  obtain ⟨hwf, hawaits⟩ := hhanded captured hsignal
  have hroot : s.table.rootOf? id = some captured.root := hawaits (.polling id owner gate .capturing) (by rw [hstack]; rfl)
  have hbare := Table.bare?_of_get hr
  refine ⟨hf.comparable hbare hwf hroot, ?_⟩
  rw [Table.rootOf?_of_bare hbare] at hroot
  exact (Option.some.inj hroot).symm

section

variable (h : Spared id k root visible names s) (hx : Exclusive s)

include h hx

/-- A capture is compared with a baseline that accounts for what stays. -/
theorem Spared.comparing (hc : s.comparing? id = some captured) : s.accountsFor id visible names = true :=
  h.known.resolve_right (not_not_intro (hx.deliveriesOf_comparing hc))

/-- A poll that ends well leaves a baseline that accounts for what stays. -/
theorem Spared.ends (hf : Faithful s) (hhanded : Handed s)
    (hcaptured : ∀ captured, s.comparing? id = some captured → (captured.at? names).isSome = visible)
    (hending : s.ending? id = some (.ok report)) : report.baseline.accountsFor visible names = true := by
  obtain ⟨owner, gate, stage, below, r, hstack, hr, hconclusion⟩ := ending?_eq hending
  unfold conclusion? at hconclusion
  cases stage with
  | entering => cases hconclusion
  | capturing =>
    dsimp only at hconclusion
    split at hconclusion
    · rename_i captured hsignal
      split at hconclusion
      · cases hconclusion
      · cases hconclusion
        have hc := comparing?_of_stack hstack hsignal
        have hbaseline := h.comparing hx hc
        rw [accountsFor_of_get hr] at hbaseline
        exact (hf.compares hhanded hr hc).1.accountsFor_baseline hbaseline (hcaptured captured hc)
    · cases hconclusion
    · cases hconclusion
  | delivering current waiting report' =>
    have hnext := h.next ⟨waiting, report'⟩ (hx.deliveriesOf_delivering hstack ▸ List.mem_singleton_self _)
    dsimp only at hconclusion
    split at hconclusion
    · cases hconclusion
    · obtain ⟨-, heq⟩ := Option.ite_none_right_eq_some.mp hconclusion
      cases heq
      exact hnext

/-- A poll that fails leaves the baseline, which accounts for what stays if that holds whenever a delivery is aborted. -/
theorem Spared.fails (habort : s.isAborting id = true → s.accountsFor id visible names = true) {f : Failure}
    (hending : s.ending? id = some (.error f)) : s.accountsFor id visible names = true := by
  obtain ⟨owner, gate, stage, below, r, hstack, hr, hconclusion⟩ := ending?_eq hending
  unfold conclusion? at hconclusion
  cases stage with
  | entering => cases hconclusion
  | capturing => exact h.known.resolve_right (not_not_intro (hx.deliveriesOf_capturing hstack))
  | delivering current waiting report =>
    dsimp only at hconclusion
    split at hconclusion
    · rename_i f' hfatal
      refine habort ((isAborting_of_stack hstack).trans ?_)
      by_contra hgoes
      rw [fatal?_of_aborts (Bool.eq_false_iff.mpr hgoes)] at hfatal
      cases hfatal
    · obtain ⟨-, heq⟩ := Option.ite_none_right_eq_some.mp hconclusion
      cases heq

section

variable (hf : Faithful s) (hhanded : Handed s) (hm : Move s t) (hr : s.table.registrations[id]? = some r)
  (hcaptured : ∀ captured, s.comparing? id = some captured → (captured.at? names).isSome = visible)

include hf hhanded hm hr hcaptured

/-- When a poll ends, the baseline accounts for what stays. -/
theorem Spared.concluded (habort : s.isAborting id = true → s.accountsFor id visible names = true)
    {outcome : Except Failure Change.Report} (hending : s.ending? id = some outcome) :
    t.accountsFor id visible names = true := by
  obtain ⟨r', hr', -, hbaseline, -⟩ := hm.baseline hx hr
  rw [accountsFor_of_get hr', hbaseline, hending]
  cases outcome with
  | ok report => exact h.ends hx hf hhanded hcaptured hending
  | error f => exact accountsFor_of_get hr ▸ h.fails hx habort hending

/-- A baseline that accounts for what stays is followed by another one. -/
theorem Spared.accountsFor (hnow : s.accountsFor id visible names = true) : t.accountsFor id visible names = true := by
  cases hending : s.ending? id with
  | some outcome => exact h.concluded hx hf hhanded hm hr hcaptured (fun _ => hnow) hending
  | none =>
    obtain ⟨r', hr', -, hbaseline, -⟩ := hm.baseline hx hr
    rw [accountsFor_of_get hr', hbaseline, hending]
    exact accountsFor_of_get hr ▸ hnow

/-- A move keeps what an observer is spared: what stays is in every capture that is compared. -/
theorem Spared.move (hroot : r.root = root) (habort : s.isAborting id = true → s.accountsFor id visible names = true) :
    Spared id k root visible names t := by
  have hkeep := h.accountsFor hx hf hhanded hm hr hcaptured
  have hover : t.outline.deliveriesOf id = [] → t.accountsFor id visible names = true → Spared id k root visible names t := by
    intro hnone hknown
    refine ⟨Or.inl hknown, ?_, ?_⟩
    · rw [hnone]
      exact fun _ hd => nomatch hd
    · rw [hnone]
      exact fun _ hd => nomatch hd
  -- without a delivery the baseline accounts for the path already, and a comparison does not add it; with one, the
  -- report is the same until its end
  rcases hx.deliveriesOf_cases id with hnone | ⟨⟨due, report⟩, hd⟩
  · have hnow : s.accountsFor id visible names = true := h.known.resolve_right (not_not_intro hnone)
    cases hm.served hx id with
    | elsewhere _ _ _ hdeliveries => exact hover (hdeliveries.trans hnone) (hkeep hnow)
    | @begins captured r₀ hc hr₀ _ hafter =>
      rw [hr] at hr₀
      cases hr₀
      have hseen := hcaptured captured hc
      obtain ⟨hcomparable, hsame⟩ := hf.compares hhanded hr hc
      have hbaseline := accountsFor_of_get hr ▸ hnow
      have hreport : ∀ d ∈ t.outline.deliveriesOf id, d.report = Snapshot.diff (some r.baseline) captured := by
        rw [hafter, begun?]
        split
        · intro d hmem
          rw [List.mem_singleton.mp hmem]
        · exact fun _ hmem => absurd hmem List.not_mem_nil
      refine ⟨Or.inl (hkeep hnow), fun d hmem => ?_, fun d hmem _ => ?_⟩
      · rw [hreport d hmem]
        exact hcomparable.accountsFor_baseline hbaseline hseen
      · rw [hreport d hmem, ← hroot, ← hsame]
        exact hcomparable.not_added hbaseline hseen
    | serves _ _ _ hbegun _ => exact absurd (hnone.symm.trans hbegun) (List.cons_ne_nil _ _).symm
    | shuts _ _ _ hbegun _ => exact absurd (hnone.symm.trans hbegun) (List.cons_ne_nil _ _).symm
    | ends _ _ hbegun _ _ => exact absurd (hnone.symm.trans hbegun) (List.cons_ne_nil _ _).symm
  · have hmem : ⟨due, report⟩ ∈ s.outline.deliveriesOf id := hd ▸ List.mem_singleton_self _
    have hgoes : ∀ {waiting}, t.outline.deliveriesOf id = [⟨waiting, report⟩] → (k ∈ waiting → k ∈ due) →
        Spared id k root visible names t := by
      intro waiting ht hwaiting
      refine ⟨Or.inr (by rw [ht]; exact List.cons_ne_nil _ _), ?_, ?_⟩
      · rw [ht]
        intro d' hd'
        rw [List.mem_singleton.mp hd']
        exact h.next ⟨due, report⟩ hmem
      · rw [ht]
        intro d' hd'
        rw [List.mem_singleton.mp hd']
        exact fun hk => h.silent ⟨due, report⟩ hmem (hwaiting hk)
    rcases hm.delivery hx hd with hsame | ⟨-, hstep⟩
    · exact hgoes hsame fun hk => hk
    · have hconcluded := fun {outcome} (hending : s.ending? id = some outcome) =>
        h.concluded hx hf hhanded hm hr hcaptured habort hending
      cases hstep with
      | ends hending => exact hover (hm.deliveriesOf_of_ending hx hending) (hconcluded hending)
      | aborted _ hending => exact hover (hm.deliveriesOf_of_ending hx hending) (hconcluded hending)
      | serves _ ht => exact hgoes ht fun hk => List.mem_cons_of_mem _ hk

end

/-- What the handle is called with at its turn does not say that it was added. -/
theorem Spared.turn (hm : Move s t) {v : Service} (hv : serviceOf? id (s, t) = some v) (hk : v.handle = k) :
    ∀ call ∈ v.calls, ⟨.added, root.down names⟩ ∉ call.2 := by
  have hserved : ∀ {waiting report}, v.calls = v.owed report.changes →
      s.outline.deliveriesOf id = [⟨v.handle :: waiting, report⟩] →
        ∀ call ∈ v.calls, ⟨.added, root.down names⟩ ∉ call.2 := by
    intro waiting report howed hbefore call hcall
    have hsilent := h.silent ⟨v.handle :: waiting, report⟩ (hbefore ▸ List.mem_singleton_self _) (hk ▸ List.mem_cons_self)
    rw [howed, Service.owed] at hcall
    split at hcall
    · split at hcall
      · rw [List.mem_singleton.mp hcall]
        exact hsilent
      · cases hcall
    · cases hcall
  cases hm.served hx id with
  | elsewhere _ hnone _ _ =>
    rw [hv] at hnone
    cases hnone
  | @begins captured _ hc _ _ _ =>
    obtain ⟨_, _, _, hstack, -⟩ := comparing?_eq hc
    rw [serviceOf?_of_stage hstack fun _ _ _ _ h => by cases h] at hv
    cases hv
  | serves hservice _ howed hbefore _ =>
    rw [hv] at hservice
    cases hservice
    exact hserved howed hbefore
  | shuts hservice _ howed hbefore _ =>
    rw [hv] at hservice
    cases hservice
    exact hserved howed hbefore
  | ends hnone _ _ _ _ =>
    rw [hv] at hnone
    cases hnone

end

/-! ## Where the moves begin -/

/-- No poll waits for a capture while nobody polls or a poll delivers. -/
theorem Settled.not_capturing (h : Settled id visible names s ms) (hx : Exclusive s) {owner : PollOwner} {gate : Gate} :
    .polling id owner gate .capturing ∉ s.frames := by
  intro hframe
  have hduty : .poll id owner .capturing ∈ s.outline.all := by
    rw [outline_all]
    exact List.mem_filterMap.mpr ⟨_, hframe, by cases owner <;> rfl⟩
  have hcapturing : .poll id owner .capturing ∈ s.outline.all.filter fun duty => duty.active? == some id :=
    List.mem_filter.mpr ⟨hduty, beq_self_eq_true (some id)⟩
  have hcount : (s.outline.all.filter fun duty => duty.active? == some id).length = (s.table.isPolling id).toNat := by
    rw [← hx id, Outline.active, List.count_filterMap, List.countP_eq_length_filter]
  cases h with
  | rests hidle _ =>
    rw [hidle] at hcount
    rw [List.eq_nil_of_length_eq_zero hcount] at hcapturing
    cases hcapturing
  | @delivers d hd _ _ =>
    obtain ⟨duty, hmem, hdelivery⟩ := List.mem_filterMap.mp hd
    have hdelivering : duty ∈ s.outline.all.filter fun duty => duty.active? == some id := by
      refine List.mem_filter.mpr ⟨hmem, ?_⟩
      unfold Duty.delivery? at hdelivery
      split at hdelivery
      · rw [(Option.ite_none_right_eq_some.mp hdelivery).1]
        exact beq_self_eq_true (some id)
      · cases hdelivery
    -- there is one poll past its entry, and it cannot do both
    obtain ⟨only, honly⟩ := List.length_eq_one_iff.mp
      (Nat.le_antisymm (hcount ▸ Bool.toNat_le _) (List.length_pos_of_mem hcapturing))
    rw [honly, List.mem_singleton] at hcapturing hdelivering
    rw [hdelivering, ← hcapturing] at hdelivery
    cases hdelivery

/-- Every handle that waits for its turn is in the table. -/
theorem waiting_of_run {w : World} (hs : Opens w s) (h : Run allowed s log t) (id : RegistrationId) :
    ∀ d ∈ t.outline.deliveriesOf id, ∀ k ∈ d.waiting, ∃ handle, t.table.handles[k]? = some handle := by
  have hstart : Exclusive s ∧ s.table.Linked ∧
      ∀ d ∈ s.outline.deliveriesOf id, ∀ k ∈ d.waiting, ∃ handle, s.table.handles[k]? = some handle := by
    have hidle : s.table.isPolling id = false := by
      rw [hs.fresh.table]
      rfl
    refine ⟨hs.exclusive, hs.linked, ?_⟩
    rw [hs.exclusive.deliveriesOf_idle hidle]
    exact fun _ hd => nomatch hd
  refine (h.keeps (P := fun s => Exclusive s ∧ s.table.Linked ∧ ∀ d ∈ s.outline.deliveriesOf id, ∀ k ∈ d.waiting,
    ∃ handle, s.table.handles[k]? = some handle) ?_ hstart).2.2
  rintro t u ⟨hx, hlinked, hwaiting⟩ hm
  have hstill : ∀ {k : HandleId} {handle : Handle}, t.table.handles[k]? = some handle →
      ∃ handle, u.table.handles[k]? = some handle := by
    intro k handle hget
    obtain ⟨handle', hget', -⟩ := hm.edits.remembers k handle hget
    exact ⟨handle', hget'⟩
  refine ⟨hm.exclusive hx, hm.edits.linked hlinked, fun d hd k hk => ?_⟩
  cases hm.served hx id with
  | elsewhere _ _ _ hdeliveries =>
    obtain ⟨handle, hget⟩ := hwaiting d (hdeliveries ▸ hd) k hk
    exact hstill hget
  | begins _ hr _ hafter =>
    -- a delivery begins with the handles of its registration
    rw [hafter, begun?] at hd
    split at hd
    · rw [List.mem_singleton.mp hd] at hk
      obtain ⟨handle, hget, -⟩ := (mem_handles_iff hlinked hr k).mp hk
      exact hstill hget
    · cases hd
  | serves _ _ _ hbefore hafter =>
    rw [hafter] at hd
    rw [List.mem_singleton.mp hd] at hk
    obtain ⟨handle, hget⟩ := hwaiting _ (hbefore ▸ List.mem_singleton_self _) k (List.mem_cons_of_mem _ hk)
    exact hstill hget
  | shuts _ _ _ _ hafter =>
    rw [hafter] at hd
    cases hd
  | ends _ _ _ hafter _ =>
    rw [hafter] at hd
    cases hd

/-- An observer that joins is spared what the registration accounts for. -/
theorem Settled.spared (h : Settled id visible names s ms) (hx : Exclusive s)
    (hwaiting : ∀ d ∈ s.outline.deliveriesOf id, k ∉ d.waiting) : Spared id k root visible names s := by
  cases h with
  | rests hidle hbaseline =>
    have hnone := hx.deliveriesOf_idle hidle
    refine ⟨Or.inl hbaseline, ?_, ?_⟩
    · rw [hnone]
      exact fun _ hd => nomatch hd
    · rw [hnone]
      exact fun _ hd => nomatch hd
  | @delivers d hd hnext _ =>
    refine ⟨Or.inr (List.ne_nil_of_mem hd), fun other hother => ?_, fun other hother hk => absurd hk (hwaiting other hother)⟩
    obtain ⟨only, honly⟩ := (hx.deliveriesOf_cases id).resolve_left (List.ne_nil_of_mem hd)
    rw [honly, List.mem_singleton] at hd hother
    rw [hother, ← hd]
    exact hnext

/-! ## The whole course -/

/-- A capture of the root that covers what names lead to. -/
def Seeks (root : Path) (patterns names : List String) (c : Capture) : Prop :=
  c.Sound ∧ c.root = root ∧ c.patterns = patterns ∧ c.Covers names

/-- What holds all the time while the path stays that names lead to. -/
structure Stays (id : RegistrationId) (k : HandleId) (root : Path) (patterns names : List String) (s : Session) : Prop where
  exclusive : Exclusive s
  registered : ∃ r, s.table.registrations[id]? = some r ∧ r.root = root
  unchanged : s.patterns = patterns
  carries : Carries (Seeks root patterns names) id s
  captured : ∀ captured, s.comparing? id = some captured → (captured.at? names).isSome = Capture.shown patterns root names
  spared : Spared id k root (Capture.shown patterns root names) names s

/-- A capture goes on covering a path that stays. -/
theorem Seeks.resume {patterns : List String} {c : Capture} (h : Seeks root patterns names c) {call : Call}
    {resume : Except CallError call.Result → Capture × List Notice} (hnext : c.next = .ask call resume) (hnamed : s.disk.Named)
    (hup : ".." ∉ names) (hstands : s.stands root names = true) {ready : Bool} {a : Except CallError call.Result}
    (ha : s.ask call ready = .answered a) : Seeks root patterns names (resume a).1 := by
  obtain ⟨hsound, hroot, hpatterns, hcovers⟩ := h
  rw [stands, Bool.and_eq_true] at hstands
  cases answer_of_readsFreely hstands.2 ha
  have hanswered := Capture.answered_of_named hnamed call
  obtain ⟨hsound', hroot'⟩ := hsound.resume hnext hanswered
  refine ⟨hsound', hroot'.trans hroot, (Capture.resume_patterns hnext _).trans hpatterns, ?_⟩
  refine hcovers.resume hsound hnext hanswered ?_
  rw [hroot]
  exact Disk.reveals_of_holds hstands.1 hnamed hup call

/-- What holds while the path stays is kept by a move at whose beginning the path is there, unless a delivery is aborted
before the baseline accounts for it. -/
theorem Stays.move {patterns : List String} (h : Stays id k root patterns names s) (hf : Faithful s) (hhanded : Handed s)
    (hm : Move s t) (hup : ".." ∉ names) (hstands : s.stands root names = true)
    (habort : s.isAborting id = true → s.accountsFor id (Capture.shown patterns root names) names = true) :
    Stays id k root patterns names t := by
  obtain ⟨r, hr, hroot⟩ := h.registered
  have hcarries : Carries (Seeks root patterns names) id t := by
    refine h.carries.move hm ?_ fun hc hnext ha => hc.resume hnext hf.disk hup hstands ha
    intro r' time hr'
    rw [hr] at hr'
    cases hr'
    exact ⟨Capture.sound_start _ _ _, hroot, h.unchanged, Capture.covers_start _ _ _ _⟩
  refine ⟨hm.exclusive h.exclusive, ?_, hm.patterns.trans h.unchanged, hcarries, ?_, ?_⟩
  · obtain ⟨r', hr', hsame, -⟩ := hm.baseline h.exclusive hr
    exact ⟨r', hr', hsame.trans hroot⟩
  · intro captured hc
    obtain ⟨c, ⟨-, hroot, hpatterns, hcovers⟩, hnext⟩ := h.carries.compared hm hc
    rw [hcovers.stop hnext, hroot, hpatterns]
  · exact h.spared.move h.exclusive hf hhanded hm hr h.captured hroot habort

/-- All of this holds where a registration has settled and the handle waits for no turn. -/
theorem Settled.stays {patterns : List String} (h : Settled id (Capture.shown patterns root names) names s ms) (hx : Exclusive s)
    (hf : Faithful s) (hr : s.table.registrations[id]? = some r) (hroot : r.root = root) (hpatterns : s.patterns = patterns)
    (hwaiting : ∀ d ∈ s.outline.deliveriesOf id, k ∉ d.waiting) : Stays id k root patterns names s := by
  have hbears : ∀ fs : List Frame, (∀ f ∈ fs, f ∈ s.frames) → fs.IsChain (Bears (Seeks root patterns names) id) := by
    intro fs hfs
    refine (List.pairwise_of_forall_mem_list fun f _ lower hlower => ?_).isChain
    unfold Bears
    split
    · rintro rfl
      exact absurd (hfs _ hlower) (h.not_capturing hx)
    · trivial
  refine ⟨hx, ⟨r, hr, hroot⟩, hpatterns, ⟨?_, fun fs hmem => ⟨?_, (hf.parked fs hmem).2⟩⟩, ?_,
    h.spared hx hwaiting⟩
  · exact hbears _ fun f hmem => List.mem_append_left _ hmem
  · exact hbears fs fun f hf => List.mem_append_right _ (List.mem_flatten_of_mem hmem hf)
  · intro captured hc
    obtain ⟨owner, gate, below, hstack, -⟩ := comparing?_eq hc
    exact absurd (top_mem_frames hstack) (h.not_capturing hx)

/-- From a moment on at which a registration accounts for a path, the path exists and no call fails. Then no handle that
is attached later is ever told that the path was added. -/
theorem joined_of_run {w : World} {s₀ : Session} (hs : Opens w s₀) (hw : w.disk.Named) (hrun : Run PutsNames s₀ log s)
    (hr : s.table.registrations[id]? = some r) (hlater : s.table.handles[k]? = none) (hup : ".." ∉ names)
    (hsettled : Settled id (Capture.shown s.patterns r.root names) names s ms) (hms : Course PutsNames s ms t)
    (hstands : ∀ m ∈ ms, m.1.stands r.root names = true) :
    ∀ v ∈ servicesOf id ms, v.handle = k → ∀ call ∈ v.calls, ⟨.added, r.root.down names⟩ ∉ call.2 := by
  have hx : Exclusive s := exclusive_of_run hs hrun
  have hwaiting : ∀ d ∈ s.outline.deliveriesOf id, k ∉ d.waiting := by
    intro d hd hk
    obtain ⟨handle, hget⟩ := waiting_of_run hs hrun id d hd k hk
    rw [hlater] at hget
    cases hget
  have hstart := hsettled.stays hx (faithful_of_run hs hw hrun).1 hr rfl rfl hwaiting
  have hall := hms.keeps (P := fun past u => past ⊆ ms → Stays id k r.root s.patterns names u ∧
    (s.accountsFor id (Capture.shown s.patterns r.root names) names = true →
      u.accountsFor id (Capture.shown s.patterns r.root names) names = true) ∧
    ∀ v ∈ servicesOf id past, v.handle = k → ∀ call ∈ v.calls, ⟨.added, r.root.down names⟩ ∉ call.2)
    (fun _ => ⟨hstart, fun h => h, fun _ hv => nomatch hv⟩) ?_
  · exact (hall (List.Subset.refl ms)).2.2
  intro past u v hpast hm ih hsub
  obtain ⟨hstays, hkept, hturns⟩ := ih fun m hmem => hsub (List.mem_append_left _ hmem)
  have hmem : (u, v) ∈ ms := hsub (List.mem_append_right _ List.mem_cons_self)
  obtain ⟨more, hmore⟩ := hpast.run
  obtain ⟨hf, hhanded⟩ := faithful_of_run hs hw (hrun.trans hmore)
  obtain ⟨r', hr', hroot⟩ := hstays.registered
  have habort : u.isAborting id = true → u.accountsFor id (Capture.shown s.patterns r.root names) names = true := by
    intro haborting
    cases hsettled with
    | rests _ hbaseline => exact hkept hbaseline
    | delivers _ _ habort => exact habort (u, v) hmem haborting
  refine ⟨hstays.move hf hhanded hm hup (hstands (u, v) hmem) habort, fun hnow => ?_, ?_⟩
  · exact hstays.spared.accountsFor hstays.exclusive hf hhanded hm hr' hstays.captured (hkept hnow)
  · rw [servicesOf_concat]
    intro turn hturn
    rcases List.mem_append.mp hturn with hturn | hturn
    · exact hturns turn hturn
    · exact hstays.spared.turn hstays.exclusive hm (Option.mem_toList.mp hturn)

/-! ## A second observer -/

def hollowWatcher : Session :=
  (createRunning hollow {}).toOption.getD default

/-- An observer watches the directory of the hollow world. -/
def watchedBy (s : Session) (observer : String) : Session :=
  s.after (.watch (.path ⟨.root, ["w"]⟩) (.named observer (.text observer)) observer) 20

/-- A file has appeared that no poll has seen yet. -/
def laggingWatcher : Session :=
  (hollowWatcher.watchedBy "a").after (.put "/w/x" (.file 2)) 0

/-- The file has been found. -/
def settledWatcher : Session :=
  laggingWatcher.after .pollNow 20

/-- A second observer joins, another file appears, and a poll finds it. -/
def joinedWatcher : Session :=
  ((settledWatcher.watchedBy "b").after (.put "/w/y" (.file 3)) 0).after .pollNow 20

/-- The watcher opens in its world. -/
theorem hollowWatcher_opens : Opens hollow hollowWatcher :=
  Opens.running_of_isSome (by decide +kernel)

/-- The names in this world are proper ones. -/
theorem hollow_named : hollow.disk.Named :=
  ⟨⟨by decide, trivial⟩, trivial⟩

/-- The file appears on a run of the watcher. -/
theorem laggingWatcher_run : ∃ log, Run PutsNames hollowWatcher log laggingWatcher := by
  have hwatched : Run PutsNames hollowWatcher _ (hollowWatcher.watchedBy "a") :=
    Run.refl.acts (by decide +kernel) trivial (by decide +kernel)
  exact ⟨_, hwatched.acts (by decide +kernel) ⟨by decide +kernel, trivial⟩ (by decide +kernel)⟩

/-- The second observer is told of the second file only. -/
theorem joined_of_run_settled : ∃ ms, Course PutsNames settledWatcher ms joinedWatcher ∧
    (∀ v ∈ servicesOf 0 ms, v.handle = 1 → ∀ call ∈ v.calls, ⟨.added, ⟨.root, ["w", "x"]⟩⟩ ∉ call.2) ∧
    ∃ v ∈ servicesOf 0 ms, v.handle = 1 ∧ v.calls.map (·.2) = [[⟨.added, ⟨.root, ["w", "y"]⟩⟩]] := by
  obtain ⟨log, hlagging⟩ := laggingWatcher_run
  have hsettled : Run PutsNames hollowWatcher _ settledWatcher :=
    hlagging.acts (by decide +kernel) trivial (by decide +kernel)
  have hjoined : Course PutsNames settledWatcher _ (settledWatcher.watchedBy "b") :=
    Course.refl.acts (by decide +kernel) trivial (by decide +kernel)
  have hput : Course PutsNames settledWatcher _ ((settledWatcher.watchedBy "b").after (.put "/w/y" (.file 3)) 0) :=
    hjoined.acts (by decide +kernel) ⟨by decide +kernel, trivial⟩ (by decide +kernel)
  have hpolled : ∃ ms, Course PutsNames settledWatcher ms joinedWatcher ∧
      ms.all (fun m => m.1.stands ⟨.root, ["w"]⟩ ["x"]) = true ∧
      (servicesOf 0 ms).any (fun v => v.handle = 1 && v.calls.map (·.2) = [[⟨.added, ⟨.root, ["w", "y"]⟩⟩]]) = true :=
    ⟨_, hput.acts (by decide +kernel) trivial (by decide +kernel), by decide +kernel, by decide +kernel⟩
  obtain ⟨ms, hms, hstands, htold⟩ := hpolled
  have hregistered : (settledWatcher.table.registrations[0]?).map (·.root) = some ⟨.root, ["w"]⟩ := by decide +kernel
  obtain ⟨r, hr, hroot⟩ := Option.map_eq_some_iff.mp hregistered
  have hup : ".." ∉ ["x"] := by decide
  have hspared := joined_of_run (k := 1) hollowWatcher_opens hollow_named hsettled hr
    (Option.isNone_iff_eq_none.mp (by decide +kernel)) hup
    (Settled.rests (by decide +kernel) (by rw [hroot]; decide +kernel)) hms
    (by rw [hroot]; exact List.all_eq_true.mp hstands)
  rw [hroot] at hspared
  obtain ⟨v, hv, hone⟩ := List.any_eq_true.mp htold
  exact ⟨ms, hms, hspared, v, hv, by simpa using hone⟩

/-- An observer that joins before a poll has seen a file is told that the file was added, though it was there before. -/
theorem joined_late : ¬∀ {w : World} {s₀ s t u : Session} {log : List (RegistrationId × List Change)} {id : RegistrationId}
    {r : Registration} {observer : Observer} {label : String} {n : Nat} {names : List String} {ms : List (Session × Session)},
    Opens w s₀ → w.disk.Named → Run PutsNames s₀ log s → s.step = none → s.table.find? r.root = some id →
    s.table.registrations[id]? = some r → t = s.after (.watch (.path r.root) observer label) n → t.step = none →
    (t.handleOf? label).map (·.1) = some s.table.handles.size → ".." ∉ names → Course PutsNames t ms u →
    (∀ m ∈ ms, m.1.stands r.root names = true) →
    ∀ v ∈ servicesOf id ms, v.handle = s.table.handles.size →
    ∀ call ∈ v.calls, ⟨.added, r.root.down names⟩ ∉ call.2 := by
  intro hclaim
  obtain ⟨log, hrun⟩ := laggingWatcher_run
  have hregistered : (laggingWatcher.table.registrations[0]?).map (·.root) = some ⟨.root, ["w"]⟩ := by decide +kernel
  obtain ⟨r, hr, hroot⟩ := Option.map_eq_some_iff.mp hregistered
  have hpolled : ∃ ms, Course PutsNames (laggingWatcher.watchedBy "b") ms ((laggingWatcher.watchedBy "b").after .pollNow 20) ∧
      ms.all (fun m => m.1.stands ⟨.root, ["w"]⟩ ["x"]) = true ∧
      (servicesOf 0 ms).any (fun v => v.handle = 1 && v.calls.map (·.2) = [[⟨.added, ⟨.root, ["w", "x"]⟩⟩]]) = true :=
    ⟨_, Course.refl.acts (by decide +kernel) trivial (by decide +kernel), by decide +kernel, by decide +kernel⟩
  obtain ⟨ms, hms, hstands, htold⟩ := hpolled
  have hwatches : laggingWatcher.watchedBy "b" =
      laggingWatcher.after (.watch (.path r.root) (.named "b" (.text "b")) "b") 20 := by
    rw [hroot]
    rfl
  have hfind : laggingWatcher.table.find? r.root = some 0 := by
    rw [hroot]
    decide +kernel
  have hup : ".." ∉ ["x"] := by decide
  have hspared :=
    hclaim hollowWatcher_opens hollow_named hrun (Option.isNone_iff_eq_none.mp (by decide +kernel)) hfind hr hwatches
    (Option.isNone_iff_eq_none.mp (by decide +kernel)) (by decide +kernel) hup hms
    (by rw [hroot]; exact List.all_eq_true.mp hstands)
  obtain ⟨v, hv, hone⟩ := List.any_eq_true.mp htold
  rw [Bool.and_eq_true, decide_eq_true_iff, decide_eq_true_iff] at hone
  obtain ⟨hhandle, hcalls⟩ := hone
  have hfirst : [⟨.added, ⟨.root, ["w", "x"]⟩⟩] ∈ v.calls.map (·.2) := by
    rw [hcalls]
    exact List.mem_singleton_self _
  obtain ⟨call, hcall, hchanges⟩ := List.mem_map.mp hfirst
  refine hspared v hv (hhandle.trans (by decide +kernel)) call hcall ?_
  rw [hchanges, hroot]
  exact List.mem_singleton_self _

end Session

end DirWatch
