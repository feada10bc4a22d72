import DirWatch.Proofs.Session.FanOut

/-!
# The calls in progress

A call of an observer stands directly above the poll that made it (`Nested`), and the handle that it goes through
belongs to the registration that is polled. As the polls of one registration exclude each other, at most one call is in
progress for a registration, and none while it is not polled (`calls_serial_of_run`). Calls for one root do not exclude
each other: a root that was given up and watched again has a new registration, and an observer of the new one can be
called while one of the old one has not returned (`calls_overlap`).
-/

namespace DirWatch.Session

open Table (Remembers)

/-- The registration that the call of an observer is for. -/
def calledFor? (table : Table) : Frame → Option RegistrationId
  | .observing h _ _ _ => table.handles[h]?.map (·.registration)
  | _ => none

/-- The registration that a duty calls an observer for. -/
def Duty.calledFor? (table : Table) : Duty → Option RegistrationId
  | .call h => table.handles[h]?.map (·.registration)
  | .poll _ _ _ => none

/-- The number of calls in progress for a registration. -/
def callsInProgress (s : Session) (id : RegistrationId) : Nat :=
  (s.frames.filterMap (calledFor? s.table)).count id

/-- The number of calls in progress for a root, over all registrations that it has had. -/
def callsAtRoot (s : Session) (root : Path) : Nat :=
  ((s.frames.filterMap (calledFor? s.table)).filterMap s.table.rootOf?).count root

/-- Every call stands directly above the poll that made it, and goes through a handle of the registration polled. -/
inductive Nested (table : Table) : List Duty → Prop
  | nil : Nested table []
  | poll {id owner stage ds} (h : Nested table ds) : Nested table (.poll id owner stage :: ds)
  | call {h handle owner waiting report ds} (hget : table.handles[h]? = some handle) (hds : Nested table ds) :
      Nested table (.call h :: .poll handle.registration owner (.delivering (some h) waiting report) :: ds)

/-- What is known of the calls in progress and of those to come. -/
structure Orderly (s : Session) : Prop where
  linked : s.table.Linked
  /-- The handles that wait for their turn belong to the registration polled. -/
  waiting : ∀ {id d}, d ∈ s.outline.deliveriesOf id → ∀ h ∈ d.waiting,
    ∃ handle, s.table.handles[h]? = some handle ∧ handle.registration = id
  stack : Nested s.table s.outline.duties
  parked : ∀ ds ∈ s.outline.parked, Nested s.table ds

variable {s t u : Session} {table table' : Table} {ds ds' : List Duty} {o o' : Outline} {id : RegistrationId} {owner : PollOwner}
  {gate : Gate} {stage : PollStage} {below : List Frame} {allowed : Action → Prop} {log : List (RegistrationId × List Change)}

/-! ## Nested duties -/

/-- Calls stay above their polls as long as handles stand for the same attachment. -/
theorem Nested.remember (hr : Remembers table table') (h : Nested table ds) : Nested table' ds := by
  induction h with
  | nil => exact Nested.nil
  | poll _ ih => exact Nested.poll ih
  | call hget _ ih =>
    obtain ⟨handle', hget', hregistration, -⟩ := hr _ _ hget
    rw [← hregistration]
    exact Nested.call hget' ih

/-- Duties may be put on others, since no call is separated from its poll. -/
theorem Nested.append (h : Nested table ds) (h' : Nested table ds') : Nested table (ds ++ ds') := by
  induction h with
  | nil => exact h'
  | poll _ ih => exact Nested.poll ih
  | call hget _ ih => exact Nested.call hget ih

/-- What is below a duty is nested. -/
theorem Nested.tail {d : Duty} (h : Nested table (d :: ds)) : Nested table ds := by
  cases h with
  | poll h => exact h
  | call hget h => exact Nested.poll h

/-- Duties can be divided below a poll. -/
theorem Nested.split {first below : List Duty} {last : Duty} (h : Nested table (first ++ last :: below))
    (hjob : last.job?.isSome) : Nested table (first ++ [last]) ∧ Nested table below := by
  generalize hds : first ++ last :: below = ds at h
  induction h generalizing first with
  | nil => simp at hds
  | poll h ih =>
    cases first with
    | nil =>
      cases hds
      exact ⟨Nested.poll Nested.nil, h⟩
    | cons d first =>
      cases hds
      exact (ih rfl).imp_left Nested.poll
  | call hget h ih =>
    match first, hds with
    | [], hds =>
      cases hds
      cases hjob
    | [d], hds =>
      cases hds
      exact ⟨Nested.call hget Nested.nil, h⟩
    | _ :: _ :: first, hds =>
      cases hds
      exact (ih rfl).imp_left (Nested.call hget)

/-- There are no more calls for a registration than polls past their entry. -/
theorem Nested.count_le (h : Nested table ds) (id : RegistrationId) :
    (ds.filterMap (Duty.calledFor? table)).count id ≤ (ds.filterMap Duty.active?).count id := by
  induction h with
  | nil => exact Nat.le_refl _
  | @poll other owner stage ds _ ih =>
    have hcalls : (Duty.poll other owner stage :: ds).filterMap (Duty.calledFor? table) =
        ds.filterMap (Duty.calledFor? table) := List.filterMap_cons_none rfl
    rw [hcalls]
    refine ih.trans (List.Sublist.count_le id ?_)
    exact (List.sublist_cons_self _ _).filterMap Duty.active?
  | @call h handle owner waiting report ds hget _ ih =>
    have hcalls : (Duty.call h :: Duty.poll handle.registration owner (.delivering (some h) waiting report) :: ds).filterMap
        (Duty.calledFor? table) = handle.registration :: ds.filterMap (Duty.calledFor? table) := by
      refine (List.filterMap_cons_some (b := handle.registration) ?_).trans (congrArg _ (List.filterMap_cons_none rfl))
      rw [Duty.calledFor?, hget]
      rfl
    have hactive : (Duty.call h :: Duty.poll handle.registration owner (.delivering (some h) waiting report) :: ds).filterMap
        Duty.active? = handle.registration :: ds.filterMap Duty.active? := rfl
    rw [hcalls, hactive, List.count_cons, List.count_cons]
    exact Nat.add_le_add_right ih _

/-! ## The invariant -/

/-- A registration has no more calls in progress than polls past their entry. -/
theorem Orderly.count_le (h : Orderly s) (id : RegistrationId) :
    (s.outline.all.filterMap (Duty.calledFor? s.table)).count id ≤ s.outline.active.count id := by
  have hparked : ∀ parked : List (List Duty), (∀ ds ∈ parked, Nested s.table ds) → Nested s.table parked.flatten := by
    intro parked hall
    induction parked with
    | nil => exact Nested.nil
    | cons ds parked ih =>
      have hrest := ih fun ds' hmem => hall ds' (List.mem_cons_of_mem _ hmem)
      exact (hall ds List.mem_cons_self).append hrest
  exact (h.stack.append (hparked _ h.parked)).count_le id

/-- The duties stay nested when no poll steps. -/
theorem Shift.nested (hshift : Shift o o') (hstack : Nested table o.duties) (hparked : ∀ ds ∈ o.parked, Nested table ds) :
    Nested table o'.duties ∧ ∀ ds ∈ o'.parked, Nested table ds := by
  cases hshift with
  | same => exact ⟨hstack, hparked⟩
  | @parks above below first last h hlast hjob =>
    rw [h, hlast, List.append_assoc] at hstack
    obtain ⟨habove, hbelow⟩ := Nested.split hstack hjob
    refine ⟨hbelow, ?_⟩
    intro ds hds
    rcases List.mem_append.mp hds with hds | hds
    · exact hparked ds hds
    · rw [List.mem_singleton.mp hds, hlast]
      exact habove
  | @unparks above rest h =>
    rw [h] at hparked
    exact ⟨(hparked above List.mem_cons_self).append hstack, fun ds hds => hparked ds (List.mem_cons_of_mem _ hds)⟩
  | returns h =>
    rw [h] at hstack
    exact ⟨hstack.tail, hparked⟩
  | prunes => exact ⟨hstack, hparked⟩
  | submits _ => exact ⟨hstack, hparked⟩
  | starts _ _ => exact ⟨hstack.poll, hparked⟩

/-- The handles that wait for their turn waited for it before, or they were attached when the delivery began. -/
theorem Served.waiting (h : Served id s t) (ho : Orderly s) : ∀ d ∈ t.outline.deliveriesOf id, ∀ k ∈ d.waiting,
    ∃ handle, s.table.handles[k]? = some handle ∧ handle.registration = id := by
  cases h with
  | elsewhere _ _ _ hdeliveries =>
    rw [hdeliveries]
    exact fun d hd => ho.waiting hd
  | @begins captured r _ hr _ hafter =>
    rw [hafter]
    intro d hd k hk
    unfold begun? at hd
    split at hd
    · cases List.mem_singleton.mp hd
      obtain ⟨handle, hget, -, hregistration⟩ := (mem_handles_iff ho.linked hr k).mp hk
      exact ⟨handle, hget, hregistration⟩
    · cases hd
  | serves _ _ _ hbefore hafter =>
    rw [hafter]
    intro d hd k hk
    cases List.mem_singleton.mp hd
    exact ho.waiting (hbefore ▸ List.mem_singleton_self _) k (List.mem_cons_of_mem _ hk)
  | shuts _ _ _ _ hafter =>
    rw [hafter]
    exact fun _ hd => nomatch hd
  | ends _ _ _ hafter _ =>
    rw [hafter]
    exact fun _ hd => nomatch hd

/-- What the poll in control leaves nested. -/
theorem PollMove.nested (hmove : PollMove s below id owner gate stage s.signal t) (hx : Exclusive s) (ho : Orderly s)
    (hstack : s.stack = .polling id owner gate stage :: below) :
    Nested s.table t.outline.duties ∧ ∀ ds ∈ t.outline.parked, Nested s.table ds := by
  have hbelow : Nested s.table (s.popped below).outline.duties := by
    have hduties := ho.stack
    rcases outline_of_polling hstack with heq | ⟨-, heq⟩
    · rw [heq] at hduties
      exact hduties.tail
    · rwa [heq] at hduties
  have hparked : ∀ ds ∈ (s.popped below).outline.parked, Nested s.table ds := ho.parked
  generalize s.signal = signal at hmove
  cases hmove with
  | enters _ _ _ _ houtline =>
    rw [houtline]
    exact ⟨hbelow.poll, hparked⟩
  | compares _ _ _ _ houtline =>
    rw [houtline]
    exact ⟨hbelow.poll, hparked⟩
  | passes _ _ _ _ _ houtline =>
    rw [houtline]
    exact ⟨hbelow.poll, hparked⟩
  | @calls _ h waiting report _ _ _ handle _ _ _ hhandle _ _ _ _ houtline =>
    rw [houtline]
    refine ⟨?_, hparked⟩
    obtain ⟨other, hother, hregistration⟩ :=
      ho.waiting (hx.deliveriesOf_delivering hstack ▸ List.mem_singleton_self _) h List.mem_cons_self
    rw [hhandle] at hother
    cases hother
    subst hregistration
    exact Nested.call hhandle hbelow
  | ends _ _ _ houtline =>
    rw [outline_endPoll, houtline]
    exact ⟨hbelow, hparked⟩

/-- A move keeps the order: a call begins above its poll, and ends before the poll goes on. -/
theorem Move.orderly (hx : Exclusive s) (ho : Orderly s) (hm : Move s t) : Orderly t := by
  have hremembers := hm.edits.remembers
  have hnested : Nested s.table t.outline.duties ∧ ∀ ds ∈ t.outline.parked, Nested s.table ds := by
    rcases hm.rests_or_polls with ⟨hshift, -, -⟩ | ⟨id, owner, gate, stage, below, hstack, -, hmove⟩
    · exact hshift.nested ho.stack ho.parked
    · exact hmove.nested hx ho hstack
  refine ⟨hm.edits.linked ho.linked, ?_, hnested.1.remember hremembers, fun ds hds => (hnested.2 ds hds).remember hremembers⟩
  intro id d hd k hk
  obtain ⟨handle, hget, hregistration⟩ := (hm.served hx id).waiting ho d hd k hk
  obtain ⟨handle', hget', hsame, -⟩ := hremembers k handle hget
  exact ⟨handle', hget', hsame.trans hregistration⟩

/-- In a new session nobody is called. -/
theorem Opens.orderly {w : World} (h : Opens w s) : Orderly s := by
  have houtline : s.outline.duties = [] ∧ s.outline.parked = [] := by
    rw [outline, h.fresh.stack, h.fresh.parked]
    exact ⟨rfl, rfl⟩
  refine ⟨h.linked, ?_, ?_, ?_⟩
  · intro id d hd
    rw [Outline.deliveriesOf, Outline.all, houtline.1, houtline.2] at hd
    cases hd
  · rw [houtline.1]
    exact Nested.nil
  · rw [houtline.2]
    exact fun _ hds => absurd hds List.not_mem_nil

/-- Every run keeps both. -/
theorem orderly_of_run {w : World} (hs : Opens w s) (h : Run allowed s log t) : Exclusive t ∧ Orderly t :=
  h.keeps (P := fun s => Exclusive s ∧ Orderly s) (fun h hm => ⟨hm.exclusive h.1, hm.orderly h.1 h.2⟩)
    ⟨hs.exclusive, hs.orderly⟩

/-! ## Calls of one registration -/

/-- A frame calls for the same registration as its duty. -/
theorem calledFor?_eq (table : Table) (f : Frame) : (dutyOf? f).bind (Duty.calledFor? table) = calledFor? table f := by
  cases f with
  | polling id owner gate stage => cases owner <;> cases stage <;> rfl
  | _ => rfl

/-- So the calls in progress can be counted in the outline. -/
theorem callsInProgress_eq (s : Session) (id : RegistrationId) :
    s.callsInProgress id = (s.outline.all.filterMap (Duty.calledFor? s.table)).count id := by
  rw [outline_all, List.filterMap_filterMap, funext (calledFor?_eq s.table)]
  rfl

/-- There are no more calls in progress for a registration than polls past their entry. -/
theorem Orderly.callsInProgress_le (ho : Orderly t) (hx : Exclusive t) (id : RegistrationId) :
    t.callsInProgress id ≤ (t.table.isPolling id).toNat := by
  rw [callsInProgress_eq, ← hx id]
  exact ho.count_le id

/-- Where only one registration can call, its calls are all. -/
theorem callsAtRoot_le {root : Path} (h : ∀ k, t.table.rootOf? k = some root → k ≠ id → t.callsInProgress k = 0) :
    t.callsAtRoot root ≤ t.callsInProgress id := by
  rw [callsAtRoot, callsInProgress, List.count_filterMap]
  refine List.countP_mono_left fun k hk hroot => ?_
  by_contra hne
  have hnone := h k (by simpa using hroot) (by simpa using hne)
  exact List.count_eq_zero.mp hnone hk

/-- At most one call is in progress for a registration, and none while it is not polled. So at most one is in progress
for a root, as long as no more than one of the registrations that it has had is polled. -/
theorem calls_serial_of_run {w : World} (hs : Opens w s) (h : Run allowed s log t) :
    (∀ id, t.callsInProgress id ≤ 1 ∧ (t.table.isPolling id = false → t.callsInProgress id = 0)) ∧
    ∀ root id, (∀ k, t.table.rootOf? k = some root → k ≠ id → t.table.isPolling k = false) →
    t.callsAtRoot root ≤ 1 := by
  obtain ⟨hx, ho⟩ := orderly_of_run hs h
  have hone : ∀ id, t.callsInProgress id ≤ 1 := fun id => (ho.callsInProgress_le hx id).trans (Bool.toNat_le _)
  have hidle : ∀ id, t.table.isPolling id = false → t.callsInProgress id = 0 := by
    intro id hidle
    have hle := ho.callsInProgress_le hx id
    simpa [hidle] using hle
  refine ⟨fun id => ⟨hone id, hidle id⟩, fun root id hothers => ?_⟩
  exact (callsAtRoot_le fun k hroot hne => hidle k (hothers k hroot hne)).trans (hone id)

/-! ## Calls of one root -/

/-- A world like the hollow one, in which two observers wait in their first call. -/
def waiting : World where
  disk := hollow.disk
  scripts := [("a", [[.park]]), ("b", [[.park]])]

def waitingWatcher : Session :=
  (createRunning waiting {}).toOption.getD default

/-- An observer watches the directory, and a poll calls it with a new file. -/
def busyWith (s : Session) (observer path : String) : Session :=
  ((s.after (.watch (.path ⟨.root, ["w"]⟩) (.named observer (.text observer)) observer) 20).after
    (.put path (.file 1)) 0).after
    .pollNow 20

/-- The first observer waits in its call. -/
def busyWatcher : Session :=
  waitingWatcher.busyWith "a" "/w/x"

/-- The first observer is cancelled in its call, and the directory is watched and polled again for the second one. -/
def overlappingWatcher : Session :=
  (busyWatcher.after (.cancel "a") 0).busyWith "b" "/w/y"

/-- The watcher opens in its world. -/
theorem waitingWatcher_opens : Opens waiting waitingWatcher :=
  Opens.running_of_isSome (by decide +kernel)

/-- The busy session is reached by moves, if each of its actions ends before the next. -/
theorem Moves.busyWith {ms : List (Session × Session)} (h : Moves s ms t) (observer path : String) (hrest : t.step.isNone = true)
    (hwatched : (t.after (.watch (.path ⟨.root, ["w"]⟩) (.named observer (.text observer)) observer) 20).step.isNone = true)
    (hput : ((t.after (.watch (.path ⟨.root, ["w"]⟩) (.named observer (.text observer)) observer) 20).after
      (.put path (.file 1)) 0).step.isNone = true) : ∃ ms, Moves s ms (t.busyWith observer path) :=
  ⟨_, ((h.acts _ 20 hrest).acts _ 0 hwatched).acts _ 20 hput⟩

/-- The first observer is called on a run of the watcher. -/
theorem busyWatcher_moves : ∃ ms, Moves waitingWatcher ms busyWatcher :=
  (Moves.refl (s := waitingWatcher)).busyWith "a" "/w/x" (by decide +kernel) (by decide +kernel) (by decide +kernel)

/-- And so is the second one, after it. -/
theorem overlappingWatcher_run : ∃ log, Run (fun _ => True) waitingWatcher log overlappingWatcher := by
  obtain ⟨first, hfirst⟩ := busyWatcher_moves
  have hcancelled := hfirst.acts (.cancel "a") 0 (by decide +kernel)
  have hsecond := hcancelled.busyWith "b" "/w/y" (by decide +kernel) (by decide +kernel) (by decide +kernel)
  obtain ⟨second, hsecond⟩ := hsecond
  exact hsecond.run

/-- As long as the root has one registration, one call is in progress for it. Later the calls in progress belong to two
registrations that it has had, one call to each. -/
theorem calls_serial_of_run_overlapping :
    (busyWatcher.callsAtRoot ⟨.root, ["w"]⟩ ≤ 1 ∧ busyWatcher.callsInProgress 0 = 1) ∧
    overlappingWatcher.callsInProgress 0 ≤ 1 ∧ overlappingWatcher.callsInProgress 1 ≤ 1 ∧
    overlappingWatcher.callsInProgress 0 + overlappingWatcher.callsInProgress 1 = 2 := by
  obtain ⟨ms, hmoves⟩ := busyWatcher_moves
  obtain ⟨first, hbusy⟩ := hmoves.run
  obtain ⟨-, hroot⟩ := calls_serial_of_run waitingWatcher_opens hbusy
  have honly : ∀ k, busyWatcher.table.rootOf? k = some ⟨.root, ["w"]⟩ → k ≠ 0 →
    busyWatcher.table.isPolling k = false := by
    intro k hk hne
    have hsize : busyWatcher.table.registrations.size = 1 := by decide +kernel
    have hnone : busyWatcher.table.registrations[k]? = none :=
      Array.getElem?_eq_none (hsize ▸ Nat.one_le_iff_ne_zero.mpr hne)
    rw [Table.rootOf?, hnone] at hk
    cases hk
  obtain ⟨log, hrun⟩ := overlappingWatcher_run
  obtain ⟨hserial, -⟩ := calls_serial_of_run waitingWatcher_opens hrun
  exact ⟨⟨hroot _ 0 honly, by decide +kernel⟩, (hserial 0).1, (hserial 1).1, by decide +kernel⟩

/-- Calls for one root can overlap, when the root is watched again while an observer of before has not returned. -/
theorem calls_overlap : ¬∀ {w : World} {s t : Session} {log : List (RegistrationId × List Change)}, Opens w s →
    Run (fun _ => True) s log t → ∀ root, t.callsAtRoot root ≤ 1 := by
  intro hclaim
  obtain ⟨log, hrun⟩ := overlappingWatcher_run
  have hle := hclaim waitingWatcher_opens hrun ⟨.root, ["w"]⟩
  have htwo : overlappingWatcher.callsAtRoot ⟨.root, ["w"]⟩ = 2 := by decide +kernel
  omega

end DirWatch.Session
