import DirWatch.Proofs.Table.Baselines

/-!
# What cancellations leave

`Table.without` says at once what a table is without some of its handles: they are inactive and in no list, and a root whose
registration lists none but them is not watched. Handles that are cancelled one after another come to that
(`Linked.cancelAll_eq`), so their order does not matter (`Linked.cancelAll_perm`), and one of them alone is all that is gone
(`Linked.cancelled`).
-/

namespace DirWatch.Table

variable {t t' : Table} {h : HandleId} {id : RegistrationId} {root : Path} {gone : HandleId → Bool}

/-- A table without some of its handles. -/
def without (t : Table) (gone : HandleId → Bool) : Table where
  registrations := t.registrations.map fun r => { r with handles := r.handles.filter fun h => !gone h }
  handles := t.handles.mapIdx fun h handle => if gone h then { handle with active := false } else handle
  current := t.current.filter fun entry => (t.handlesOf entry.2).any fun h => !gone h

/-- Tables are the same if their lookups are. -/
theorem eq_of_lookups (hregistrations : ∀ id : RegistrationId, t.registrations[id]? = t'.registrations[id]?)
    (hhandles : ∀ h : HandleId, t.handles[h]? = t'.handles[h]?) (hcurrent : t.current = t'.current) : t = t' := by
  obtain ⟨registrations, handles, current⟩ := t
  obtain ⟨registrations', handles', current'⟩ := t'
  obtain rfl : registrations = registrations' := Array.ext_getElem? hregistrations
  obtain rfl : handles = handles' := Array.ext_getElem? hhandles
  obtain rfl : current = current' := hcurrent
  rfl

/-! ## Lookups in what is left -/

/-- A registration loses the handles that are gone. -/
theorem registrations_without (t : Table) (gone : HandleId → Bool) (id : RegistrationId) :
    (t.without gone).registrations[id]? =
      t.registrations[id]?.map fun r => { r with handles := r.handles.filter fun h => !gone h } :=
  Array.getElem?_map

theorem handles_without (t : Table) (gone : HandleId → Bool) (h : HandleId) :
    (t.without gone).handles[h]? =
      t.handles[h]?.map fun handle => if gone h then { handle with active := false } else handle :=
  Array.getElem?_mapIdx

/-- No list has them any more. -/
theorem handlesOf_without (t : Table) (gone : HandleId → Bool) (id : RegistrationId) :
    (t.without gone).handlesOf id = (t.handlesOf id).filter fun h => !gone h := by
  unfold handlesOf
  rw [registrations_without]
  cases t.registrations[id]? <;> rfl

/-- Polls do not see that they are gone. -/
theorem bare?_without (t : Table) (gone : HandleId → Bool) (id : RegistrationId) : (t.without gone).bare? id = t.bare? id := by
  rw [bare?, registrations_without, Option.map_map, bare?]
  rfl

/-- A root is watched as long as its registration lists a handle. -/
theorem current_without (t : Table) (gone : HandleId → Bool) :
    (t.without gone).current = t.current.filter fun entry => decide ((t.without gone).handlesOf entry.2 ≠ []) := by
  refine List.filter_congr fun entry _ => ?_
  rw [handlesOf_without, Bool.eq_iff_iff, decide_eq_true_eq, List.any_eq_true, ne_eq, List.filter_eq_nil_iff]
  simp

/-- Handles that go in two groups go together. -/
theorem without_without (t : Table) (p q : HandleId → Bool) : (t.without p).without q = t.without fun h => p h || q h := by
  refine eq_of_lookups (fun id => ?_) (fun h => ?_) ?_
  · rw [registrations_without, registrations_without, registrations_without, Option.map_map]
    congr 1
    funext r
    simp [Function.comp, List.filter_filter, Bool.and_comm]
  · rw [handles_without, handles_without, handles_without, Option.map_map]
    congr 1
    funext handle
    cases p h <;> cases q h <;> rfl
  · change ((t.current.filter _).filter _) = t.current.filter _
    rw [List.filter_filter]
    refine List.filter_congr fun entry _ => ?_
    rw [handlesOf_without, List.any_filter, Bool.eq_iff_iff]
    simp only [Bool.and_eq_true, List.any_eq_true, Bool.not_eq_true', Bool.or_eq_false_iff]
    constructor
    · rintro ⟨⟨h, hmem, hp, hq⟩, -⟩
      exact ⟨h, hmem, hp, hq⟩
    · rintro ⟨h, hmem, hp, hq⟩
      exact ⟨⟨h, hmem, hp, hq⟩, h, hmem, hp⟩

/-! ## Handles that are gone already -/

/-- A handle that does not exist or is not active is in no list. -/
theorem Consistent.not_listed (hc : t.Consistent) (hoff : t.isActive h = false) : h ∉ t.handlesOf id := by
  intro hlisted
  obtain ⟨handle, hget, hon, -⟩ := hc.listed hlisted
  simp only [isActive, hget] at hoff
  rw [hoff] at hon
  cases hon

/-- A table is the same without handles that are inactive or do not exist. -/
theorem Linked.without_inactive (hl : t.Linked) (hoff : ∀ h, gone h = true → t.isActive h = false) : t.without gone = t := by
  have hunlisted : ∀ id, ∀ h ∈ t.handlesOf id, (!gone h) = true := by
    intro id h hmem
    rw [Bool.not_eq_true', ← Bool.not_eq_true]
    exact fun hgone => hl.not_listed (hoff h hgone) hmem
  refine eq_of_lookups (fun id => ?_) (fun h => ?_) ?_
  · rw [registrations_without]
    cases hr : t.registrations[id]? with
    | none => rfl
    | some r =>
      have hlist : t.handlesOf id = r.handles := by rw [handlesOf, hr]
      have hkept : r.handles.filter (fun h => !gone h) = r.handles := List.filter_eq_self.mpr (hlist ▸ hunlisted id)
      exact congrArg (fun handles => some { r with handles }) hkept
  · rw [handles_without]
    cases hget : t.handles[h]? with
    | none => rfl
    | some handle =>
      cases hgone : gone h with
      | false => rfl
      | true =>
        have hinactive := hoff h hgone
        simp only [isActive, hget] at hinactive
        simp [← hinactive]
  · refine List.filter_eq_self.mpr fun entry hentry => ?_
    obtain ⟨h, hmem⟩ := List.exists_mem_of_ne_nil _ (hl.nonempty hentry)
    exact List.any_eq_true.mpr ⟨h, hmem, hunlisted entry.2 h hmem⟩

/-- Cancelling an inactive handle does nothing. -/
theorem cancel_inactive (hoff : t.isActive h = false) : t.cancel h = (t, .idle) := by
  unfold cancel
  cases hget : t.handles[h]? with
  | none => rfl
  | some handle =>
    simp only [isActive, hget] at hoff
    simp only [hoff, Bool.not_false, if_true]

/-! ## Cancelling one handle -/

/-- Deactivation does to the handles and the lists what it takes to be without the handle, and keeps the roots. -/
theorem Consistent.deactivate_eq (hc : t.Consistent) {handle : Handle} (hget : t.handles[h]? = some handle) :
    t.deactivate h = { t.without (· == h) with current := t.current } := by
  refine eq_of_lookups (fun id => ?_) (fun k => ?_) (current_deactivate t h)
  · have hmodify : (t.deactivate h).registrations[id]? = if handle.registration = id then
        t.registrations[id]?.map (fun r => { r with handles := r.handles.filter (· != h) }) else t.registrations[id]? := by
      rw [Table.deactivate, hget]
      exact Array.getElem?_modify
    refine hmodify.trans (Eq.trans ?_ (registrations_without t _ id).symm)
    split
    · rfl
    · rename_i hne
      cases hr : t.registrations[id]? with
      | none => rfl
      | some r =>
        -- only its own registration lists the handle
        have hkept : r.handles.filter (· != h) = r.handles := by
          refine List.filter_eq_self.mpr fun k hk => bne_iff_ne.mpr ?_
          rintro rfl
          have hlisted : k ∈ t.handlesOf id := by
            rw [handlesOf, hr]
            exact hk
          obtain ⟨other, hother, -, hregistration⟩ := hc.listed hlisted
          rw [hget] at hother
          cases hother
          exact hne hregistration
        exact congrArg (fun handles => some { r with handles }) hkept.symm
  · refine (handles_deactivate hget k).trans (Eq.trans ?_ (handles_without t _ k).symm)
    by_cases heq : h = k
    · subst heq
      rw [if_pos rfl, hget]
      simp
    · rw [if_neg heq, beq_false_of_ne (Ne.symm heq)]
      cases t.handles[k]? <;> rfl

/-- Only one root stands for a registration in force. -/
theorem Consistent.filter_root (hc : t.Consistent) (hforce : (root, id) ∈ t.current) :
    t.current.filter (·.1 != root) = t.current.filter (·.2 != id) := by
  refine List.filter_congr fun entry hentry => ?_
  have hentry : (entry.1, entry.2) ∈ t.current := hentry
  rw [Bool.eq_iff_iff, bne_iff_ne, bne_iff_ne, not_iff_not]
  constructor
  · intro heq
    have hfind := (find?_eq_some hc.roots_nodup).mpr hentry
    rw [heq, (find?_eq_some hc.roots_nodup).mpr hforce] at hfind
    exact (Option.some.inj hfind).symm
  · intro heq
    have hroot := hc.root_eq hentry
    rw [heq, hc.root_eq hforce] at hroot
    exact (Option.some.inj hroot).symm

/-- What cancelling an active handle does. -/
theorem Linked.cancel_active (hl : t.Linked) {handle : Handle} (hget : t.handles[h]? = some handle)
    (hactive : handle.active = true) (hforce : (root, handle.registration) ∈ t.current) :
    t.cancel h = if (t.deactivate h).handlesOf handle.registration = [] then
      ({ t.deactivate h with current := t.current.filter (·.1 != root) }, .removed root)
      else (t.deactivate h, .detached root) := by
  obtain ⟨r, hr, hroot⟩ := Option.map_eq_some_iff.mp (hl.root_eq hforce)
  have hfind : (t.deactivate h).find? root = some handle.registration := by
    rw [find?, current_deactivate]
    exact (find?_eq_some hl.roots_nodup).mpr hforce
  simp only [Table.cancel, hget, hactive, Bool.not_true, Bool.false_eq_true, if_false, hr, hroot, hfind, beq_self_eq_true,
    Bool.and_true, List.isEmpty_iff, current_deactivate]

/-- The roots that stay when an active handle goes. -/
theorem Linked.current_without_active (hl : t.Linked) {handle : Handle} (hget : t.handles[h]? = some handle)
    (hforce : (root, handle.registration) ∈ t.current) : (t.without (· == h)).current =
      if (t.deactivate h).handlesOf handle.registration = [] then t.current.filter (·.1 != root) else t.current := by
  have hlists : ∀ id, (t.without (· == h)).handlesOf id = (t.deactivate h).handlesOf id := by
    intro id
    rw [hl.deactivate_eq hget]
    rfl
  have hothers : ∀ entry ∈ t.current, entry.2 ≠ handle.registration → (t.deactivate h).handlesOf entry.2 ≠ [] := by
    intro entry hentry hne
    rw [handlesOf_deactivate hget, if_neg (Ne.symm hne)]
    exact hl.nonempty hentry
  rw [current_without, funext hlists]
  split
  · rename_i hnil
    rw [hl.filter_root hforce]
    refine List.filter_congr fun entry hentry => ?_
    rw [Bool.eq_iff_iff, decide_eq_true_eq, bne_iff_ne]
    exact ⟨fun hsome heq => hsome (heq ▸ hnil), hothers entry hentry⟩
  · rename_i hsome
    refine List.filter_eq_self.mpr fun entry hentry => decide_eq_true ?_
    by_cases heq : entry.2 = handle.registration
    · rw [heq]
      exact hsome
    · exact hothers entry hentry heq

/-- Cancelling a handle comes to a table without it. -/
theorem Linked.cancel_eq (hl : t.Linked) (h : HandleId) : (t.cancel h).1 = t.without (· == h) := by
  cases hon : t.isActive h with
  | false =>
    rw [cancel_inactive hon, hl.without_inactive]
    intro k hk
    rw [beq_iff_eq.mp hk]
    exact hon
  | true =>
    cases hget : t.handles[h]? with
    | none =>
      simp only [isActive, hget] at hon
      cases hon
    | some handle =>
      simp only [isActive, hget] at hon
      obtain ⟨-, root, -, hforce⟩ := hl.active hget hon
      have hcurrent := hl.current_without_active hget hforce
      rw [hl.cancel_active hget hon hforce]
      split
      · rename_i hnil
        rw [if_pos hnil] at hcurrent
        rw [hl.deactivate_eq hget, ← hcurrent]
      · rename_i hsome
        rw [if_neg hsome] at hcurrent
        rw [hl.deactivate_eq hget, ← hcurrent]

/-- One handle was cancelled, and that is all that happened. -/
structure CancelledOnly (t : Table) (h : HandleId) (t' : Table) : Prop where
  /-- The handle is inactive, and stands for the same attachment. -/
  handle : t'.handles[h]? = t.handles[h]?.map fun handle => { handle with active := false }
  /-- The other handles are as they were. -/
  others : ∀ k ≠ h, t'.handles[k]? = t.handles[k]?
  /-- The lists have lost this handle, and the others stand there in the same order. -/
  lists : ∀ id, t'.handlesOf id = (t.handlesOf id).filter (· != h)
  /-- The registrations are still of the same roots with the same baselines. -/
  bare : ∀ id, t'.bare? id = t.bare? id
  /-- A root that is not watched any more is the one whose registration listed only this handle, and the other roots stay
  where they were, with their registrations. -/
  current : t'.current = t.current.filter fun entry => t.handlesOf entry.2 != [h]
  /-- A root has left the table if the handle was active and the last one of the registration in force for the root. -/
  removed : ∀ root ∈ t.roots, root ∉ t'.roots ↔ t.isActive h = true ∧ ∃ id, t.find? root = some id ∧
    t.handlesOf id = [h]

/-- Without a handle a list is empty if it lists only this one. -/
theorem Consistent.filter_eq_nil_iff (hc : t.Consistent) (hsome : t.handlesOf id ≠ []) :
    (t.handlesOf id).filter (fun k => !(k == h)) = [] ↔ t.handlesOf id = [h] := by
  constructor
  · intro hnil
    have hall : ∀ k ∈ t.handlesOf id, k = h := by
      intro k hk
      simpa using List.filter_eq_nil_iff.mp hnil k hk
    have hordered := hc.ordered id
    cases hlist : t.handlesOf id with
    | nil => exact absurd hlist hsome
    | cons k rest =>
      rw [hlist] at hall hordered
      obtain rfl := hall k List.mem_cons_self
      cases rest with
      | nil => rfl
      | cons l rest =>
        have hlt := List.rel_of_pairwise_cons hordered (List.mem_cons_self (a := l))
        rw [hall l (List.mem_cons_of_mem _ List.mem_cons_self)] at hlt
        exact absurd hlt (Nat.lt_irrefl k)
  · intro hone
    rw [hone]
    simp

/-- A handle that a list has is active. -/
theorem Consistent.isActive_of_listed (hc : t.Consistent) (hmem : h ∈ t.handlesOf id) : t.isActive h = true := by
  obtain ⟨handle, hget, hon, -⟩ := hc.listed hmem
  simp only [isActive, hget]
  exact hon

/-- To cancel a handle is to take off this one only. -/
theorem Linked.cancelled (hl : t.Linked) (h : HandleId) : CancelledOnly t h (t.cancel h).1 := by
  have hcurrent : (t.without (· == h)).current = t.current.filter fun entry => t.handlesOf entry.2 != [h] := by
    rw [current_without]
    refine List.filter_congr fun entry hentry => ?_
    rw [handlesOf_without, Bool.eq_iff_iff, decide_eq_true_eq, bne_iff_ne, not_iff_not]
    exact hl.filter_eq_nil_iff (hl.nonempty hentry)
  rw [hl.cancel_eq]
  refine ⟨?_, ?_, fun id => handlesOf_without t _ id, bare?_without t _, hcurrent, ?_⟩
  · rw [handles_without]
    simp
  · intro k hne
    rw [handles_without, beq_false_of_ne hne]
    cases t.handles[k]? <;> rfl
  · intro root hroot
    obtain ⟨⟨root, id⟩, hentry, rfl⟩ := List.mem_map.mp hroot
    have hfind := (find?_eq_some hl.roots_nodup).mpr hentry
    have hstays : root ∈ (t.without (· == h)).roots ↔ t.handlesOf id ≠ [h] := by
      rw [roots, hcurrent, List.mem_map]
      constructor
      · rintro ⟨⟨root, other⟩, hmem, rfl⟩
        obtain ⟨hmem, hkept⟩ := List.mem_filter.mp hmem
        rw [(find?_eq_some hl.roots_nodup).mpr hmem] at hfind
        cases hfind
        exact bne_iff_ne.mp hkept
      · intro hne
        exact ⟨(root, id), List.mem_filter.mpr ⟨hentry, bne_iff_ne.mpr hne⟩, rfl⟩
    rw [hstays, not_not]
    constructor
    · intro hone
      exact ⟨hl.isActive_of_listed (hone ▸ List.mem_singleton_self h), id, hfind, hone⟩
    · rintro ⟨-, other, hother, hone⟩
      rw [hfind] at hother
      cases hother
      exact hone

/-! ## Cancelling several handles -/

/-- Cancelling handles one after another comes to a table without all of them. -/
theorem Linked.cancelAll_eq (hl : t.Linked) (hs : List HandleId) : (t.cancelAll hs).1 = t.without hs.contains := by
  induction hs generalizing t with
  | nil => exact (hl.without_inactive fun h hh => absurd hh Bool.false_ne_true).symm
  | cons h hs ih =>
    have hcons : (t.cancelAll (h :: hs)).1 = ((t.cancel h).1.cancelAll hs).1 := rfl
    rw [hcons, ih (hl.cancel h), hl.cancel_eq, without_without]
    rfl

/-- The order in which handles are cancelled does not matter. -/
theorem Linked.cancelAll_perm (hl : t.Linked) {hs hs' : List HandleId} (hperm : hs.Perm hs') :
    (t.cancelAll hs).1 = (t.cancelAll hs').1 := by
  rw [hl.cancelAll_eq, hl.cancelAll_eq]
  congr 1
  funext k
  exact hperm.contains_eq

/-- A handle that was cancelled can be cancelled again at any time, and nothing happens. -/
theorem Linked.cancel_again (hl : t.Linked) (hexists : h < t.handles.size) (hedits : Edits (t.cancel h).1 t') :
    t'.cancel h = (t', .idle) := by
  have hget := (hl.cancelled h).handle
  rw [Array.getElem?_eq_getElem hexists] at hget
  refine cancel_inactive ?_
  rw [isActive, hedits.retired h _ hget rfl]

/-- The attachments of an observer at a root are the listed handles of equal observers. -/
theorem mem_attachments_iff {observer : Observer} : h ∈ t.attachments root observer ↔ ∃ id handle,
    t.find? root = some id ∧ h ∈ t.handlesOf id ∧ t.handles[h]? = some handle ∧
    handle.observer.sameAs observer = true := by
  unfold attachments
  cases hfind : t.find? root with
  | none => simp
  | some id =>
    rw [List.mem_filter]
    constructor
    · rintro ⟨hmem, hsame⟩
      cases hget : t.handles[h]? with
      | none =>
        rw [hget] at hsame
        cases hsame
      | some handle =>
        rw [hget] at hsame
        exact ⟨id, handle, rfl, hmem, rfl, hsame⟩
    · rintro ⟨other, handle, hother, hmem, hget, hsame⟩
      cases hother
      rw [hget]
      exact ⟨hmem, hsame⟩

/-- An attachment is cancelled once when they are cancelled all. -/
theorem Consistent.nodup_attachments (hc : t.Consistent) (root : Path) (observer : Observer) :
    (t.attachments root observer).Nodup := by
  unfold attachments
  cases t.find? root with
  | none => exact List.nodup_nil
  | some id => exact ((hc.ordered id).imp Nat.ne_of_lt).filter _

end DirWatch.Table
