import DirWatch.Proofs.Table.Links

/-!
# Attachments that are taken back

An observer that is attached and taken off again at once leaves a cancelled handle behind, and the registration if that
was made for it (`cancel_join`). Nobody can see either of them: `Undone` says that the tables are the same but for what
is dead from the beginning. Every active handle of an observer at a root is among those that are taken off on demand
(`Linked.mem_attachments`).
-/

namespace DirWatch.Table

/-- What was in a table is still there and as it was, and everything that has come to it is dead: a new registration has
no handles and no new handle is active. -/
structure Undone (t t' : Table) : Prop where
  /-- The roots are watched by the same registrations, in the same order. -/
  current : t'.current = t.current
  registrations : ∀ {id : RegistrationId} {r : Registration}, t.registrations[id]? = some r → t'.registrations[id]? = some r
  handles : ∀ {h : HandleId} {handle : Handle}, t.handles[h]? = some handle → t'.handles[h]? = some handle
  newRegistrations : ∀ {id : RegistrationId} {r : Registration}, t.registrations[id]? = none →
    t'.registrations[id]? = some r → r.handles = []
  newHandles : ∀ {h : HandleId} {handle : Handle}, t.handles[h]? = none → t'.handles[h]? = some handle →
    handle.active = false

variable {t t' : Table} {id : RegistrationId} {r : Registration} {root : Path}

theorem Undone.refl (t : Table) : Undone t t where
  current := rfl
  registrations := fun h => h
  handles := fun h => h
  newRegistrations := fun hnone hr => by
    rw [hnone] at hr
    cases hr
  newHandles := fun hnone hhandle => by
    rw [hnone] at hhandle
    cases hhandle

/-- The new handle is active, for its observer. -/
theorem newHandle_join (t : Table) (id : RegistrationId) (observer : Observer) :
    (t.join id observer).1.handles[t.handles.size]? = some { registration := id, observer } := by
  rw [handles_join, if_pos rfl]

theorem get_join (hr : t.registrations[id]? = some r) (observer : Observer) :
    (t.join id observer).1.registrations[id]? = some { r with handles := r.handles ++ [t.handles.size] } := by
  have hmodify := registrations_modify (t := t) id (fun r => { r with handles := r.handles ++ [t.handles.size] }) id
  rw [if_pos rfl, hr] at hmodify
  exact hmodify

/-- A new handle that is made inactive at once is all that is new. -/
theorem deactivate_join (hr : t.registrations[id]? = some r) (hfresh : t.handles.size ∉ r.handles) (observer : Observer) :
    (t.join id observer).1.deactivate t.handles.size =
      { t with handles := t.handles.push { registration := id, observer, active := false } } := by
  have hhandle := newHandle_join t id observer
  have hback : (r.handles ++ [t.handles.size]).filter (· != t.handles.size) = r.handles := by
    have hkeep : ∀ h ∈ r.handles, (h != t.handles.size) = true := by
      intro h hh
      rw [bne_iff_ne]
      rintro rfl
      exact hfresh hh
    rw [List.filter_append, List.filter_eq_self.mpr hkeep]
    simp
  have hregistrations : ((t.join id observer).1.deactivate t.handles.size).registrations = t.registrations := by
    rw [deactivate, hhandle]
    refine Array.ext_getElem? fun k => (registrations_modify (t := (t.join id observer).1.modifyHandle _ _) id _ k).trans ?_
    change (if id = k then ((t.join id observer).1.registrations[k]?).map _ else (t.join id observer).1.registrations[k]?) = _
    split
    · rename_i heq
      subst heq
      rw [get_join hr, hr, Option.map_some, hback]
    · rename_i hne
      exact (registrations_modify id _ k).trans (if_neg hne)
  have hhandles : ((t.join id observer).1.deactivate t.handles.size).handles =
      t.handles.push { registration := id, observer, active := false } := by
    refine Array.ext_getElem? fun k => ?_
    rw [handles_deactivate hhandle, handles_join, Array.getElem?_push]
    by_cases heq : k = t.handles.size
    · rw [if_pos heq.symm, if_pos heq]
    · rw [if_neg (Ne.symm heq), if_neg heq, if_neg heq]
  have hcurrent : ((t.join id observer).1.deactivate t.handles.size).current = t.current := current_deactivate _ _
  rw [← hregistrations, ← hhandles, ← hcurrent]

/-- A handle that is attached and cancelled at once leaves its registration as it was. If that has no other handle and
is in force, its root leaves the table. -/
theorem cancel_join (hr : t.registrations[id]? = some r) (hfresh : t.handles.size ∉ r.handles) (observer : Observer) :
    ((t.join id observer).1.cancel (t.join id observer).2).1 =
      { t with
        handles := t.handles.push { registration := id, observer, active := false }
        current := if r.handles.isEmpty && t.find? r.root == some id then t.current.filter (·.1 != r.root) else t.current } := by
  have hlists : ({ t with handles := t.handles.push { registration := id, observer, active := false } } : Table).handlesOf id =
      r.handles := by
    unfold handlesOf
    rw [show ({ t with handles := _ } : Table).registrations[id]? = some r from hr]
  rw [show (t.join id observer).2 = t.handles.size from rfl, Table.cancel, newHandle_join]
  dsimp only
  rw [if_neg (by decide), get_join hr, deactivate_join hr hfresh]
  dsimp only
  rw [hlists]
  by_cases hlast : (r.handles.isEmpty && t.find? r.root == some id) = true
  · rw [if_pos hlast]
    exact congrArg Prod.fst (if_pos hlast)
  · rw [if_neg hlast]
    exact congrArg Prod.fst (if_neg hlast)

/-- New handles are dead when they come. -/
theorem newHandle_dead {handle handle' : Handle} {h : HandleId} (hdead : handle.active = false) (hnone : t.handles[h]? = none)
    (hget : (t.handles.push handle)[h]? = some handle') : handle'.active = false := by
  rw [Array.getElem?_push] at hget
  split at hget
  · cases hget
    exact hdead
  · rw [hnone] at hget
    cases hget

/-- Old handles stay when one comes. -/
theorem oldHandle_kept {handle handle' : Handle} {h : HandleId} (hget : t.handles[h]? = some handle') :
    (t.handles.push handle)[h]? = some handle' := by
  have hlt := (Array.getElem?_eq_some_iff.mp hget).1
  rw [Array.getElem?_push, if_neg (Nat.ne_of_lt hlt), hget]

/-- An observer that joins a registration in force and is taken off at once leaves nothing alive. -/
theorem Linked.undone_join (hl : t.Linked) (hid : t.find? root = some id) (observer : Observer) :
    Undone t ((t.join id observer).1.cancel (t.join id observer).2).1 := by
  have hmem := (find?_eq_some hl.roots_nodup).mp hid
  obtain ⟨r, hr, -⟩ := Option.map_eq_some_iff.mp (hl.root_eq hmem)
  have hlist : t.handlesOf id = r.handles := by rw [handlesOf, hr]
  have hfresh : t.handles.size ∉ r.handles := fun hlisted => Nat.lt_irrefl _ (hl.lt_of_listed (hlist ▸ hlisted))
  have hnonempty : r.handles.isEmpty = false := List.isEmpty_eq_false_iff.mpr (hlist ▸ hl.nonempty hmem)
  rw [cancel_join hr hfresh, hnonempty]
  exact ⟨rfl, (Undone.refl t).registrations, oldHandle_kept, (Undone.refl t).newRegistrations, newHandle_dead rfl⟩

/-- A root that was unknown is found under its new registration. -/
theorem Consistent.find?_register (hc : t.Consistent) (hnone : t.find? root = none) (baseline : Snapshot) :
    (t.register root baseline).1.find? root = some (t.register root baseline).2 := by
  rw [find?_eq_some (hc.register hnone baseline).roots_nodup, current_register]
  exact List.mem_append_right _ (List.mem_singleton_self _)

/-- An observer for which a root is registered and that is taken off at once leaves nothing alive. -/
theorem Consistent.undone_register (hc : t.Consistent) (hnone : t.find? root = none) (baseline : Snapshot) (observer : Observer) :
    Undone t (((t.register root baseline).1.join (t.register root baseline).2 observer).1.cancel
      ((t.register root baseline).1.join (t.register root baseline).2 observer).2).1 := by
  have hregistered : (t.register root baseline).1.registrations[t.registrations.size]? = some { root, baseline } := by
    exact Array.getElem?_push_size
  have hfind : (t.register root baseline).1.find? root = some t.registrations.size := hc.find?_register hnone baseline
  have hback : (t.current ++ [(root, t.registrations.size)]).filter (·.1 != root) = t.current := by
    have hkeep : ∀ p ∈ t.current, (p.1 != root) = true := by
      intro p hp
      rw [bne_iff_ne]
      rintro rfl
      exact find?_eq_none.mp hnone (List.mem_map_of_mem hp)
    rw [List.filter_append, List.filter_eq_self.mpr hkeep]
    simp
  rw [show (t.register root baseline).2 = t.registrations.size from rfl, cancel_join hregistered List.not_mem_nil, hfind]
  refine ⟨?_, ?_, oldHandle_kept, ?_, newHandle_dead rfl⟩
  · rw [if_pos (by simp), current_register, hback]
  · intro k r hr
    have hlt := (Array.getElem?_eq_some_iff.mp hr).1
    refine Array.getElem?_push.trans ?_
    rw [if_neg (Nat.ne_of_lt hlt), hr]
  · intro k r hold hr
    have hr : (t.registrations.push { root, baseline })[k]? = some r := hr
    rw [Array.getElem?_push] at hr
    split at hr
    · cases hr
      rfl
    · rw [hold] at hr
      cases hr

/-- An active handle is among the attachments of its observer to its root. -/
theorem Linked.mem_attachments (hl : t.Linked) {h : HandleId} {handle : Handle} (hget : t.handles[h]? = some handle)
    (hactive : handle.active = true) (hroot : t.rootOf? handle.registration = some root) {observer : Observer}
    (hsame : handle.observer.sameAs observer = true) : h ∈ t.attachments root observer := by
  obtain ⟨hlisted, other, hother, hmem⟩ := hl.active hget hactive
  obtain rfl : root = other := Option.some.inj (hroot.symm.trans hother)
  rw [attachments, (find?_eq_some hl.roots_nodup).mpr hmem]
  refine List.mem_filter.mpr ⟨hlisted, ?_⟩
  rw [hget]
  exact hsame

end DirWatch.Table
