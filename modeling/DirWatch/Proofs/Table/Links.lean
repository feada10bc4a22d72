import DirWatch.Table
import Mathlib.Data.List.Basic
import Mathlib.Data.List.Nodup
import Mathlib.Logic.Relation

/-!
# The links of a table

A table links handles, the lists of registrations and the registrations in force: `Table.Linked` says how. `Table.Edit` is
one change of a table, as it is made while nothing else can see it: an attachment, with or without a new registration, a
cancellation, a clearing, or a change to the state of a poll. Every edit keeps the links (`Edit.linked`) and leaves a
cancelled handle as it is (`Edit.retired`).
-/

namespace DirWatch.Table

/-- The root of a registration. -/
def rootOf? (t : Table) (id : RegistrationId) : Option Path :=
  t.registrations[id]?.map (·.root)

/-- The handles, the lists of the registrations and the registrations in force agree. -/
structure Consistent (t : Table) : Prop where
  /-- No root has two registrations in force. -/
  roots_nodup : t.roots.Nodup
  /-- A registration in force stands under its own root. -/
  root_eq : ∀ {root id}, (root, id) ∈ t.current → t.rootOf? id = some root
  /-- A listed handle is active and belongs to the registration that lists it. -/
  listed : ∀ {id h}, h ∈ t.handlesOf id →
    ∃ handle, t.handles[h]? = some handle ∧ handle.active = true ∧ handle.registration = id
  /-- Handles are listed once, in the order in which they were attached. -/
  ordered : ∀ id, (t.handlesOf id).Pairwise (· < ·)
  /-- An active handle is listed in its registration, and that one is in force. -/
  active : ∀ {h handle}, t.handles[h]? = some handle → handle.active = true →
    h ∈ t.handlesOf handle.registration ∧
      ∃ root, t.rootOf? handle.registration = some root ∧ (root, handle.registration) ∈ t.current

/-- The links of a table between two changes: a registration in force also has a handle. -/
structure Linked (t : Table) : Prop extends Consistent t where
  nonempty : ∀ {root id}, (root, id) ∈ t.current → t.handlesOf id ≠ []

/-- Cancelled handles stay as they are. -/
def Retired (t t' : Table) : Prop :=
  ∀ (h : HandleId) (handle : Handle), t.handles[h]? = some handle → handle.active = false → t'.handles[h]? = some handle

theorem Retired.refl (t : Table) : Retired t t :=
  fun _ _ hget _ => hget

/-- A cancelled handle that two changes in a row leave as it is, is left so by both together. -/
theorem Retired.trans {t t' t'' : Table} (h : Retired t t') (h' : Retired t' t'') : Retired t t'' :=
  fun k handle hget hoff => h' k handle (h k handle hget hoff) hoff

/-- One change of a table. -/
inductive Edit (t : Table) : Table → Prop
  | join {root : Path} {id : RegistrationId} (hid : t.find? root = some id) (observer : Observer) :
    Edit t (t.join id observer).1
  | register {root : Path} (hnone : t.find? root = none) (baseline : Snapshot) (observer : Observer) :
    Edit t ((t.register root baseline).1.join (t.register root baseline).2 observer).1
  | cancel (h : HandleId) : Edit t (t.cancel h).1
  | clear : Edit t t.clear
  | setPolling (id : RegistrationId) (polling : Bool) : Edit t (t.setPolling id polling)
  | setBaseline (id : RegistrationId) (baseline : Snapshot) : Edit t (t.setBaseline id baseline)

variable {t : Table}

/-! ## Lookups -/

/-- With no root twice, the lookup finds the registration in force. -/
theorem find?_eq_some (h : t.roots.Nodup) {root : Path} {id : RegistrationId} :
    t.find? root = some id ↔ (root, id) ∈ t.current := by
  unfold find? roots at *
  generalize t.current = l at *
  induction l with
  | nil => simp
  | cons p rest ih =>
    obtain ⟨other, k⟩ := p
    rw [List.map_cons, List.nodup_cons] at h
    rw [List.lookup_cons, List.mem_cons]
    by_cases hroot : root = other
    · subst hroot
      rw [beq_self_eq_true]
      constructor
      · rintro ⟨⟩
        exact Or.inl rfl
      · rintro (heq | hmem)
        · cases heq
          rfl
        · exact absurd (List.mem_map_of_mem hmem) h.1
    · rw [beq_eq_false_iff_ne.mpr hroot]
      have hne : (root, id) ≠ (other, k) := fun heq => hroot (congrArg Prod.fst heq)
      rw [or_iff_right hne]
      exact ih h.2

/-- The lookup finds nothing just where no registration is in force. -/
theorem find?_eq_none {root : Path} : t.find? root = none ↔ root ∉ t.roots := by
  rw [find?, List.lookup_eq_none_iff, roots, List.mem_map]
  constructor
  · rintro h ⟨p, hp, rfl⟩
    simpa using h p hp
  · intro h p hp
    rw [bne_iff_ne]
    rintro rfl
    exact h ⟨p, hp, rfl⟩

/-! ## What each change does to the lookups -/

/-- A change to one registration leaves the others alone. -/
theorem registrations_modify (id : RegistrationId) (f : Registration → Registration) (k : RegistrationId) :
    (t.modifyRegistration id f).registrations[k]? =
      if id = k then t.registrations[k]?.map f else t.registrations[k]? :=
  Array.getElem?_modify

/-- A change of a registration that keeps its root. -/
theorem rootOf?_modify (id : RegistrationId) {f : Registration → Registration} (hf : ∀ r, (f r).root = r.root)
    (k : RegistrationId) : (t.modifyRegistration id f).rootOf? k = t.rootOf? k := by
  rw [rootOf?, registrations_modify]
  split
  · rw [Option.map_map, rootOf?]
    congr 1
    funext r
    exact hf r
  · rfl

/-- A change of the list of a registration; without the registration there is no list to change. -/
theorem handlesOf_modify (id : RegistrationId) (f : List HandleId → List HandleId)
    (hnil : t.registrations[id]? = none → f [] = []) {g : Registration → Registration}
    (hg : ∀ r, (g r).handles = f r.handles) (k : RegistrationId) :
    (t.modifyRegistration id g).handlesOf k = if id = k then f (t.handlesOf k) else t.handlesOf k := by
  unfold handlesOf
  rw [registrations_modify]
  by_cases hid : id = k
  · subst hid
    rw [if_pos rfl, if_pos rfl]
    cases hr : t.registrations[id]? with
    | none => exact (hnil hr).symm
    | some r => exact hg r
  · rw [if_neg hid, if_neg hid]

/-! ### Deactivation -/

section Deactivate

variable {h : HandleId} {handle : Handle} (hget : t.handles[h]? = some handle)

include hget

/-- Deactivation changes one handle, and of that one only whether it is active. -/
theorem handles_deactivate (k : HandleId) : (t.deactivate h).handles[k]? =
    if h = k then some { handle with active := false } else t.handles[k]? := by
  have hcomp : (t.deactivate h).handles = t.handles.modify h fun handle => { handle with active := false } := by
    rw [deactivate, hget]
    rfl
  rw [hcomp, Array.getElem?_modify]
  split
  · rename_i heq
    rw [← heq, hget]
    rfl
  · rfl

/-- The list of its registration loses the handle, every other list stays. -/
theorem handlesOf_deactivate (id : RegistrationId) : (t.deactivate h).handlesOf id =
    if handle.registration = id then (t.handlesOf id).filter (· != h) else t.handlesOf id := by
  rw [deactivate, hget]
  exact handlesOf_modify handle.registration (fun l => l.filter (· != h)) (fun _ => rfl) (fun _ => rfl) id

end Deactivate

/-- The registrations in force stay, also one whose list is empty now. -/
@[simp] theorem current_deactivate (t : Table) (h : HandleId) : (t.deactivate h).current = t.current := by
  rw [deactivate]
  cases t.handles[h]? <;> rfl

/-- So do their roots. -/
@[simp] theorem roots_deactivate (t : Table) (h : HandleId) : (t.deactivate h).roots = t.roots := by
  rw [roots, current_deactivate, roots]

/-- A registration keeps its root. -/
@[simp] theorem rootOf?_deactivate (t : Table) (h : HandleId) (id : RegistrationId) :
    (t.deactivate h).rootOf? id = t.rootOf? id := by
  rw [deactivate]
  cases t.handles[h]? with
  | none => rfl
  | some handle =>
    have hmodify := @rootOf?_modify (t.modifyHandle h fun handle => { handle with active := false }) handle.registration
      (fun r => { r with handles := r.handles.filter (· != h) }) (fun _ => rfl) id
    exact hmodify

/-- Deactivation takes the handle off all lists, where it is listed at all. -/
theorem Consistent.mem_handlesOf_deactivate (hl : t.Consistent) {h k : HandleId} {id : RegistrationId} :
    k ∈ (t.deactivate h).handlesOf id ↔ k ∈ t.handlesOf id ∧ k ≠ h := by
  cases hget : t.handles[h]? with
  | none =>
    rw [deactivate, hget]
    refine ⟨fun hk => ⟨hk, ?_⟩, fun hk => hk.1⟩
    rintro rfl
    obtain ⟨handle, hhandle, -⟩ := hl.listed hk
    rw [hget] at hhandle
    cases hhandle
  | some handle =>
    rw [handlesOf_deactivate hget]
    split
    · simp
    · rename_i hne
      refine ⟨fun hk => ⟨hk, ?_⟩, fun hk => hk.1⟩
      rintro rfl
      obtain ⟨other, hother, -, hreg⟩ := hl.listed hk
      rw [hget] at hother
      cases hother
      exact hne hreg

/-- Deactivating a handle once more leaves it as it is. -/
theorem retired_deactivate (t : Table) (h : HandleId) : Retired t (t.deactivate h) := by
  intro k handle hget hoff
  cases hh : t.handles[h]? with
  | none =>
    rw [deactivate, hh]
    exact hget
  | some other =>
    rw [handles_deactivate hh]
    split
    · rename_i heq
      subst heq
      rw [hh] at hget
      cases hget
      rw [← hoff]
    · exact hget

/-! ## Edits keep the links -/

/-- What counts for the links is what the lookups say. -/
theorem Linked.congr {t' : Table} (hl : t.Linked) (hcurrent : t'.current = t.current) (hhandles : t'.handles = t.handles)
    (hlists : ∀ id, t'.handlesOf id = t.handlesOf id) (hroots : ∀ id, t'.rootOf? id = t.rootOf? id) : t'.Linked := by
  have hr : t'.roots = t.roots := by rw [roots, hcurrent, roots]
  refine ⟨⟨?_, ?_, ?_, ?_, ?_⟩, ?_⟩
  · rw [hr]
    exact hl.roots_nodup
  · intro root id hmem
    rw [hroots]
    exact hl.root_eq (hcurrent ▸ hmem)
  · intro id h hmem
    rw [hhandles]
    exact hl.listed (hlists id ▸ hmem)
  · intro id
    rw [hlists]
    exact hl.ordered id
  · intro h handle hget hon
    rw [hlists, hroots, hcurrent]
    exact hl.active (hhandles ▸ hget) hon
  · intro root id hmem
    rw [hlists]
    exact hl.nonempty (hcurrent ▸ hmem)

/-- Whether a poll is under way is no part of the links. -/
theorem Linked.setPolling (hl : t.Linked) (id : RegistrationId) (polling : Bool) : (t.setPolling id polling).Linked :=
  hl.congr rfl rfl (fun k => (handlesOf_modify id (fun l => l) (fun _ => rfl)
    (g := fun r => { r with polling }) (fun _ => rfl) k).trans (ite_self _)) (rootOf?_modify id fun _ => rfl)

theorem Linked.setBaseline (hl : t.Linked) (id : RegistrationId) (baseline : Snapshot) : (t.setBaseline id baseline).Linked :=
  hl.congr rfl rfl (fun k => (handlesOf_modify id (fun l => l) (fun _ => rfl)
    (g := fun r => { r with baseline }) (fun _ => rfl) k).trans (ite_self _)) (rootOf?_modify id fun _ => rfl)

/-! ### Attachment -/

/-- An attachment adds one handle, at the end. -/
theorem handles_join (id : RegistrationId) (observer : Observer) (k : HandleId) : (t.join id observer).1.handles[k]? =
    if k = t.handles.size then some { registration := id, observer } else t.handles[k]? :=
  Array.getElem?_push

/-- It is listed at the end of its registration, and nowhere else. -/
theorem handlesOf_join {id : RegistrationId} (hid : (t.rootOf? id).isSome) (observer : Observer) (k : RegistrationId) :
    (t.join id observer).1.handlesOf k =
      if id = k then t.handlesOf k ++ [t.handles.size] else t.handlesOf k := by
  refine handlesOf_modify id (fun l => l ++ [t.handles.size]) ?_ (fun _ => rfl) k
  intro hnone
  rw [rootOf?, hnone] at hid
  cases hid

/-- A listed handle was attached before any that is still to come. -/
theorem Consistent.lt_of_listed (hc : t.Consistent) {id : RegistrationId} {h : HandleId} (hmem : h ∈ t.handlesOf id) :
    h < t.handles.size := by
  obtain ⟨handle, hget, -⟩ := hc.listed hmem
  exact (Array.getElem?_eq_some_iff.mp hget).1

/-- A registration in force takes one more handle. -/
theorem Consistent.join (hc : t.Consistent) {root : Path} {id : RegistrationId} (hid : (root, id) ∈ t.current)
    (observer : Observer) : (t.join id observer).1.Consistent := by
  have hroot : t.rootOf? id = some root := hc.root_eq hid
  have hsome : (t.rootOf? id).isSome := by
    rw [hroot]
    rfl
  have hlists := handlesOf_join hsome observer
  have hroots : ∀ k, (t.join id observer).1.rootOf? k = t.rootOf? k :=
    rootOf?_modify id (fun _ => rfl)
  refine ⟨hc.roots_nodup, ?_, ?_, ?_, ?_⟩
  · intro other k hmem
    rw [hroots]
    exact hc.root_eq hmem
  · intro k h hmem
    have hold : h ∈ t.handlesOf k → ∃ handle, (t.join id observer).1.handles[h]? = some handle ∧
        handle.active = true ∧ handle.registration = k := by
      intro hlisted
      rw [handles_join, if_neg (Nat.ne_of_lt (hc.lt_of_listed hlisted))]
      exact hc.listed hlisted
    rw [hlists] at hmem
    split at hmem
    · rename_i heq
      rcases List.mem_append.mp hmem with hmem | hmem
      · exact hold hmem
      · rw [List.mem_singleton.mp hmem, handles_join, if_pos rfl]
        exact ⟨_, rfl, rfl, heq⟩
    · exact hold hmem
  · intro k
    rw [hlists]
    split
    · refine List.pairwise_append.mpr ⟨hc.ordered k, List.pairwise_singleton _ _, ?_⟩
      intro a ha b hb
      rw [List.mem_singleton.mp hb]
      exact hc.lt_of_listed ha
    · exact hc.ordered k
  · intro h handle hget hon
    rw [handles_join] at hget
    rw [hlists, hroots]
    split at hget
    · rename_i heq
      cases hget
      rw [if_pos rfl, heq]
      exact ⟨List.mem_append_right _ List.mem_cons_self, root, hroot, hid⟩
    · obtain ⟨hmem, hforce⟩ := hc.active hget hon
      refine ⟨?_, hforce⟩
      split
      · exact List.mem_append_left _ hmem
      · exact hmem

/-- An attachment to a registration in force keeps the links. -/
theorem Linked.join (hl : t.Linked) {root : Path} {id : RegistrationId} (hid : (root, id) ∈ t.current)
    (observer : Observer) : (t.join id observer).1.Linked := by
  refine ⟨hl.toConsistent.join hid observer, ?_⟩
  intro other k hmem
  rw [handlesOf_join (by rw [hl.root_eq hid]; rfl)]
  split
  · simp
  · exact hl.nonempty hmem

/-! ### Registration -/

/-- A new registration has its root, the older ones keep theirs. -/
theorem rootOf?_register (root : Path) (baseline : Snapshot) (k : RegistrationId) :
    (t.register root baseline).1.rootOf? k = if k = t.registrations.size then some root else t.rootOf? k := by
  have hget : (t.register root baseline).1.registrations[k]? =
      if k = t.registrations.size then some { root, baseline } else t.registrations[k]? := Array.getElem?_push
  rw [rootOf?, hget, rootOf?]
  split <;> rfl

/-- A new registration has no handles yet. -/
theorem handlesOf_register (root : Path) (baseline : Snapshot) (k : RegistrationId) :
    (t.register root baseline).1.handlesOf k = t.handlesOf k := by
  have hget : (t.register root baseline).1.registrations[k]? =
      if k = t.registrations.size then some { root, baseline } else t.registrations[k]? := Array.getElem?_push
  unfold handlesOf
  rw [hget]
  by_cases heq : k = t.registrations.size
  · rw [if_pos heq, heq, Array.getElem?_eq_none (Nat.le_refl _)]
  · rw [if_neg heq]

theorem current_register (root : Path) (baseline : Snapshot) :
    (t.register root baseline).1.current = t.current ++ [(root, t.registrations.size)] := rfl

/-- A registration that has been made is not made again. -/
theorem Consistent.lt_of_current (hc : t.Consistent) {root : Path} {id : RegistrationId} (hmem : (root, id) ∈ t.current) :
    id < t.registrations.size := by
  obtain ⟨r, hr, -⟩ := Option.map_eq_some_iff.mp (hc.root_eq hmem)
  exact (Array.getElem?_eq_some_iff.mp hr).1

/-- A root without a registration takes one. -/
theorem Consistent.register (hc : t.Consistent) {root : Path} (hnone : t.find? root = none) (baseline : Snapshot) :
    (t.register root baseline).1.Consistent := by
  have hlists : ∀ k, (t.register root baseline).1.handlesOf k = t.handlesOf k := handlesOf_register root baseline
  refine ⟨?_, ?_, ?_, ?_, ?_⟩
  · rw [roots, current_register, List.map_append, List.map_singleton, ← List.concat_eq_append]
    exact hc.roots_nodup.concat (find?_eq_none.mp hnone)
  · intro other k hmem
    rw [rootOf?_register]
    rcases List.mem_append.mp hmem with hmem | hmem
    · rw [if_neg (Nat.ne_of_lt (hc.lt_of_current hmem))]
      exact hc.root_eq hmem
    · cases List.mem_singleton.mp hmem
      exact if_pos rfl
  · intro k h hmem
    rw [hlists] at hmem
    exact hc.listed hmem
  · intro k
    rw [hlists]
    exact hc.ordered k
  · intro h handle hget hon
    obtain ⟨hmem, other, hroot, hforce⟩ := hc.active hget hon
    rw [hlists, rootOf?_register, if_neg (Nat.ne_of_lt (hc.lt_of_current hforce))]
    exact ⟨hmem, other, hroot, List.mem_append_left _ hforce⟩

/-! ### Cancellation -/

/-- A handle that is deactivated leaves its list with it, so the two still agree. -/
theorem Consistent.deactivate (hc : t.Consistent) (h : HandleId) : (t.deactivate h).Consistent := by
  have hother : ∀ k, k ≠ h → (t.deactivate h).handles[k]? = t.handles[k]? := by
    intro k hne
    cases hget : t.handles[h]? with
    | none => rw [Table.deactivate, hget]
    | some handle => rw [handles_deactivate hget, if_neg (Ne.symm hne)]
  refine ⟨?_, ?_, ?_, ?_, ?_⟩
  · rw [roots_deactivate]
    exact hc.roots_nodup
  · intro root id hmem
    rw [current_deactivate] at hmem
    rw [rootOf?_deactivate]
    exact hc.root_eq hmem
  · intro id k hmem
    obtain ⟨hmem, hne⟩ := hc.mem_handlesOf_deactivate.mp hmem
    rw [hother k hne]
    exact hc.listed hmem
  · intro id
    cases hget : t.handles[h]? with
    | none =>
      rw [Table.deactivate, hget]
      exact hc.ordered id
    | some handle =>
      rw [handlesOf_deactivate hget]
      split
      · exact (hc.ordered id).filter _
      · exact hc.ordered id
  · intro k handle hget hon
    by_cases hne : k = h
    · -- the handle itself is not active any more
      subst hne
      cases hold : t.handles[k]? with
      | none =>
        rw [Table.deactivate, hold] at hget
        rw [hold] at hget
        cases hget
      | some other =>
        rw [handles_deactivate hold, if_pos rfl] at hget
        cases hget
        cases hon
    · rw [hother k hne] at hget
      obtain ⟨hmem, hforce⟩ := hc.active hget hon
      rw [hc.mem_handlesOf_deactivate, rootOf?_deactivate, current_deactivate]
      exact ⟨⟨hmem, hne⟩, hforce⟩

/-- A root whose registration lists no handle can leave the table. -/
theorem Consistent.drop (hc : t.Consistent) {root : Path} {id : RegistrationId} (hid : (root, id) ∈ t.current)
    (hnil : t.handlesOf id = []) : Consistent { t with current := t.current.filter (·.1 != root) } := by
  refine ⟨?_, ?_, hc.listed, hc.ordered, ?_⟩
  · exact (List.filter_sublist.map _).nodup hc.roots_nodup
  · intro other k hmem
    exact hc.root_eq (List.mem_filter.mp hmem).1
  · intro h handle hget hon
    obtain ⟨hmem, other, hroot, hforce⟩ := hc.active hget hon
    refine ⟨hmem, other, hroot, List.mem_filter.mpr ⟨hforce, bne_iff_ne.mpr ?_⟩⟩
    rintro rfl
    -- the registration of the root would be the one without handles
    have hsame : some handle.registration = some id :=
      ((find?_eq_some hc.roots_nodup).mpr hforce).symm.trans ((find?_eq_some hc.roots_nodup).mpr hid)
    cases hsame
    change h ∈ t.handlesOf handle.registration at hmem
    rw [hnil] at hmem
    cases hmem

/-- A cancellation keeps the links: it drops the registration together with its last handle. -/
theorem Linked.cancel (hl : t.Linked) (h : HandleId) : (t.cancel h).1.Linked := by
  unfold Table.cancel
  cases hget : t.handles[h]? with
  | none => exact hl
  | some handle =>
    by_cases hon : handle.active = true
    · obtain ⟨-, root, hroot, hforce⟩ := hl.active hget hon
      obtain ⟨r, hr, hrroot⟩ := Option.map_eq_some_iff.mp hroot
      have hc := hl.toConsistent.deactivate h
      have hforce' : (root, handle.registration) ∈ (t.deactivate h).current := by
        rw [current_deactivate]
        exact hforce
      have hfind : (t.deactivate h).find? root = some handle.registration :=
        (find?_eq_some hc.roots_nodup).mpr hforce'
      have hothers : ∀ {other k}, (other, k) ∈ (t.deactivate h).current → k ≠ handle.registration →
          (t.deactivate h).handlesOf k ≠ [] := by
        intro other k hmem hne
        rw [handlesOf_deactivate hget, if_neg (Ne.symm hne)]
        rw [current_deactivate] at hmem
        exact hl.nonempty hmem
      simp only [hon, Bool.not_true, Bool.false_eq_true, if_false, hr, hrroot, hfind, beq_self_eq_true, Bool.and_true]
      by_cases hnil : (t.deactivate h).handlesOf handle.registration = []
      · rw [if_pos (List.isEmpty_iff.mpr hnil)]
        refine ⟨hc.drop hforce' hnil, ?_⟩
        intro other k hmem
        obtain ⟨hmem, hne⟩ := List.mem_filter.mp hmem
        refine hothers hmem ?_
        rintro rfl
        have := (hc.root_eq hmem).symm.trans (hc.root_eq hforce')
        cases this
        simp at hne
      · rw [if_neg (fun hempty => hnil (List.isEmpty_iff.mp hempty))]
        refine ⟨hc, ?_⟩
        intro other k hmem
        by_cases hk : k = handle.registration
        · rw [hk]
          exact hnil
        · exact hothers hmem hk
    · rw [Bool.not_eq_true] at hon
      simp only [hon, Bool.not_false, if_true]
      exact hl

/-- After its cancellation a handle is not active, and no other handle has become so. -/
theorem Linked.active_cancel (hl : t.Linked) {h k : HandleId} {handle : Handle}
    (hget : (t.cancel h).1.handles[k]? = some handle) (hon : handle.active = true) :
    k ≠ h ∧ t.handles[k]? = some handle := by
  have hsame : (t.cancel h).1.handles = (t.deactivate h).handles ∨
      (t.cancel h).1 = t ∧ ∀ other, t.handles[h]? = some other → other.active = false := by
    unfold Table.cancel
    cases hh : t.handles[h]? with
    | none => exact Or.inr ⟨rfl, fun _ hc => nomatch hc⟩
    | some other =>
      by_cases hactive : other.active = true
      · obtain ⟨-, root, hroot, -⟩ := hl.active hh hactive
        obtain ⟨r, hr, -⟩ := Option.map_eq_some_iff.mp hroot
        left
        simp only [hactive, Bool.not_true, Bool.false_eq_true, if_false, hr]
        split <;> rfl
      · rw [Bool.not_eq_true] at hactive
        right
        simp only [hactive, Bool.not_false, if_true, true_and]
        rintro _ ⟨⟩
        exact hactive
  -- of the handles only this one has changed, and not even this one if it was inactive
  rcases hsame with hsame | ⟨hsame, hoff⟩
  · rw [hsame] at hget
    cases hh : t.handles[h]? with
    | none =>
      rw [Table.deactivate, hh] at hget
      refine ⟨?_, hget⟩
      rintro rfl
      rw [hh] at hget
      cases hget
    | some other =>
      rw [handles_deactivate hh] at hget
      split at hget
      · cases hget
        cases hon
      · rename_i hne
        exact ⟨Ne.symm hne, hget⟩
  · rw [hsame] at hget
    refine ⟨?_, hget⟩
    rintro rfl
    rw [hoff handle hget] at hon
    cases hon

/-- No handle is active. -/
def Idle (t : Table) : Prop :=
  ∀ (h : HandleId) (handle : Handle), t.handles[h]? = some handle → handle.active = false

/-- Inactive handles stay in no list. -/
theorem Linked.idle_cancel (hl : t.Linked) (hidle : t.Idle) (h : HandleId) : (t.cancel h).1.Idle := by
  intro k handle hget
  rw [← Bool.not_eq_true]
  intro hon
  have hold := hidle k handle (hl.active_cancel hget hon).2
  rw [hold] at hon
  cases hon

/-- A handle that joins and is cancelled at once leaves no trace among the active ones. -/
theorem Linked.idle_revoke (hidle : t.Idle) {id : RegistrationId} {observer : Observer}
    (hl : (t.join id observer).1.Linked) : ((t.join id observer).1.cancel (t.join id observer).2).1.Idle := by
  intro k handle hget
  rw [← Bool.not_eq_true]
  intro hon
  obtain ⟨hne, hjoined⟩ := hl.active_cancel hget hon
  have hne : k ≠ t.handles.size := hne
  rw [handles_join, if_neg hne] at hjoined
  rw [hidle k handle hjoined] at hon
  cases hon

/-! ### Clearing -/

/-- Cancelled handles stay as they are when many more are deactivated. -/
theorem retired_deactivateAll (t : Table) (hs : List HandleId) : Retired t (hs.foldl deactivate t) := by
  induction hs generalizing t with
  | nil => exact Retired.refl t
  | cons h hs ih => exact (retired_deactivate t h).trans (ih _)

/-- Deactivating a list of handles takes just these off the lists, by induction on it. -/
theorem Consistent.deactivateAll (hc : t.Consistent) (hs : List HandleId) : (hs.foldl Table.deactivate t).Consistent ∧
    ∀ {id k}, k ∈ (hs.foldl Table.deactivate t).handlesOf id → k ∈ t.handlesOf id ∧ k ∉ hs := by
  induction hs generalizing t with
  | nil => exact ⟨hc, fun hk => ⟨hk, List.not_mem_nil⟩⟩
  | cons h hs ih =>
    obtain ⟨hc', hmem'⟩ := ih (hc.deactivate h)
    refine ⟨hc', ?_⟩
    intro id k hk
    obtain ⟨hk, hnot⟩ := hmem' hk
    obtain ⟨hk, hne⟩ := hc.mem_handlesOf_deactivate.mp hk
    exact ⟨hk, fun hcons => (List.mem_cons.mp hcons).elim hne hnot⟩

/-- Clearing a table leaves no registration with a handle. -/
theorem Linked.handlesOf_clear (hl : t.Linked) (id : RegistrationId) : t.clear.handlesOf id = [] := by
  refine List.eq_nil_iff_forall_not_mem.mpr ?_
  intro h hmem
  obtain ⟨hlisted, hnot⟩ := (hl.toConsistent.deactivateAll _).2 hmem
  obtain ⟨handle, hget, hon, rfl⟩ := hl.listed hlisted
  obtain ⟨-, root, -, hforce⟩ := hl.active hget hon
  exact hnot (List.mem_flatMap.mpr ⟨(root, handle.registration), hforce, hlisted⟩)

/-- Clearing a table cancels every handle. -/
theorem Linked.inactive_clear (hl : t.Linked) {h : HandleId} {handle : Handle}
    (hget : t.clear.handles[h]? = some handle) : handle.active = false := by
  rw [← Bool.not_eq_true]
  intro hon
  obtain ⟨hmem, -⟩ := (hl.toConsistent.deactivateAll _).1.active hget hon
  have hnil := hl.handlesOf_clear handle.registration
  change h ∈ t.clear.handlesOf handle.registration at hmem
  rw [hnil] at hmem
  cases hmem

/-- Clearing keeps the links, since nothing is left to be linked. -/
theorem Linked.clear (hl : t.Linked) : t.clear.Linked := by
  refine ⟨⟨List.nodup_nil, (nomatch ·), ?_, ?_, ?_⟩, (nomatch ·)⟩
  · intro id h hmem
    rw [hl.handlesOf_clear id] at hmem
    cases hmem
  · intro id
    rw [hl.handlesOf_clear id]
    exact List.Pairwise.nil
  · intro h handle hget hon
    rw [hl.inactive_clear hget] at hon
    cases hon

/-! ## Edits in sequence -/

/-- A second cancellation changes nothing. -/
theorem retired_cancel (t : Table) (h : HandleId) : Retired t (t.cancel h).1 := by
  unfold cancel
  split
  · exact Retired.refl t
  · split
    · exact Retired.refl t
    · split
      · exact Retired.refl t
      · dsimp only
        split <;> exact retired_deactivate t h

/-- An attachment never brings an old handle back. -/
theorem retired_join (t : Table) (id : RegistrationId) (observer : Observer) : Retired t (t.join id observer).1 := by
  intro h handle hget _
  rw [handles_join, if_neg]
  · exact hget
  · exact Nat.ne_of_lt (Array.getElem?_eq_some_iff.mp hget).1

/-- Every change of a table keeps the links, by cases on the change. -/
theorem Edit.linked {t' : Table} (h : Edit t t') (hl : t.Linked) : t'.Linked := by
  cases h with
  | join hid observer => exact hl.join ((find?_eq_some hl.roots_nodup).mp hid) observer
  | @register root hnone baseline observer =>
    have hc := hl.toConsistent.register hnone baseline
    have hid : (root, t.registrations.size) ∈ (t.register root baseline).1.current :=
      List.mem_append_right _ List.mem_cons_self
    have hsome : ((t.register root baseline).1.rootOf? t.registrations.size).isSome := by
      rw [hc.root_eq hid]
      rfl
    refine ⟨hc.join hid observer, ?_⟩
    intro other k hmem
    refine ne_of_eq_of_ne (handlesOf_join hsome observer k) ?_
    split
    · simp
    · rename_i hne
      rw [handlesOf_register]
      rcases List.mem_append.mp hmem with hmem | hmem
      · exact hl.nonempty hmem
      · cases List.mem_singleton.mp hmem
        exact absurd rfl hne
  | cancel h => exact hl.cancel h
  | clear => exact hl.clear
  | setPolling id polling => exact hl.setPolling id polling
  | setBaseline id baseline => exact hl.setBaseline id baseline

/-- No change of a table touches a cancelled handle. -/
theorem Edit.retired {t' : Table} (h : Edit t t') : Retired t t' := by
  cases h with
  | join hid observer => exact retired_join t _ observer
  | register hnone baseline observer => exact retired_join (t.register _ baseline).1 _ observer
  | cancel h => exact retired_cancel t h
  | clear => exact retired_deactivateAll t _
  | setPolling id polling => exact Retired.refl t
  | setBaseline id baseline => exact Retired.refl t

/-- Any number of edits, one after another. -/
abbrev Edits : Table → Table → Prop := Relation.ReflTransGen Edit

/-- The links hold after any number of changes. -/
theorem Edits.linked {t t' : Table} (h : Edits t t') (hl : t.Linked) : t'.Linked := by
  induction h with
  | refl => exact hl
  | tail _ hedit ih => exact hedit.linked ih

/-- A cancelled handle stays so for good. -/
theorem Edits.retired {t t' : Table} (h : Edits t t') : Retired t t' := by
  induction h with
  | refl => exact Retired.refl t
  | tail _ hedit ih => exact ih.trans hedit.retired

/-- The empty table is linked. -/
theorem linked_empty : Linked {} := by
  refine ⟨⟨List.nodup_nil, (nomatch ·), ?_, fun _ => List.Pairwise.nil, ?_⟩, (nomatch ·)⟩
  · intro id h hmem
    simp [handlesOf] at hmem
  · intro h handle hget _
    simp at hget

/-! ## Handles are remembered -/

/-- Every handle still stands for the same attachment. -/
def Remembers (t t' : Table) : Prop :=
  ∀ (h : HandleId) (handle : Handle), t.handles[h]? = some handle → ∃ handle', t'.handles[h]? = some handle' ∧
    handle'.registration = handle.registration ∧ handle'.observer = handle.observer

theorem Remembers.refl (t : Table) : Remembers t t :=
  fun _ handle hget => ⟨handle, hget, rfl, rfl⟩

/-- What two changes in a row remember, they remember together. -/
theorem Remembers.trans {t t' t'' : Table} (h : Remembers t t') (h' : Remembers t' t'') : Remembers t t'' := by
  intro k handle hget
  obtain ⟨handle', hget', hregistration, hobserver⟩ := h k handle hget
  obtain ⟨handle'', hget'', hregistration', hobserver'⟩ := h' k handle' hget'
  exact ⟨handle'', hget'', hregistration'.trans hregistration, hobserver'.trans hobserver⟩

/-- An inactive handle still stands for its attachment. -/
theorem remembers_deactivate (t : Table) (h : HandleId) : Remembers t (t.deactivate h) := by
  intro k handle hget
  cases hh : t.handles[h]? with
  | none =>
    rw [deactivate, hh]
    exact ⟨handle, hget, rfl, rfl⟩
  | some other =>
    rw [handles_deactivate hh]
    split
    · rename_i heq
      subst heq
      rw [hh] at hget
      cases hget
      exact ⟨_, rfl, rfl, rfl⟩
    · exact ⟨handle, hget, rfl, rfl⟩

/-- So does a cancelled one. -/
theorem remembers_cancel (t : Table) (h : HandleId) : Remembers t (t.cancel h).1 := by
  unfold cancel
  split
  · exact Remembers.refl t
  · split
    · exact Remembers.refl t
    · split
      · exact Remembers.refl t
      · dsimp only
        split <;> exact remembers_deactivate t h

/-- An attachment overwrites no handle. -/
theorem remembers_join (t : Table) (id : RegistrationId) (observer : Observer) : Remembers t (t.join id observer).1 := by
  intro h handle hget
  rw [handles_join, if_neg]
  · exact ⟨handle, hget, rfl, rfl⟩
  · exact Nat.ne_of_lt (Array.getElem?_eq_some_iff.mp hget).1

/-- Clearing deactivates the handles and keeps them. -/
theorem remembers_clear (t : Table) : Remembers t t.clear := by
  have hall : ∀ (hs : List HandleId) (t : Table), Remembers t (hs.foldl deactivate t) := by
    intro hs
    induction hs with
    | nil => exact Remembers.refl
    | cons h hs ih => exact fun t => (remembers_deactivate t h).trans (ih _)
  exact hall _ t

/-- No change of a table gives a handle to another attachment. -/
theorem Edit.remembers {t' : Table} (h : Edit t t') : Remembers t t' := by
  cases h with
  | join hid observer => exact remembers_join t _ observer
  | register hnone baseline observer => exact remembers_join (t.register _ baseline).1 _ observer
  | cancel h => exact remembers_cancel t h
  | clear => exact remembers_clear t
  | setPolling id polling => exact Remembers.refl t
  | setBaseline id baseline => exact Remembers.refl t

theorem Edits.remembers {t t' : Table} (h : Edits t t') : Remembers t t' := by
  induction h with
  | refl => exact Remembers.refl t
  | tail _ hedit ih => exact ih.trans hedit.remembers

end DirWatch.Table
