import DirWatch.Proofs.Entry.WellFormed
import DirWatch.Proofs.Table.Links

/-!
# The baselines of a table

`Table.bare?` is what a poll reads of its registration: the root, the baseline, and whether a poll is under way.
Observers that come and go leave it as it is. In a table that is `Based`, every baseline is a well-formed snapshot of
the root it stands for.
-/

namespace DirWatch

/-- A registration without its handles. -/
def Registration.bare (r : Registration) : Registration :=
  { r with handles := [] }

namespace Table

/-- What a poll reads of a registration. -/
def bare? (t : Table) (id : RegistrationId) : Option Registration :=
  t.registrations[id]?.map Registration.bare

/-- Whether a poll of a registration is under way. -/
def isPolling (t : Table) (id : RegistrationId) : Bool :=
  (t.bare? id).any (·.polling)

/-- Every baseline is a well-formed snapshot of the root of its registration. -/
def Based (t : Table) : Prop :=
  ∀ id r, t.bare? id = some r → r.baseline.WellFormed ∧ r.baseline.root = r.root

/-- Registrations keep their roots and baselines. -/
def Keeps (t t' : Table) : Prop :=
  ∀ id r, t.bare? id = some r → ∃ r', t'.bare? id = some r' ∧ r'.root = r.root ∧ r'.baseline = r.baseline

variable {t t' : Table}

/-- A poll reads the registration that stands at its number. -/
theorem bare?_of_get {id : RegistrationId} {r : Registration} (h : t.registrations[id]? = some r) :
    t.bare? id = some r.bare := by
  rw [bare?, h]
  rfl

/-- What a poll reads comes from a registration with some handles. -/
theorem get_of_bare? {id : RegistrationId} {r : Registration} (h : t.bare? id = some r) :
    ∃ r', t.registrations[id]? = some r' ∧ r'.bare = r :=
  Option.map_eq_some_iff.mp h

/-- The root of a registration is among what a poll reads. -/
theorem rootOf?_eq_bare (t : Table) (id : RegistrationId) : t.rootOf? id = (t.bare? id).map (·.root) := by
  rw [rootOf?, bare?, Option.map_map]
  rfl

/-- A poll reads the root under which the table knows the registration. -/
theorem rootOf?_of_bare {id : RegistrationId} {r : Registration} (h : t.bare? id = some r) : t.rootOf? id = some r.root := by
  rw [rootOf?_eq_bare, h]
  rfl

/-! ## Keeping the baselines -/

/-- A table in which the polls read the same keeps the baselines. -/
theorem Keeps.of_eq (h : ∀ id, t'.bare? id = t.bare? id) : Keeps t t' := by
  intro id r hr
  exact ⟨r, (h id).trans hr, rfl, rfl⟩

theorem Keeps.congr {t'' : Table} (h : Keeps t t') (heq : ∀ id, t''.bare? id = t'.bare? id) : Keeps t t'' := by
  intro id r hr
  obtain ⟨r', hr', hsame⟩ := h id r hr
  exact ⟨r', (heq id).trans hr', hsame⟩

/-- Where the baselines are kept, so are the roots. -/
theorem Keeps.rootOf? (h : Keeps t t') {id : RegistrationId} {root : Path} (hroot : t.rootOf? id = some root) :
    t'.rootOf? id = some root := by
  rw [rootOf?_eq_bare] at hroot
  obtain ⟨r, hr, rfl⟩ := Option.map_eq_some_iff.mp hroot
  obtain ⟨r', hr', hsame, -⟩ := h id r hr
  rw [rootOf?_of_bare hr', hsame]

/-- The polls still find well-formed baselines where they read what they read before. -/
theorem Based.of_eq (h : t.Based) (heq : ∀ id, t'.bare? id = t.bare? id) : t'.Based := by
  intro id r hr
  rw [heq] at hr
  exact h id r hr

/-! ## Observers -/

/-- A change of the handles of a registration. -/
theorem bare?_modify (id : RegistrationId) {f : Registration → Registration} (hf : ∀ r, (f r).bare = r.bare)
    (k : RegistrationId) : (t.modifyRegistration id f).bare? k = t.bare? k := by
  rw [bare?, registrations_modify]
  split
  · rw [Option.map_map, bare?]
    congr 1
    funext r
    exact hf r
  · rfl

/-- A poll does not see who observes. -/
theorem bare?_join (t : Table) (id : RegistrationId) (observer : Observer) (k : RegistrationId) :
    (t.join id observer).1.bare? k = t.bare? k :=
  @bare?_modify t id (fun r => { r with handles := r.handles ++ [t.handles.size] }) (fun _ => rfl) k

/-- It does not see who stops observing. -/
theorem bare?_deactivate (t : Table) (h : HandleId) (k : RegistrationId) : (t.deactivate h).bare? k = t.bare? k := by
  rw [deactivate]
  cases t.handles[h]? with
  | none => rfl
  | some handle =>
    exact @bare?_modify (t.modifyHandle h fun handle => { handle with active := false }) handle.registration
      (fun r => { r with handles := r.handles.filter (· != h) }) (fun _ => rfl) k

/-- A cancelled handle may take its registration out of force, but a poll of it reads on. -/
theorem bare?_cancel (t : Table) (h : HandleId) (k : RegistrationId) : (t.cancel h).1.bare? k = t.bare? k := by
  unfold cancel
  split
  · rfl
  · split
    · rfl
    · split
      · rfl
      · dsimp only
        split
        · exact bare?_deactivate t h k
        · exact bare?_deactivate t h k

/-- Even a clearing leaves the polls what they read. -/
theorem bare?_clear (t : Table) (k : RegistrationId) : t.clear.bare? k = t.bare? k := by
  have hall : ∀ (hs : List HandleId) (t : Table), (hs.foldl deactivate t).bare? k = t.bare? k := by
    intro hs
    induction hs with
    | nil => exact fun _ => rfl
    | cons h hs ih => exact fun t => (ih (t.deactivate h)).trans (bare?_deactivate t h k)
  exact hall _ t

/-! ## Registrations -/

/-- A new registration begins with the baseline captured for it, and with no poll under way. -/
theorem bare?_register (t : Table) (root : Path) (baseline : Snapshot) (k : RegistrationId) :
    (t.register root baseline).1.bare? k = if k = t.registrations.size then some { root, baseline } else t.bare? k := by
  have hget : (t.register root baseline).1.registrations[k]? =
      if k = t.registrations.size then some { root, baseline } else t.registrations[k]? := Array.getElem?_push
  rw [bare?, hget, bare?]
  split <;> rfl

/-- A root comes with a baseline that is a snapshot of it. -/
theorem Based.register (h : t.Based) {root : Path} {baseline : Snapshot} (hwf : baseline.WellFormed)
    (hroot : baseline.root = root) : (t.register root baseline).1.Based := by
  intro id r hr
  rw [bare?_register] at hr
  split at hr
  · cases hr
    exact ⟨hwf, hroot⟩
  · exact h id r hr

/-- There is no registration with a number that was not given. -/
theorem bare?_size (t : Table) : t.bare? t.registrations.size = none := by
  rw [bare?, Array.getElem?_eq_none (Nat.le_refl _)]
  rfl

/-- The older ones keep theirs. -/
theorem keeps_register (t : Table) (root : Path) (baseline : Snapshot) : Keeps t (t.register root baseline).1 := by
  intro id r hr
  have hne : id ≠ t.registrations.size := by
    rintro rfl
    rw [bare?_size] at hr
    cases hr
  exact ⟨r, by rw [bare?_register, if_neg hne, hr], rfl, rfl⟩

/-- No poll begins with a registration. -/
theorem isPolling_register (t : Table) (root : Path) (baseline : Snapshot) (k : RegistrationId) :
    (t.register root baseline).1.isPolling k = t.isPolling k := by
  rw [isPolling, bare?_register, isPolling]
  split
  · rename_i heq
    rw [heq, bare?_size]
    rfl
  · rfl

/-! ## Polls -/

/-- The mark of a poll under way is set on its own registration only. -/
theorem bare?_setPolling (t : Table) (id : RegistrationId) (polling : Bool) (k : RegistrationId) :
    (t.setPolling id polling).bare? k = if id = k then (t.bare? k).map fun r => { r with polling } else t.bare? k := by
  rw [bare?, setPolling, registrations_modify, bare?]
  split
  · rw [Option.map_map, Option.map_map]
    rfl
  · rfl

/-- A new baseline is set on its own registration only. -/
theorem bare?_setBaseline (t : Table) (id : RegistrationId) (baseline : Snapshot) (k : RegistrationId) :
    (t.setBaseline id baseline).bare? k = if id = k then (t.bare? k).map fun r => { r with baseline } else t.bare? k := by
  rw [bare?, setBaseline, registrations_modify, bare?]
  split
  · rw [Option.map_map, Option.map_map]
    rfl
  · rfl

/-- No root changes with a baseline. -/
theorem rootOf?_setBaseline (id : RegistrationId) (baseline : Snapshot) (k : RegistrationId) :
    (t.setBaseline id baseline).rootOf? k = t.rootOf? k :=
  @rootOf?_modify t id (fun r => { r with baseline }) (fun _ => rfl) k

/-- A poll that begins or ends keeps the baselines. -/
theorem keeps_setPolling (t : Table) (id : RegistrationId) (polling : Bool) : Keeps t (t.setPolling id polling) := by
  intro k r hr
  rw [bare?_setPolling, hr]
  split
  · exact ⟨_, rfl, rfl, rfl⟩
  · exact ⟨r, rfl, rfl, rfl⟩

/-- It keeps them well-formed. -/
theorem Based.setPolling (h : t.Based) (id : RegistrationId) (polling : Bool) : (t.setPolling id polling).Based := by
  intro k r hr
  rw [bare?_setPolling] at hr
  split at hr
  · obtain ⟨r', hr', rfl⟩ := Option.map_eq_some_iff.mp hr
    exact h k r' hr'
  · exact h k r hr

/-- The polls of other registrations are under way as before. -/
theorem isPolling_setPolling_ne {id k : RegistrationId} (hne : id ≠ k) (polling : Bool) :
    (t.setPolling id polling).isPolling k = t.isPolling k := by
  rw [isPolling, bare?_setPolling, if_neg hne, isPolling]

/-- A registration that exists is marked as told. -/
theorem isPolling_setPolling {id : RegistrationId} {r : Registration} (h : t.bare? id = some r) (polling : Bool) :
    (t.setPolling id polling).isPolling id = polling := by
  rw [isPolling, bare?_setPolling, if_pos rfl, h]
  rfl

/-- A baseline is replaced by a snapshot of the same root. -/
theorem Based.setBaseline (h : t.Based) {id : RegistrationId} {baseline : Snapshot}
    (hnew : ∀ r, t.bare? id = some r → baseline.WellFormed ∧ baseline.root = r.root) :
    (t.setBaseline id baseline).Based := by
  intro k r hr
  rw [bare?_setBaseline] at hr
  split at hr
  · rename_i heq
    subst heq
    obtain ⟨r', hr', rfl⟩ := Option.map_eq_some_iff.mp hr
    exact hnew r' hr'
  · exact h k r hr

/-- A poll that swaps the baseline is still under way. -/
theorem isPolling_setBaseline (t : Table) (id : RegistrationId) (baseline : Snapshot) (k : RegistrationId) :
    (t.setBaseline id baseline).isPolling k = t.isPolling k := by
  rw [isPolling, bare?_setBaseline, isPolling]
  split
  · cases t.bare? k <;> rfl
  · rfl

/-! ## Roots -/

/-- A registration keeps its root. -/
theorem Edit.rootOf? (h : Edit t t') {id : RegistrationId} {root : Path} (hroot : t.rootOf? id = some root) :
    t'.rootOf? id = some root := by
  cases h with
  | join _ observer => exact (Keeps.of_eq (bare?_join t _ observer)).rootOf? hroot
  | register _ baseline observer => exact ((keeps_register t _ baseline).congr (bare?_join _ _ observer)).rootOf? hroot
  | cancel h => exact (Keeps.of_eq (bare?_cancel t h)).rootOf? hroot
  | clear => exact (Keeps.of_eq (bare?_clear t)).rootOf? hroot
  | setPolling k polling => exact (keeps_setPolling t k polling).rootOf? hroot
  | setBaseline k baseline =>
    rw [rootOf?_setBaseline]
    exact hroot

/-- A registration keeps its root through any number of changes. -/
theorem Edits.rootOf? (h : Edits t t') {id : RegistrationId} {root : Path} (hroot : t.rootOf? id = some root) :
    t'.rootOf? id = some root := by
  induction h with
  | refl => exact hroot
  | tail _ hedit ih => exact hedit.rootOf? ih

end Table

end DirWatch
