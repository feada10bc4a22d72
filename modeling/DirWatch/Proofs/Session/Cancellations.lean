import DirWatch.Proofs.Session.Registrations
import DirWatch.Proofs.Table.Cancellations

/-!
# Cancelling and detaching in a session

In the table of any session that can be reached, cancelling a handle takes away this handle and nothing else, a handle
that is inactive can be cancelled without effect, and the order in which handles are cancelled does not matter.
Detaching an observer from a root comes to cancelling the handles through which it is attached there
(`cancellations_of_run`).
-/

namespace DirWatch.Session

open Table (CancelledOnly Edits)

variable {s t : Session} {log : List (RegistrationId × List Change)}

/-- To cancel several handles is to cancel them all at once, for the table. -/
theorem cancelEach_eq (table : Table) (hs : List HandleId) : cancelEach table hs = (table.cancelAll hs).1 := by
  induction hs generalizing table with
  | nil => rfl
  | cons h hs ih => exact ih (table.cancel h).1

/-- Detaching an observer cancels its attachments, and replies with their number. -/
theorem perform_detach (s : Session) (root : Path) (observer : Observer) :
    (s.perform (.detach root observer)).table = (s.table.cancelAll (s.table.attachments root observer)).1 ∧
      (s.perform (.detach root observer)).signal =
        some (.replied (.ok (.count (s.table.attachments root observer).length))) := by
  refine ⟨?_, rfl⟩
  rw [← cancelEach_eq]
  exact (Leads.cancelHandles s _).table

/-- In every session that can be reached, cancelling a handle takes just this handle off, and its root if the handle was
active and the last of the registration in force. An inactive handle is cancelled without effect, a cancelled one for
good, also when its root has been registered anew. Handles can be cancelled in any order. Detaching an observer from a
root has the effect of cancelling, in any order, the handles of the registration in force whose observer equals it, and
gives their number. -/
theorem cancellations_of_run {w : World} (hs : Opens w s) (h : Run (fun _ => True) s log t) :
    (∀ k, CancelledOnly t.table k (t.table.cancel k).1) ∧
    (∀ k, t.table.isActive k = false → t.table.cancel k = (t.table, .idle)) ∧
    (∀ k < t.table.handles.size, ∀ table, Edits (t.table.cancel k).1 table → table.cancel k = (table, .idle)) ∧
    (∀ ks ks', ks.Perm ks' → (t.table.cancelAll ks).1 = (t.table.cancelAll ks').1) ∧
    ∀ root observer, (t.table.attachments root observer).Nodup ∧
      (∀ k, k ∈ t.table.attachments root observer ↔ ∃ id handle, t.table.find? root = some id ∧
        k ∈ t.table.handlesOf id ∧ t.table.handles[k]? = some handle ∧ handle.observer.sameAs observer = true) ∧
      ∀ order, order.Perm (t.table.attachments root observer) →
        (t.perform (.detach root observer)).table = (t.table.cancelAll order).1 ∧
          (t.perform (.detach root observer)).signal = some (.replied (.ok (.count order.length))) := by
  have hl : t.table.Linked := h.edits.linked hs.linked
  refine ⟨hl.cancelled, fun _ => Table.cancel_inactive, ?_, fun _ _ => hl.cancelAll_perm, fun root observer => ?_⟩
  · intro k hk table hedits
    exact hl.cancel_again hk hedits
  · refine ⟨hl.nodup_attachments root observer, fun _ => Table.mem_attachments_iff, fun order horder => ?_⟩
    obtain ⟨htable, hsignal⟩ := perform_detach t root observer
    exact ⟨htable.trans (hl.cancelAll_perm horder).symm, hsignal.trans (by rw [horder.length_eq])⟩

/-- The table with a root that was registered anew, when one more observer, which equals the first, and another one have
come. -/
def mingledTable : Session :=
  (reattachedTable.after (.attach ⟨.root, ["w"]⟩ (.named "c" (.text "b")) "c") 0).after
    (.attach ⟨.root, ["w"]⟩ (.named "d" (.text "d")) "d") 0

/-- The handle of the old registration is cancelled without effect, that of the last observer alone, and the two
observers that equal each other are detached together, in any order. -/
theorem cancellations_of_run_mingled :
    mingledTable.table.cancel 0 = (mingledTable.table, .idle) ∧
    CancelledOnly mingledTable.table 3 (mingledTable.table.cancel 3).1 ∧
    (mingledTable.perform (.detach ⟨.root, ["w"]⟩ (.named "b" (.text "b")))).table =
    (mingledTable.table.cancelAll [2, 1]).1 ∧
    (mingledTable.perform (.detach ⟨.root, ["w"]⟩ (.named "b" (.text "b")))).signal = some (.replied (.ok (.count 2))) ∧
    (mingledTable.table.cancelAll [2, 1]).1.handlesOf 1 = [3] := by
  have hattached : Run (fun _ => True) barrenTable _ attachedTable :=
    Run.refl.acts (by decide +kernel) trivial (by decide +kernel)
  have hcancelled : Run (fun _ => True) barrenTable _ cancelledTable :=
    hattached.acts (by decide +kernel) trivial (by decide +kernel)
  have hreattached : Run (fun _ => True) barrenTable _ reattachedTable :=
    hcancelled.acts (by decide +kernel) trivial (by decide +kernel)
  have hmingled : Run (fun _ => True) barrenTable _ mingledTable :=
    (hreattached.acts (by decide +kernel) trivial (by decide +kernel)).acts (by decide +kernel) trivial (by decide +kernel)
  obtain ⟨hcancels, hidle, -, -, hdetaches⟩ := cancellations_of_run barrenTable_opens hmingled
  obtain ⟨-, -, hdetach⟩ := hdetaches ⟨.root, ["w"]⟩ (.named "b" (.text "b"))
  obtain ⟨htable, hsignal⟩ := hdetach [2, 1] (by decide +kernel)
  exact ⟨hidle 0 (by decide +kernel), hcancels 3, htable, hsignal, by decide +kernel⟩

end DirWatch.Session
