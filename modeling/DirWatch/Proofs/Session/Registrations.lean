import DirWatch.Proofs.Session.Frames
import DirWatch.Proofs.Session.Runs
import DirWatch.Proofs.Table.Links

/-!
# The table of a session

Whatever a session does to its table, it does by edits (`Effect.edits`, `Turn.edits`). So the links of the table hold in
every session that can be reached, whatever observers do in their calls and whatever happens in the middle of a capture,
and a cancelled handle is never active again (`linked_of_run`).
-/

namespace DirWatch.Session

open Table (Edit Edits Linked)

variable {allowed : Action → Prop} {cause : Option Action} {s t : Session} {log : List (RegistrationId × List Change)}

/-! ## Steps edit the table -/

/-- Handles are cancelled one after the other. -/
theorem cancelEach_edits (table : Table) (hs : List HandleId) : Edits table (cancelEach table hs) := by
  induction hs generalizing table with
  | nil => exact Relation.ReflTransGen.refl
  | cons h hs ih => exact Relation.ReflTransGen.head (Edit.cancel h) (ih _)

/-- The end of a poll unmarks its registration, and then swaps the baseline if it succeeded. -/
theorem endTable_edits (table : Table) (id : RegistrationId) (outcome : Except Failure Change.Report) :
    Edits table (endTable table id outcome) := by
  have hfree : Edits table (table.setPolling id false) := Relation.ReflTransGen.single (Edit.setPolling id false)
  cases outcome with
  | ok report => exact hfree.tail (Edit.setBaseline id report.baseline)
  | error f => exact hfree

/-- A part of a step edits the table if the table it leads to is an edited one. -/
theorem Leads.edits {table : Table} {state : WatcherState} {fs : List Frame} (h : Leads s t table state fs)
    (he : Edits s.table table) : Edits s.table t.table := by
  rw [h.table]
  exact he

/-- An action changes the table by edits only. -/
theorem Effect.edits (h : Effect cause s t) : Edits s.table t.table := by
  cases h with
  | quiet h _ => exact h.edits .refl
  | starts h _ => exact h.edits .refl
  | cancels hs h => exact h.edits (cancelEach_edits _ hs)
  | joins hid h _ => exact h.edits (.single (Edit.join hid _))
  | revokes hid h => exact h.edits (.tail (.single (Edit.join hid _)) (Edit.cancel _))
  | attaches h _ => exact h.edits .refl
  | reports h => exact h.edits .refl
  | clears h => exact h.edits (.single Edit.clear)
  | polls h => exact h.edits .refl
  | closes h _ => exact h.edits .refl
  | closed h => exact h.edits (.single Edit.clear)
  | closedUncleared h _ => exact h.edits .refl
  | unparks h ht =>
    rw [unpark?_table ht]
    exact h.edits .refl
  | rewrites _ hu _ => exact hu.edits .refl
  | disables _ hu => exact hu.edits .refl

/-- So does a step. -/
theorem Turn.edits {frame : Frame} {signal : Option Signal} (h : Turn cause s frame signal t) : Edits s.table t.table := by
  cases h with
  | acts _ h _ he => exact (h.edits .refl).trans he.edits
  | startsJob _ h _ => exact h.edits .refl
  | stays h => exact h.edits .refl
  | unparks h ht =>
    rw [unpark?_table ht]
    exact h.edits .refl
  | clears h => exact h.edits (.single Edit.clear)
  | uncleared h _ => exact h.edits .refl
  | parks hu ht =>
    rw [park_table ht]
    exact hu.edits .refl
  | asks _ _ h => exact h.edits .refl
  | waits h => exact h.edits .refl
  | hands _ => exact .refl
  | attaches he _ => exact he.edits
  | registers hnone h _ => exact h.edits (.single (Edit.register hnone _ _))
  | revokes hnone h => exact h.edits (.tail (.single (Edit.register hnone _ _)) (Edit.cancel _))
  | enters _ _ h => exact h.edits (.single (Edit.setPolling _ true))
  | compares _ h => exact h.edits .refl
  | passes h => exact h.edits .refl
  | calls _ _ hu => exact hu.edits .refl
  | @ends id owner _ _ _ _ outcome u _ _ hu =>
    have h := endPoll_leads u id owner outcome
    rw [hu.table] at h
    rw [h.table]
    exact endTable_edits s.table id outcome

/-- So does a run. -/
theorem Run.edits (h : Run allowed s log t) : Edits s.table t.table := by
  induction h with
  | refl => exact .refl
  | @act log t action _ _ _ ih =>
    have heffect := (perform_effect { t with signal := none } action).edits
    exact Relation.ReflTransGen.trans ih heffect
  | step _ hstep _ ih =>
    obtain ⟨frame, below, -, hturn⟩ := step_turn hstep
    exact Relation.ReflTransGen.trans ih hturn.edits

/-! ## The links of a session -/

/-- A new table has nothing to link. -/
theorem Opens.linked {w : World} (h : Opens w s) : s.table.Linked := by
  rw [h.fresh.table]
  exact Table.linked_empty

/-- In every session that can be reached the handles, the registrations and the roots are linked. A handle that is cancelled
there is in no list, stays cancelled however the session goes on, and comes into no list again. -/
theorem linked_of_run {w : World} (hs : Opens w s) (h : Run (fun _ => True) s log t) :
    t.table.Linked ∧ ∀ {more u}, Run (fun _ => True) t more u → ∀ k handle, t.table.handles[k]? = some handle →
      handle.active = false → u.table.handles[k]? = some handle ∧ ∀ id, k ∉ u.table.handlesOf id := by
  have hlinked : ∀ {log t}, Run (fun _ => True) s log t → t.table.Linked := by
    intro log t h
    refine h.edits.linked ?_
    rw [hs.fresh.table]
    exact Table.linked_empty
  refine ⟨hlinked h, ?_⟩
  intro more u hu k handle hget hoff
  have hkept := hu.edits.retired k handle hget hoff
  refine ⟨hkept, ?_⟩
  intro id hmem
  obtain ⟨other, hother, hon, -⟩ := (hlinked (h.trans hu)).listed hmem
  rw [hkept] at hother
  cases hother
  rw [hoff] at hon
  cases hon

/-- A table with one observer at its root, the same after the observer was cancelled, and after another one came. -/
def attachedTable : Session :=
  barrenTable.after (.attach ⟨.root, ["w"]⟩ (.named "a" (.text "a")) "a") 3

def cancelledTable : Session :=
  attachedTable.after (.cancel "a") 0

def reattachedTable : Session :=
  cancelledTable.after (.attach ⟨.root, ["w"]⟩ (.named "b" (.text "b")) "b") 3

/-- The first handle is cancelled for good, although its root is watched again. -/
theorem linked_of_run_reattached : cancelledTable.table.Linked ∧
    reattachedTable.table.handles[0]? = some { registration := 0, observer := .named "a" (.text "a"), active := false } ∧
    reattachedTable.table.roots = [⟨.root, ["w"]⟩] ∧ ∀ id, 0 ∉ reattachedTable.table.handlesOf id := by
  have hattached : Run (fun _ => True) barrenTable _ attachedTable :=
    Run.refl.acts (by decide +kernel) trivial (by decide +kernel)
  have hcancelled : Run (fun _ => True) barrenTable _ cancelledTable :=
    hattached.acts (by decide +kernel) trivial (by decide +kernel)
  have hreattached : Run (fun _ => True) cancelledTable _ reattachedTable :=
    Run.refl.acts (by decide +kernel) trivial (by decide +kernel)
  obtain ⟨hlinked, hstays⟩ := linked_of_run barrenTable_opens hcancelled
  obtain ⟨hget, hnot⟩ := hstays hreattached 0 { registration := 0, observer := .named "a" (.text "a"), active := false }
    rfl rfl
  exact ⟨hlinked, hget, rfl, hnot⟩

end DirWatch.Session
