import DirWatch.Proofs.Session.Lifecycle
import DirWatch.Proofs.Session.Requests
import DirWatch.Proofs.Table.Revocations

/-!
# Requests that fail

Until a request for a root is at its end it leaves the table alone, whatever others do to it meanwhile
(`Under.through`). If the request then fails, the table stays as they have left it. There is one exception: a watcher
that is found closed when the observer has been attached takes it off again, which leaves nothing alive
(`Returns.undone`).
-/

namespace DirWatch.Session

open Table (Undone)

variable {q : Request} {s s₀ t u v : Session} {stage stage' : q.Stage} {inner below : List Frame}
  {own : List Session} {nested ms before : List (Session × Session)} {reply : Reply} {f : Failure}

/-- Some moves alone, one after the other, take one table to another. -/
inductive Through (table : Table) : List (Session × Session) → Table → Prop
  | nil : Through table [] table
  | move {ms : List (Session × Session)} {s t : Session} (h : Through table ms s.table) (hm : Move s t) :
    Through table (ms ++ [(s, t)]) t.table

/-- The watcher was closed while a root was being attached to. -/
def ClosedMeanwhile (v : Session) (f : Failure) : Prop :=
  (∃ name, f = .closedMeanwhile name) ∧ v.watcher.state ≠ .running

/-- What a request that has failed has made of the table `table`. -/
structure Untouched (table : Table) (f : Failure) (v : Session) : Prop where
  /-- Nothing has come to it unless the watcher was closed meanwhile. -/
  same : ¬ClosedMeanwhile v f → v.table = table
  /-- Whatever has come to it is dead. -/
  undone : Undone table v.table

namespace Request

/-- A request that goes on has not changed the table. -/
theorem Proceeds.table_eq (h : Proceeds s below stage stage' t) : t.table = s.table := by
  cases h with
  | @captures root observer label path c ready call resume answer => exact (Calm.notices _ _).table
  | _ => rfl

/-- A request that is under way leaves the table to the moves of others. -/
theorem Under.through (h : Under q s₀ inner own nested stage s) : Through s₀.table nested s.table := by
  induction h with
  | @begins u _ p h _ _ _ hperform =>
    rw [hperform]
    have htable : (u.beginResolution p q.purpose).table = s₀.table := h.prepared.table
    rw [htable]
    exact Through.nil
  | proceeds _ _ _ _ hp ih =>
    rw [hp.table_eq]
    exact ih
  | waits _ hm _ ih => exact ih.move hm

/-- An observer that joins a registration in vain is taken off again. -/
theorem join_failed {id : RegistrationId} {root : Path} {observer : Observer} {label : String}
    (h : (s.join id root observer label .watch).signal = some (.replied (.error f))) :
    ClosedMeanwhile (s.join id root observer label .watch) f ∧ (s.join id root observer label .watch).table =
      ((s.table.join id observer).1.cancel (s.table.join id observer).2).1 := by
  by_cases hrunning : s.watcher.state = .running
  · rw [join_running s id root observer label hrunning] at h
    cases h
  · have hleads := Leads.joinClosed s id root observer label hrunning
    refine ⟨⟨⟨s.watcher.name, ?_⟩, hleads.state ▸ hrunning⟩, hleads.table⟩
    rw [join_closed s id root observer label hrunning] at h
    cases h
    rfl

/-- A failure at the end tells of a close meanwhile, and the attachment has been undone. -/
theorem finishAttach_failed {root : Path} {observer : Observer} {label : String} {baseline : Snapshot} (hl : s.table.Linked)
    (h : (s.finishAttach root observer label .watch baseline).signal = some (.replied (.error f))) :
    ClosedMeanwhile (s.finishAttach root observer label .watch baseline) f ∧
      Undone s.table (s.finishAttach root observer label .watch baseline).table := by
  cases hfind : s.table.find? root with
  | some id =>
    rw [finishAttach_known hfind] at h ⊢
    obtain ⟨hclosed, htable⟩ := join_failed h
    exact ⟨hclosed, htable ▸ hl.undone_join hfind observer⟩
  | none =>
    rw [finishAttach_new hfind] at h ⊢
    obtain ⟨hclosed, htable⟩ := join_failed h
    exact ⟨hclosed, htable ▸ hl.undone_register hfind baseline observer⟩

/-- A request that fails leaves nothing alive in the table, and nothing at all unless the watcher was closed meanwhile. -/
theorem Returns.untouched (h : Returns s below stage t) (hl : s.table.Linked) (hf : t.signal = some (.replied (.error f))) :
    Untouched s.table f t := by
  cases h with
  | detaches => cases hf
  | @joins root observer label path ready id info hask hdirectory hid =>
    obtain ⟨hclosed, htable⟩ := join_failed hf
    exact ⟨fun hopen => absurd hclosed hopen, htable ▸ hl.undone_join hid observer⟩
  | @attaches root observer label path baseline =>
    obtain ⟨hclosed, hundone⟩ := finishAttach_failed (s := s.popped below) hl hf
    exact ⟨fun hopen => absurd hclosed hopen, hundone⟩
  | _ => exact ⟨fun _ => rfl, Undone.refl _⟩

/-- A request that fails leaves to the table what the moves of others have made of it. -/
theorem Ended.untouched (h : Ended q s₀ inner own nested (.error f) v) (hl : ∀ {ms s}, Moves s₀ ms s → s.table.Linked) :
    ∃ table, Through s₀.table nested table ∧ Untouched table f v := by
  have hsignal := h.stack.2
  cases h with
  | @atOnce u rest f h hstack hthread hdown hperform =>
    refine ⟨s₀.table, Through.nil, ?_⟩
    have htable : (u.perform q.action).table = s₀.table := by
      rw [hperform]
      exact h.prepared.table
    exact ⟨fun _ => htable, htable ▸ Undone.refl _⟩
  | returns h _ _ _ hr _ =>
    obtain ⟨ms, hms, -⟩ := h.moves
    exact ⟨_, h.through, hr.untouched (hl hms) hsignal⟩

end Request

/-- In every session that can be reached, a request to watch or unwatch a root leaves no trace in the table if it fails.
Every run that begins with the request leaves it under way or answers it at some move, and if the answer is a failure,
then
* the moves of others alone, those nested inside the request, take the table as it was to some `table`;
* the table after the answer is `table`, or the watcher was closed meanwhile and whatever has come to `table` is dead:
the roots, the registrations and the handles of `table` are as they were, every new registration is without handles, and
no new handle is active;
* no handle that is not in `table` already becomes active as the run goes on. -/
theorem atomic_of_moves {w : World} (hs : Opens w s) (hbefore : Moves s before s₀) (hbegins : Begins s₀ q.action u)
    (h : Moves (u.perform q.action) ms t) :
    ∃ inner, (∃ own nested stage, Request.Under q s₀ inner own nested stage t) ∨
      ∃ first after own nested reply v, ms = first ++ after ∧ Moves (u.perform q.action) first v ∧ Moves v after t ∧
        Request.Ended q s₀ inner own nested reply v ∧ ∀ f, reply = .error f →
        ∃ table, Through s₀.table nested table ∧
          Untouched table f v ∧ ∀ k handle, table.handles[k]? = none → v.table.handles[k]? = some handle →
            t.table.isActive k = false := by
  obtain ⟨inner, hunder | ⟨first, after, own, nested, reply, v, hms, hfirst, hafter, hended⟩⟩ :=
    Request.request_followed hbegins h
  · exact ⟨inner, Or.inl hunder⟩
  have hlinked : ∀ {ms s'}, Moves s₀ ms s' → s'.table.Linked := fun hms' => (hbefore.trans hms').edits.linked hs.linked
  refine ⟨inner, Or.inr ⟨first, after, own, nested, reply, v, hms, hfirst, hafter, hended, ?_⟩⟩
  rintro f rfl
  obtain ⟨table, hthrough, huntouched⟩ := hended.untouched hlinked
  refine ⟨table, hthrough, huntouched, fun k handle hnone hget => ?_⟩
  have hdead := huntouched.undone.newHandles hnone hget
  rw [Table.isActive, hafter.edits.retired k handle hget hdead]
  exact hdead

/-- A world in which the watcher is closed while the directory `/w` is listed, and an observer is attached to it all the
same. -/
def contested : World where
  disk := { root := .directory [("w", .directory [] 1)] 0 }
  faults := [(("/w", .list), .precede [.close, .attach ⟨.root, ["w"]⟩ (.named "b" (.text "b")) "b"])]

def contestedWatcher : Session :=
  (createRunning contested {}).toOption.getD default

def contestedRequest : Request :=
  .watch (.path ⟨.root, ["w"]⟩) (.named "a" (.text "a")) "a"

def contestedBegun : Session :=
  { contestedWatcher with signal := none }.perform contestedRequest.action

def contestedWatch : Session :=
  run 17 contestedBegun

/-- The root stays watched by the observer that has come in between, and the one of the failed request is not attached
to it. -/
theorem atomic_of_moves_contested : contestedWatch.isOvertaken = true ∧ contestedWatch.table.roots = [⟨.root, ["w"]⟩] ∧
    contestedWatch.table.handlesOf 0 = [0] ∧ contestedWatch.table.isActive 0 = true ∧
    contestedWatch.table.isActive 1 = false ∧
    ∃ own nested f table, Request.Ended contestedRequest contestedWatcher [] own nested (.error f) contestedWatch ∧
      Through contestedWatcher.table nested table ∧ Untouched table f contestedWatch := by
  have hopens : Opens contested contestedWatcher := Opens.running_of_isSome (by decide +kernel)
  have hrest : contestedWatcher.step.isNone = true := by decide +kernel
  have hbegins : Begins contestedWatcher contestedRequest.action { contestedWatcher with signal := none } :=
    Begins.outside (Option.isNone_iff_eq_none.mp hrest)
  have hstack : contestedWatch.stack.isEmpty = true := by decide +kernel
  have hparked : contestedWatch.parked.isEmpty = true := by decide +kernel
  have hovertaken : contestedWatch.isOvertaken = true := by decide +kernel
  obtain ⟨inner, ⟨own, nested, stage, hunder⟩ | ⟨first, after, own, nested, reply, v, hms, -, hafter, hended,
    huntouched⟩⟩ :=
    atomic_of_moves hopens Moves.refl hbegins (moves_run 17 contestedBegun)
  · exact absurd (List.isEmpty_iff.mp hstack) (hunder.busy (List.isEmpty_iff.mp hparked))
  obtain rfl := hended.inner_nil hopens.fresh.stack
  have hsteps : ∀ m ∈ after, m.1.step = some m.2 := fun m hm =>
    step_of_movesOf (hms ▸ List.mem_append_right first hm)
  have hstop : v.step = none := by
    unfold step
    rw [hended.stack_nil]
  obtain rfl : contestedWatch = v := hafter.eq_of_rest hstop hsteps
  have hreply := hended.stack.2
  unfold isOvertaken at hovertaken
  split at hovertaken
  · rename_i name hsignal
    rw [hsignal] at hreply
    cases hreply
    obtain ⟨table, hthrough, htable, -⟩ := huntouched _ rfl
    exact ⟨by decide +kernel, by decide +kernel, by decide +kernel, by decide +kernel, by decide +kernel, own, nested, _,
      table, hended,
      hthrough, htable⟩
  · cases hovertaken

end DirWatch.Session
