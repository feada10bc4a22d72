import DirWatch.Proofs.Session.Leads

/-!
# The frames of a session

A session keeps its frames on the stack or parked. Parking and unparking move frames and change nothing else (`park_eq`,
`unpark?_eq`), so the frames are the same up to their order.
-/

namespace DirWatch.Session

/-- The frames of a session: those on the stack and those that are parked. -/
def frames (s : Session) : List Frame :=
  s.stack ++ s.parked.flatten

variable {s t : Session} {table : Table} {state : WatcherState} {fs : List Frame}

/-- A part of a step adds frames and parks nothing. -/
theorem Leads.frames (h : Leads s t table state fs) : t.frames = fs ++ s.frames := by
  rw [Session.frames, h.stack, h.parked, Session.frames, List.append_assoc]

/-- The poll of a job, with the frames above it and those below. -/
theorem splitJob?_eq {stack above below : List Frame} (h : splitJob? stack = some (above, below)) :
    stack = above ++ below ∧ ∃ first f, above = first ++ [f] ∧ (jobOf? f).isSome := by
  induction stack generalizing above below with
  | nil => cases h
  | cons f rest ih =>
    unfold splitJob? at h
    split at h
    · rename_i hjob
      cases h
      exact ⟨rfl, [], f, rfl, by rw [hjob]; rfl⟩
    · obtain ⟨⟨above', below'⟩, hsplit, heq⟩ := Option.map_eq_some_iff.mp h
      cases heq
      obtain ⟨hrest, first, g, habove, hjob⟩ := ih hsplit
      exact ⟨by rw [hrest]; rfl, f :: first, g, by rw [habove]; rfl, hjob⟩

/-- Parking takes the frames from the top down to the poll of a job off the stack. -/
theorem park_eq (h : s.park = some t) : ∃ above below, s.stack = above ++ below ∧
    (∃ first f, above = first ++ [f] ∧ (jobOf? f).isSome) ∧
    t = { s with parked := s.parked ++ [above], stack := below } := by
  unfold park at h
  split at h
  · cases h
  · rename_i above below hsplit
    cases h
    obtain ⟨hstack, hlast⟩ := splitJob?_eq hsplit
    exact ⟨above, below, hstack, hlast, rfl⟩

/-- Unparking puts the frames that wait longest on the stack. -/
theorem unpark?_eq (h : s.unpark? = some t) : ∃ above rest, s.parked = above :: rest ∧
    t = { s with parked := rest, stack := above ++ s.stack } := by
  unfold unpark? at h
  split at h
  · cases h
  · rename_i above rest hparked
    cases h
    exact ⟨above, rest, hparked, rfl⟩

/-- Parking leaves the table alone. -/
theorem park_table (h : s.park = some t) : t.table = s.table := by
  obtain ⟨above, below, -, -, rfl⟩ := park_eq h
  rfl

/-- Unparking leaves it alone, too. -/
theorem unpark?_table (h : s.unpark? = some t) : t.table = s.table := by
  obtain ⟨above, rest, -, rfl⟩ := unpark?_eq h
  rfl

/-- A frame that is parked is still one of the session. -/
theorem park_frames (h : s.park = some t) : t.frames.Perm s.frames := by
  obtain ⟨above, below, hstack, -, rfl⟩ := park_eq h
  rw [Session.frames, Session.frames, hstack, List.flatten_concat, List.append_assoc]
  refine List.Perm.trans ?_ (List.perm_append_comm_assoc below above _)
  exact List.Perm.append_left below List.perm_append_comm

theorem unpark?_frames (h : s.unpark? = some t) : t.frames.Perm s.frames := by
  obtain ⟨above, rest, hparked, rfl⟩ := unpark?_eq h
  rw [Session.frames, Session.frames, hparked, List.flatten_cons, List.append_assoc]
  exact List.perm_append_comm_assoc above s.stack _

/-- A session without its top frame and the signal for it. -/
def popped (s : Session) (below : List Frame) : Session :=
  { s with stack := below, signal := none }

section

variable {frame : Frame} {below : List Frame} (hstack : s.stack = frame :: below)

include hstack

/-- The frame on top is the first of all. -/
theorem frames_popped : s.frames = frame :: (s.popped below).frames := by
  rw [frames, hstack]
  rfl

theorem top_mem_frames : frame ∈ s.frames := by
  rw [frames_popped hstack]
  exact List.mem_cons_self

theorem mem_frames_of_popped {f : Frame} (hf : f ∈ (s.popped below).frames) : f ∈ s.frames := by
  rw [frames_popped hstack]
  exact List.mem_cons_of_mem _ hf

end

end DirWatch.Session
