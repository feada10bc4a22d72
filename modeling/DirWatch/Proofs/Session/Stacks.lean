import DirWatch.Proofs.Session.Jobs
import DirWatch.Proofs.Session.Moves

/-!
# The stack below a job

What is done on top of the poll of a job stays on top of it: until that poll ends or is parked, a move leaves the frames
below it as they are (`Move.stays`). Parking takes exactly one job off the stack, so each of the parked lists holds the
frames of one (`Parks`).
-/

namespace DirWatch.Session

/-- Frames that end with the poll of a job, if there are any. -/
def Rooted (above : List Frame) : Prop :=
  above = [] ∨ ∃ first f, above = first ++ [f] ∧ (jobOf? f).isSome = true

/-- What is parked are the frames of one job each. -/
def Parks (s : Session) : Prop :=
  ∀ fs ∈ s.parked, (fs.filterMap jobOf?).length = 1

variable {cause : Option Action} {s t u : Session} {signal : Option Signal} {frame f : Frame}
  {frames above below base first : List Frame} {allowed : Action → Prop} {log : List (RegistrationId × List Change)}

/-! ## Splitting off a job -/

/-- No job is above the one that is split off. -/
theorem splitJob?_single (h : splitJob? frames = some (above, below)) : (above.filterMap jobOf?).length = 1 := by
  induction frames generalizing above below with
  | nil => cases h
  | cons f rest ih =>
    unfold splitJob? at h
    split at h
    · rename_i hjob
      cases h
      rw [List.filterMap_cons_some hjob]
      rfl
    · rename_i hjob
      obtain ⟨⟨above', below'⟩, hsplit, heq⟩ := Option.map_eq_some_iff.mp h
      cases heq
      rw [List.filterMap_cons_none hjob]
      exact ih hsplit

/-- What is below a job on the stack is not split off with the jobs above it. -/
theorem splitJob?_rooted (hjob : (jobOf? f).isSome = true) (h : splitJob? (first ++ f :: base) = some (above, below)) :
    ∃ rest, below = rest ++ base ∧ Rooted rest := by
  induction first generalizing above below with
  | nil =>
    obtain ⟨a, ha⟩ := Option.isSome_iff_exists.mp hjob
    rw [List.nil_append, splitJob?, ha] at h
    cases h
    exact ⟨[], rfl, Or.inl rfl⟩
  | cons g first ih =>
    rw [List.cons_append] at h
    unfold splitJob? at h
    split at h
    · cases h
      exact ⟨first ++ [f], by rw [List.append_assoc]; rfl, Or.inr ⟨first, f, rfl, hjob⟩⟩
    · obtain ⟨⟨above', below'⟩, hsplit, heq⟩ := Option.map_eq_some_iff.mp h
      cases heq
      exact ih hsplit

/-- Frames below all jobs are not split off. -/
theorem splitJob?_free (hfree : ∀ f ∈ base, jobOf? f = none) (h : splitJob? (first ++ base) = some (above, below)) :
    ∃ rest, below = rest ++ base := by
  induction first generalizing above with
  | nil =>
    obtain ⟨heq, last, f, rfl, hjob⟩ := splitJob?_eq h
    have hmem : f ∈ base := by
      rw [show base = _ from heq]
      exact List.mem_append_left _ (List.mem_append_right _ List.mem_cons_self)
    rw [hfree f hmem] at hjob
    cases hjob
  | cons g first ih =>
    rw [List.cons_append] at h
    unfold splitJob? at h
    split at h
    · cases h
      exact ⟨first, rfl⟩
    · obtain ⟨⟨above', below'⟩, hsplit, heq⟩ := Option.map_eq_some_iff.mp h
      cases heq
      exact ih hsplit

/-- A session parks at most what is above and with the next job. -/
theorem park_split (h : s.park = some t) : ∃ above, splitJob? s.stack = some (above, t.stack) ∧
    t.parked = s.parked ++ [above] := by
  unfold park at h
  split at h
  · cases h
  · rename_i above below hsplit
    cases h
    exact ⟨above, hsplit, rfl⟩

/-! ## Moves -/

/-- Frames are put on the stack, and nothing is parked. -/
inductive Lifts (s t : Session) : Prop
  | pushes (fs : List Frame) (hstack : t.stack = fs ++ s.stack) (hparked : t.parked = s.parked)
  /-- What is parked longest goes back on the stack, above others. -/
  | unparks (above fs : List Frame) (hstack : t.stack = above ++ (fs ++ s.stack)) (hparked : s.parked = above :: t.parked)

/-- What was on the stack stays there, below the new frames. -/
theorem Lifts.stack (h : Lifts s t) :
    (∃ fs, t.stack = fs ++ s.stack) ∧ (t.parked = s.parked ∨ ∃ fs, s.parked = fs :: t.parked) := by
  cases h with
  | pushes fs hstack hparked => exact ⟨⟨fs, hstack⟩, Or.inl hparked⟩
  | unparks above fs hstack hparked =>
    exact ⟨⟨above ++ fs, by rw [hstack, List.append_assoc]⟩, Or.inr ⟨above, hparked⟩⟩

/-- A part of a step only puts frames on the stack. -/
theorem Leads.lifts {table : Table} {state : WatcherState} {fs : List Frame} (h : Leads s t table state fs) : Lifts s t :=
  Lifts.pushes _ h.stack h.parked

/-- What is unparked comes on top of what was pushed before. -/
theorem Leads.unparks {table : Table} {state : WatcherState} {fs : List Frame} (h : Leads s u table state fs)
    (ht : u.unpark? = some t) : Lifts s t := by
  obtain ⟨above, rest, hparked, rfl⟩ := unpark?_eq ht
  exact Lifts.unparks _ _ (congrArg (above ++ ·) h.stack) (h.parked.symm.trans hparked)

/-- A part of a step may come before whatever lifts. -/
theorem Leads.then_lifts {table : Table} {state : WatcherState} {fs : List Frame} (h : Leads s u table state fs)
    (ht : Lifts u t) : Lifts s t := by
  cases ht with
  | pushes gs hstack hparked =>
    rw [h.stack, ← List.append_assoc] at hstack
    exact Lifts.pushes _ hstack (hparked.trans h.parked)
  | unparks above gs hstack hparked =>
    refine Lifts.unparks above (gs ++ fs) ?_ (h.parked.symm.trans hparked)
    rw [hstack, h.stack, List.append_assoc]

/-- An action puts frames on the stack, and parks nothing. -/
theorem Effect.lifts (he : Effect cause s t) : Lifts s t := by
  cases he with
  | quiet h _ => exact h.lifts
  | starts h _ => exact h.lifts
  | cancels _ h => exact h.lifts
  | joins _ h _ => exact h.lifts
  | revokes _ h => exact h.lifts
  | attaches h _ => exact h.lifts
  | reports h => exact h.lifts
  | clears h => exact h.lifts
  | polls h => exact h.lifts
  | closes h _ => exact h.lifts
  | closed h => exact h.lifts
  | closedUncleared h _ => exact h.lifts
  | unparks h ht => exact h.unparks ht
  | rewrites _ hu _ => exact Lifts.pushes [] hu.stack hu.parked
  | disables _ hu => exact Lifts.pushes [] hu.stack hu.parked

/-- A step puts frames on the stack in place of the one in control, or it parks the frames down to the next job. -/
theorem Turn.lifts (hturn : Turn cause s frame signal t) : Lifts s t ∨
    ∃ g above, jobOf? g = none ∧ splitJob? (g :: s.stack) = some (above, t.stack) ∧ t.parked = s.parked ++ [above] := by
  cases hturn with
  | acts _ h _ he => exact Or.inl (h.then_lifts he.lifts)
  | startsJob _ h _ => exact Or.inl h.lifts
  | stays h => exact Or.inl h.lifts
  | unparks h ht => exact Or.inl (h.unparks ht)
  | clears h => exact Or.inl h.lifts
  | uncleared h _ => exact Or.inl h.lifts
  | parks hu ht =>
    obtain ⟨above, hsplit, hparked⟩ := park_split ht
    rw [hu.stack] at hsplit
    exact Or.inr ⟨_, above, rfl, hsplit, by rw [hparked, hu.parked]⟩
  | asks _ _ h => exact Or.inl h.lifts
  | waits h => exact Or.inl h.lifts
  | hands _ => exact Or.inl (Lifts.pushes [] rfl rfl)
  | attaches he _ => exact Or.inl he.lifts
  | registers _ h _ => exact Or.inl h.lifts
  | revokes _ h => exact Or.inl h.lifts
  | enters _ _ h => exact Or.inl h.lifts
  | compares _ h => exact Or.inl h.lifts
  | passes h => exact Or.inl h.lifts
  | @calls id owner gate gate' current waiting waiting' report signal u h handle actions _ _ hu =>
    have hstack := congrArg (Frame.observing h report.changes actions none :: ·) hu.stack
    exact Or.inl (Lifts.pushes [_, _] hstack hu.parked)
  | @ends id owner gate stage signal r outcome u _ _ hu =>
    have hend := endPoll_leads u id owner outcome
    exact Or.inl (Lifts.pushes [] (hend.stack.trans hu.stack) (hend.parked.trans hu.parked))

/-- A poll stays on the stack until it ends. -/
theorem PollMove.stack {id : RegistrationId} {owner : PollOwner} {gate : Gate} {stage : PollStage}
    (h : PollMove s below id owner gate stage signal t) :
    t.stack = below ∨ ∃ fs gate' stage', t.stack = fs ++ .polling id owner gate' stage' :: below := by
  cases h with
  | @enters _ _ r capturedAt _ _ _ hstack _ =>
    exact Or.inr ⟨[.capturing { root := r.root, patterns := s.patterns, capturedAt } false], gate, .capturing, hstack⟩
  | compares _ _ _ hstack _ => exact Or.inr ⟨[], _, _, hstack⟩
  | passes _ _ _ _ hstack _ => exact Or.inr ⟨[], _, _, hstack⟩
  | calls _ _ _ _ _ _ hstack _ => exact Or.inr ⟨[_], _, _, hstack⟩
  | ends _ _ hu _ => exact Or.inl ((endPoll_leads _ _ _ _).stack.trans hu.stack)

/-- Frames above those of a job belong to it. -/
theorem Rooted.append {fs : List Frame} (hjob : (jobOf? f).isSome = true) : Rooted (fs ++ (first ++ [f])) :=
  Or.inr ⟨fs ++ first, f, (List.append_assoc ..).symm, hjob⟩

/-- As long as the poll of a job is on the stack, the frames below it stay. -/
theorem Move.stays (hm : Move s t) (hjob : (jobOf? f).isSome = true) (hstack : s.stack = (first ++ [f]) ++ base) :
    ∃ above, t.stack = above ++ base ∧ Rooted above := by
  cases hm with
  | act action _ =>
    obtain ⟨⟨fs, hfs⟩, -⟩ := (perform_effect { s with signal := none } action).lifts.stack
    refine ⟨fs ++ (first ++ [f]), ?_, Rooted.append hjob⟩
    rw [hfs, List.append_assoc]
    exact congrArg (fs ++ ·) hstack
  | step ht =>
    obtain ⟨frame, below, htop, hturn⟩ := step_turn ht
    rw [hstack] at htop
    cases first with
    | nil =>
      -- the job itself is in control
      cases htop
      obtain ⟨a, ha⟩ := Option.isSome_iff_exists.mp hjob
      obtain ⟨id, gate, stage, rfl⟩ := jobOf?_eq_some.mp ha
      rcases (step_move hstack ht).stack with hbelow | ⟨fs, gate', stage', hback⟩
      · exact ⟨[], hbelow, Or.inl rfl⟩
      · exact ⟨fs ++ [.polling id (.job a) gate' stage'], by rw [hback, List.append_assoc]; rfl,
          Or.inr ⟨fs, _, rfl, rfl⟩⟩
    | cons g first =>
      cases htop
      rcases hturn.lifts with hlifts | ⟨g', above, -, hsplit, -⟩
      · obtain ⟨⟨fs, hfs⟩, -⟩ := hlifts.stack
        refine ⟨fs ++ (first ++ [f]), ?_, Rooted.append hjob⟩
        rw [hfs, List.append_assoc]
        rfl
      · have heq : g' :: ((first ++ [f]) ++ base) = (g' :: first) ++ f :: base := by
          rw [List.append_assoc]
          rfl
        exact splitJob?_rooted hjob (heq ▸ hsplit)

/-- Parked are the frames of one job each, whatever happens. -/
theorem Move.parks (h : s.Parks) (hm : Move s t) : t.Parks := by
  have hkept : t.parked = s.parked ∨ (∃ fs, s.parked = fs :: t.parked) → t.Parks := by
    rintro (hsame | ⟨fs, hrest⟩)
    · exact fun fs hmem => h fs (hsame ▸ hmem)
    · exact fun gs hmem => h gs (hrest ▸ List.mem_cons_of_mem fs hmem)
  cases hm with
  | act action _ => exact hkept (perform_effect { s with signal := none } action).lifts.stack.2
  | step ht =>
    obtain ⟨frame, below, -, hturn⟩ := step_turn ht
    rcases hturn.lifts with hlifts | ⟨g, above, -, hsplit, hparked⟩
    · exact hkept hlifts.stack.2
    · intro fs hmem
      rw [hparked] at hmem
      rcases List.mem_append.mp hmem with hmem | hmem
      · exact h fs hmem
      · rw [List.mem_singleton.mp hmem]
        exact splitJob?_single hsplit

/-- On every run, what is parked are the frames of one job each. -/
theorem parks_of_run {w : World} (hs : Opens w s) (h : Run allowed s log t) : t.Parks := by
  refine h.keeps Move.parks ?_
  intro fs hmem
  rw [hs.fresh.parked] at hmem
  cases hmem

/-- As many jobs are parked as there are parked lists of frames. -/
theorem Parks.length (h : s.Parks) : (s.parked.flatten.filterMap jobOf?).length = s.parked.length := by
  have hsum : ∀ {parked : List (List Frame)}, (∀ fs ∈ parked, (fs.filterMap jobOf?).length = 1) →
      (parked.flatten.filterMap jobOf?).length = parked.length := by
    intro parked hone
    induction parked with
    | nil => rfl
    | cons fs parked ih =>
      rw [List.flatten_cons, List.filterMap_append, List.length_append, hone fs List.mem_cons_self,
        ih fun gs hmem => hone gs (List.mem_cons_of_mem fs hmem), List.length_cons, Nat.add_comm]
  exact hsum h

end DirWatch.Session
