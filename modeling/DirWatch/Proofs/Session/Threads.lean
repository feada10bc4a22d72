import DirWatch.Proofs.Session.Stacks

/-!
# What stays in its thread

A thread of the pool works on top of the poll of its job, and parks together with it; the frames below all jobs belong
to no such thread. Frames that reach down to the end of their thread therefore stay together wherever they are, on the
stack or parked, until they are in control themselves (`Move.holds`).
-/

namespace DirWatch.Session

/-- Frames that end with the poll of a job, the only one among them. -/
def IsWorker (fs : List Frame) : Prop :=
  ∃ first f, fs = first ++ [f] ∧ (∀ g ∈ first, jobOf? g = none) ∧ (jobOf? f).isSome = true

/-- Frames that reach down to the end of their thread, with others below. -/
def OfThread (fs rest : List Frame) : Prop :=
  IsWorker fs ∨ rest = [] ∧ ∀ f ∈ fs, jobOf? f = none

/-- Frames of one thread are on the stack or parked. -/
inductive Holds (s : Session) (fs : List Frame) : Prop
  | stands {above rest} (hstack : s.stack = above ++ (fs ++ rest)) (hthread : OfThread fs rest)
  | parked {above} (hmem : above ++ fs ∈ s.parked) (hworker : IsWorker fs)

variable {s t : Session} {fs rest above below : List Frame}

/-- Frames that belong to no job of their own belong to the thread below them. -/
theorem OfThread.prepend (h : OfThread fs rest) (own : List Frame) (hown : ∀ f ∈ own, jobOf? f = none) :
    OfThread (own ++ fs) rest := by
  rcases h with ⟨first, f, rfl, hfirst, hjob⟩ | ⟨rfl, hnone⟩
  · refine Or.inl ⟨own ++ first, f, (List.append_assoc ..).symm, fun g hg => ?_, hjob⟩
    exact (List.mem_append.mp hg).elim (hown g) (hfirst g)
  · exact Or.inr ⟨rfl, fun f hf => (List.mem_append.mp hf).elim (hown f) (hnone f)⟩

/-- Without them the thread still reaches to its end. -/
theorem OfThread.of_prepend {own : List Frame} (hown : ∀ f ∈ own, jobOf? f = none) (h : OfThread (own ++ fs) rest) :
    OfThread fs rest := by
  rcases h with ⟨first, f, heq, hfirst, hjob⟩ | ⟨rfl, hnone⟩
  · rcases List.eq_nil_or_concat fs with rfl | ⟨l, g, rfl⟩
    · have hmem : f ∈ own := by
        rw [List.append_nil] at heq
        rw [heq]
        exact List.mem_append_right _ (List.mem_singleton_self _)
      rw [hown f hmem] at hjob
      cases hjob
    · rw [List.concat_eq_append, ← List.append_assoc] at heq
      obtain ⟨rfl, hlast⟩ := List.append_inj' heq rfl
      cases hlast
      exact Or.inl ⟨l, f, List.concat_eq_append, fun g hg => hfirst g (List.mem_append_right _ hg), hjob⟩
  · exact Or.inr ⟨rfl, fun f hf => hnone f (List.mem_append_right _ hf)⟩

/-- Every stack begins with the frames of one thread. -/
theorem exists_thread (stack : List Frame) : ∃ fs rest, stack = fs ++ rest ∧ OfThread fs rest := by
  induction stack with
  | nil => exact ⟨[], [], rfl, Or.inr ⟨rfl, List.forall_mem_nil _⟩⟩
  | cons f stack ih =>
    cases hjob : jobOf? f with
    | some id => exact ⟨[f], stack, rfl, Or.inl ⟨[], f, rfl, List.forall_mem_nil _, by rw [hjob]; rfl⟩⟩
    | none =>
      obtain ⟨fs, rest, rfl, hthread⟩ := ih
      exact ⟨f :: fs, rest, rfl, hthread.prepend [f] (by simpa using hjob)⟩

/-- The frames of a worker are split off from those below. -/
theorem splitJob?_append (h : IsWorker fs) (rest : List Frame) : splitJob? (fs ++ rest) = some (fs, rest) := by
  obtain ⟨first, f, rfl, hfirst, hjob⟩ := h
  induction first with
  | nil =>
    obtain ⟨id, hid⟩ := Option.isSome_iff_exists.mp hjob
    rw [List.nil_append, List.singleton_append, splitJob?, hid]
  | cons g first ih =>
    obtain ⟨hnone, hrest⟩ := List.forall_mem_cons.mp hfirst
    rw [List.cons_append, List.cons_append, splitJob?, hnone, ih hrest]
    rfl

/-- The frames of a worker are below what is parked, or they are parked with what is above them. -/
theorem splitJob?_worker {a b : List Frame} (h : IsWorker fs) (hsplit : splitJob? (above ++ (fs ++ rest)) = some (a, b)) :
    (∃ more, b = more ++ (fs ++ rest)) ∨ a = above ++ fs ∧ b = rest := by
  induction above generalizing a with
  | nil =>
    rw [List.nil_append, splitJob?_append h] at hsplit
    cases hsplit
    exact Or.inr ⟨rfl, rfl⟩
  | cons g above ih =>
    rw [List.cons_append] at hsplit
    unfold splitJob? at hsplit
    split at hsplit
    · cases hsplit
      exact Or.inl ⟨above, rfl⟩
    · obtain ⟨⟨a', b'⟩, hrest, heq⟩ := Option.map_eq_some_iff.mp hsplit
      cases heq
      exact (ih hrest).imp_right fun ⟨ha, hb⟩ => ⟨congrArg (g :: ·) ha, hb⟩

/-- Frames that are put on the stack come on top. -/
theorem Lifts.holds (hl : Lifts s t) (h : Holds s fs) : Holds t fs := by
  cases hl with
  | pushes gs hstack hparked =>
    cases h with
    | stands hold hthread =>
      rw [hold, ← List.append_assoc] at hstack
      exact Holds.stands hstack hthread
    | parked hmem hworker => exact Holds.parked (hparked ▸ hmem) hworker
  | unparks back gs hstack hparked =>
    cases h with
    | stands hold hthread =>
      rw [hold, ← List.append_assoc, ← List.append_assoc] at hstack
      exact Holds.stands hstack hthread
    | parked hmem hworker =>
      rw [hparked] at hmem
      rcases List.mem_cons.mp hmem with rfl | hmem
      · rw [List.append_assoc] at hstack
        exact Holds.stands hstack (Or.inl hworker)
      · exact Holds.parked hmem hworker

/-- What is not in control stays together. -/
theorem Move.holds (hm : Move s t) (h : Holds s fs) (hwaits : ∀ rest, OfThread fs rest → s.stack ≠ fs ++ rest) :
    Holds t fs := by
  cases hm with
  | act action _ =>
    have hquiet : Holds { s with signal := none } fs := by
      cases h with
      | stands hstack hthread => exact Holds.stands hstack hthread
      | parked hmem hworker => exact Holds.parked hmem hworker
    exact (perform_effect { s with signal := none } action).lifts.holds hquiet
  | step ht =>
    obtain ⟨frame, below, htop, hturn⟩ := step_turn ht
    have hpopped : Holds (s.popped below) fs := by
      cases h with
      | @stands above rest hstack hthread =>
        cases above with
        | nil => exact absurd hstack (hwaits rest hthread)
        | cons g above =>
          rw [htop] at hstack
          cases hstack
          exact Holds.stands rfl hthread
      | parked hmem hworker => exact Holds.parked hmem hworker
    rcases hturn.lifts with hlifts | ⟨g, parked, hjob, hsplit, hparked⟩
    · exact hlifts.holds hpopped
    · cases hpopped with
      | @stands above rest hstack hthread =>
        have hsplit : splitJob? ((g :: above) ++ (fs ++ rest)) = some (parked, t.stack) := by
          rw [List.cons_append, ← hstack]
          exact hsplit
        rcases hthread with hworker | ⟨rfl, hfree⟩
        · rcases splitJob?_worker hworker hsplit with ⟨more, hmore⟩ | ⟨rfl, -⟩
          · exact Holds.stands hmore (Or.inl hworker)
          · exact Holds.parked (hparked ▸ List.mem_append_right _ (List.mem_singleton_self _)) hworker
        · rw [List.append_nil] at hsplit
          obtain ⟨more, hmore⟩ := splitJob?_free hfree hsplit
          rw [← List.append_nil fs] at hmore
          exact Holds.stands hmore (Or.inr ⟨rfl, hfree⟩)
      | parked hmem hworker => exact Holds.parked (hparked ▸ List.mem_append_left _ hmem) hworker

end DirWatch.Session
