import DirWatch.Proofs.Resolution.Termination
import DirWatch.Proofs.Session.Requests
import DirWatch.Proofs.Session.Snapshots

/-!
# Requests that nothing interrupts

If all that can go wrong with a call is that the system refuses it, nothing else happens while a request for a root is
under way, and the tree stays as it is (`Alone`). The request is then answered, unless links nest without end in the
resolution of its root; and that cannot be if the root is absolute (`completes_or_deepens`).
-/

namespace DirWatch.Session.Request

open Resolution (Goes Whole)

/-- A request has gone on by itself since it began in a session, and it is in control. -/
structure Alone (q : Request) (s₀ : Session) (inner : List Frame) (u : Session) (own : List Session) (stage : q.Stage)
    (s : Session) : Prop where
  under : Under q s₀ inner own [] stage s
  controls : ∃ rest, OfThread inner rest ∧ Controls s stage (inner ++ rest)
  fresh : stage.isReady = false
  disk : s.disk = u.disk
  faults : s.faults = u.faults
  own : ∀ x ∈ own, x.disk = u.disk ∧ x.faults = u.faults

/-- A request will be answered, and it will have been in control of its own tree until then. -/
def Completes (q : Request) (s₀ : Session) (inner : List Frame) (u s : Session) : Prop :=
  ∃ n own reply, Ended q s₀ inner own [] reply (run n s) ∧ ∀ x ∈ own, x.disk = u.disk ∧ x.faults = u.faults

variable {q : Request} {s s₀ t u : Session} {stage stage' : q.Stage} {inner below : List Frame} {own : List Session}
  {root : RootArgument} {observer : Observer} {label : String} {path : Path} {c : Capture} {r r' : Resolution}

/-- A request will be answered if it will be after a step. -/
theorem Completes.of_step (ht : s.step = some t) (h : Completes q s₀ inner u t) : Completes q s₀ inner u s := by
  obtain ⟨n, own, reply, hended, hown⟩ := h
  refine ⟨n + 1, own, reply, ?_, hown⟩
  rw [run, ht]
  exact hended

/-- The same for any number of steps. -/
theorem Completes.of_run {n : Nat} (h : Completes q s₀ inner u (run n s)) : Completes q s₀ inner u s := by
  induction n generalizing s with
  | zero => exact h
  | succ n ih =>
    cases ht : s.step with
    | none =>
      rw [run, ht] at h
      exact h
    | some t =>
      rw [run, ht] at h
      exact (ih h).of_step ht

/-- Without a pause a request stays in control, and of the same tree. -/
theorem Proceeds.stays (h : Proceeds s below stage stage' t) (honly : s.onlyRefuses = true) :
    Controls t stage' below ∧ stage'.isReady = false ∧ t.disk = s.disk ∧ t.faults = s.faults := by
  cases h with
  | pauses _ hfault _ =>
    obtain ⟨reason, heq⟩ := refuse_of_fault honly hfault
    cases heq
  | @captures root observer label path c ready call resume answer =>
    have hnotices := Undisturbed.notices (s.popped (.attaching path observer label .watch :: below)) (resume answer).2
    refine ⟨⟨congrArg (_ :: ·) (Calm.notices _ _).stack, trivial⟩, rfl, hnotices.disk, hnotices.faults⟩
  | hands => exact ⟨⟨rfl, rfl⟩, rfl, rfl, rfl⟩
  | _ => exact ⟨⟨rfl, trivial⟩, rfl, rfl, rfl⟩

/-- A request that goes on by itself gets the answers of its first session. -/
theorem Alone.answerTo? (h : Alone q s₀ inner u own stage s) (call : Call) : s.answerTo? call = u.answerTo? call :=
  answerTo?_congr (by rw [faultOf?, faultOf?, h.faults, h.disk]) (by rw [h.disk])

section

variable (honly : u.onlyRefuses = true)

include honly

/-- A request that goes on by itself goes on so, or it is answered. -/
theorem Alone.step (h : Alone q s₀ inner u own stage s) : ∃ t, s.step = some t ∧
    ((∃ below stage', Proceeds s below stage stage' t ∧ Alone q s₀ inner u (own ++ [s]) stage' t) ∨
      Completes q s₀ inner u t) := by
  obtain ⟨rest, hthread, hcontrols⟩ := h.controls
  have hs : s.onlyRefuses = true := by
    unfold onlyRefuses
    rw [h.faults]
    exact honly
  have hown : ∀ x ∈ own ++ [s], x.disk = u.disk ∧ x.faults = u.faults := by
    intro x hx
    rcases List.mem_append.mp hx with hx | hx
    · exact h.own x hx
    · rw [List.mem_singleton.mp hx]
      exact ⟨h.disk, h.faults⟩
  obtain ⟨t, ht, ⟨stage', hp⟩ | hr⟩ := step_request hcontrols
  · obtain ⟨hcontrols', hfresh, hdisk, hfaults⟩ := hp.stays hs
    exact ⟨t, ht,
      Or.inl ⟨_, stage', hp, Under.proceeds h.under hthread hcontrols ht hp, ⟨rest, hthread, hcontrols'⟩, hfresh,
      hdisk.trans h.disk, hfaults.trans h.faults, hown⟩⟩
  · obtain ⟨reply, hreply⟩ := hr.replied
    exact ⟨t, ht, Or.inr ⟨0, _, reply, Ended.returns h.under hthread hcontrols ht hr hreply, hown⟩⟩

/-! ## Captures -/

/-- A request whose capture has come to its end is answered. -/
theorem Alone.completes_captured {result : Except Failure Snapshot}
    (h : Alone (watch root observer label) s₀ inner u own (.captured path result) s) :
    Completes (watch root observer label) s₀ inner u s := by
  obtain ⟨t, ht, ⟨below, stage', hp, -⟩ | hcompletes⟩ := h.step honly
  · cases hp with
    | pauses hcall _ _ => cases hcall
  · exact hcompletes.of_step ht

/-- A capture that ends lets its request be answered. -/
theorem Alone.completes_capturing {outcome : Except CaptureError Snapshot} (hends : Capture.Ends u.answerTo? c outcome)
    (h : Alone (watch root observer label) s₀ inner u own (.capturing path c false) s) :
    Completes (watch root observer label) s₀ inner u s := by
  induction hends generalizing s own with
  | stop hnext =>
    obtain ⟨t, ht, ⟨below, stage', hp, halone⟩ | hcompletes⟩ := h.step honly
    · cases hp with
      | pauses _ _ hready =>
        cases halone.fresh
      | captures hask =>
        rw [hnext] at hask
        cases hask
      | hands => exact (halone.completes_captured honly).of_step ht
    · exact hcompletes.of_step ht
  | @ask c call resume a outcome hnext ha _ ih =>
    obtain ⟨t, ht, ⟨below, stage', hp, halone⟩ | hcompletes⟩ := h.step honly
    · cases hp with
      | pauses => cases halone.fresh
      | @captures _ _ _ _ _ _ call' resume' answer hnext' hask =>
        rw [hnext] at hnext'
        cases hnext'
        have hsame := (answer_of_ask hask).symm.trans ((h.answerTo? call).trans ha)
        cases hsame
        exact (ih halone).of_step ht
      | hands hnext' =>
        rw [hnext] at hnext'
        cases hnext'
    · exact hcompletes.of_step ht

/-! ## Resolutions -/

/-- A resolution goes on with the answers of the session in which the request began. -/
theorem Alone.goes (hgoes : Goes u.disk.cwd u.answerTo? r r') (h : Alone q s₀ inner u own (.resolving r false) s) :
    Completes q s₀ inner u s ∨ ∃ n own', Alone q s₀ inner u own' (.resolving r' false) (run n s) := by
  induction hgoes generalizing s own with
  | refl => exact Or.inr ⟨0, own, h⟩
  | @ask r r' call resume a hnext ha _ ih =>
    have hnext : r.next s.disk.cwd = .ask call resume := h.disk ▸ hnext
    obtain ⟨t, ht, ⟨below, stage', hp, halone⟩ | hcompletes⟩ := h.step honly
    · have hlater : ∀ {own}, Alone q s₀ inner u own (.resolving (resume a) false) t →
          Completes q s₀ inner u s ∨ ∃ n own', Alone q s₀ inner u own' (.resolving r' false) (run n s) := by
        intro own halone
        rcases ih halone with hcompletes | ⟨n, own', hrest⟩
        · exact Or.inl (hcompletes.of_step ht)
        · refine Or.inr ⟨n + 1, own', ?_⟩
          rw [run, ht]
          exact hrest
      cases hp with
      | pauses => cases halone.fresh
      | @resolves _ _ _ call' resume' answer hnext' hask =>
        rw [hnext] at hnext'
        cases hnext'
        have hsame := (answer_of_ask hask).symm.trans ((h.answerTo? call).trans ha)
        cases hsame
        exact hlater halone
      | resolved hnext' =>
        rw [hnext] at hnext'
        cases hnext'
    · exact Or.inl (hcompletes.of_step ht)

variable (hregular : u.disk.Regular)

include hregular

/-- With its path resolved, a request looks at what stands there and is refused, captures or attaches. -/
theorem Alone.completes_probing (h : Alone (watch root observer label) s₀ inner u own (.probing path false) s) :
    Completes (watch root observer label) s₀ inner u s := by
  obtain ⟨t, ht, ⟨below, stage', hp, halone⟩ | hcompletes⟩ := h.step honly
  · cases hp with
    | pauses => cases halone.fresh
    | probes =>
      have htruthful : Capture.Truthful u.disk u.answerTo? := by
        intro call
        obtain ⟨a, ha, hreal⟩ := refuses_of_onlyRefuses honly call
        exact ⟨a, ha, hreal.imp_right fun ⟨o, heq⟩ => ⟨_, heq⟩⟩
      obtain ⟨outcome, hends⟩ := Capture.halts_of_regular htruthful hregular path s.patterns ((s.clock + 1 : Nat) : Int)
      exact (halone.completes_capturing honly hends).of_step ht
  · exact hcompletes.of_step ht

/-- A request whose root is resolved is answered. -/
theorem Alone.completes_resolved {outcome : Except ResolutionError Path} (hstop : r.next u.disk.cwd = .stop outcome)
    (h : Alone q s₀ inner u own (.resolving r false) s) : Completes q s₀ inner u s := by
  have hstop : r.next s.disk.cwd = .stop outcome := h.disk ▸ hstop
  obtain ⟨t, ht, ⟨below, stage', hp, halone⟩ | hcompletes⟩ := h.step honly
  · cases hp with
    | pauses => cases halone.fresh
    | resolves hnext =>
      rw [hstop] at hnext
      cases hnext
    | resolved => exact (halone.completes_probing honly hregular).of_step ht
  · exact hcompletes.of_step ht

/-- A request that nothing can interrupt is answered, or its root is not absolute and links nest in its resolution
without end. -/
theorem completes_or_deepens (hbegins : Begins s₀ q.action u) : ∃ inner, Completes q s₀ inner u (u.perform q.action) ∨
    (∃ p, u.rootPath q.root = .ok p ∧ ¬(p.isAbsolute = true ∧ Whole p.names)) ∧
      ∀ limit, ∃ n own r, Under q s₀ inner own [] (.resolving r false) (run n (u.perform q.action)) ∧
      limit ≤ r.depth := by
  obtain ⟨inner, rest, hstack, hthread⟩ := exists_thread u.stack
  refine ⟨inner, ?_⟩
  rcases perform_request u q with ⟨p, hroot, hperform⟩ | ⟨f, hdown, hperform⟩
  · have halone : Alone q s₀ inner u [] (.resolving (.start u.disk.cwd p) false) (u.perform q.action) := by
      refine ⟨Under.begins hbegins hstack hthread hroot hperform, ⟨rest, hthread, ?_, trivial⟩, rfl, ?_, ?_,
        List.forall_mem_nil _⟩
      · rw [hperform]
        exact congrArg (_ :: ·) hstack
      · rw [hperform]
        rfl
      · rw [hperform]
        rfl
    have hanswers := refuses_of_onlyRefuses honly
    have hstops : ∀ {n own r outcome}, Alone q s₀ inner u own (.resolving r false) (run n (u.perform q.action)) →
        r.next u.disk.cwd = .stop outcome → Completes q s₀ inner u (u.perform q.action) :=
      fun hlast hstop => (hlast.completes_resolved honly hregular hstop).of_run
    by_cases hplain : p.isAbsolute = true ∧ Whole p.names
    · obtain ⟨r, outcome, hgoes, hstop⟩ := Resolution.halts_of_absolute hanswers hplain.1 hplain.2 u.disk.cwd
      left
      rcases halone.goes honly hgoes with hcompletes | ⟨n, own, hlast⟩
      · exact hcompletes
      · exact hstops hlast hstop
    by_cases hcompletes : Completes q s₀ inner u (u.perform q.action)
    · exact Or.inl hcompletes
    · refine Or.inr ⟨⟨p, hroot, hplain⟩, fun limit => ?_⟩
      obtain ⟨r, hgoes, hend⟩ :=
        Resolution.settles_start (fun call => (hanswers call).imp fun _ ha => ha.1) u.disk.cwd limit p
      obtain ⟨n, own, hlast⟩ := (halone.goes honly hgoes).resolve_left hcompletes
      rcases hend with ⟨outcome, hstop⟩ | hdeep
      · exact absurd (hstops hlast hstop) hcompletes
      · exact ⟨n, own, r, hlast.under, hdeep⟩
  · exact Or.inl ⟨0, [], _, Ended.atOnce hbegins hstack hthread hdown hperform, List.forall_mem_nil _⟩

end

end DirWatch.Session.Request
