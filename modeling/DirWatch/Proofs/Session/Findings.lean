import DirWatch.Proofs.Resolution.Links
import DirWatch.Proofs.Session.Requests

/-!
# What a request finds out

The sessions in which a request for a root is in control tell what it learns: each object that its resolution looks at,
with the target if that is a link (`linkSeen?`) and with the error if it cannot be looked at (`refused?`), the path that
the resolution comes to (`settled?`), and what is found there (`probed?`). A request settles at most one path
(`Under.settled`), and what it has seen of links is what its resolution has read (`Under.reads`). A resolution fails by
an error that it was told (`Under.refused`), and only a directory is captured (`Under.probed`).
-/

namespace DirWatch.Session

/-- What a resolution in control learns of a link. -/
def linkSeen? (s : Session) : Option (String × Option String) :=
  match s.stack with
  | .resolving r _ ready :: _ =>
    match r.next s.disk.cwd with
    | .ask (.lstat text) _ =>
      match s.ask (.lstat text) ready with
      | .answered answer => some (text, Resolution.linkOf answer)
      | .preceded _ _ => none
    | _ => none
  | _ => none

/-- The path that a resolution in control has come to. -/
def settled? (s : Session) : Option Path :=
  match s.stack with
  | .resolving r _ _ :: _ =>
    match r.next s.disk.cwd with
    | .stop (.ok path) => some path
    | _ => none
  | _ => none

/-- The question of a resolution in control that fails, and how. -/
def refused? (s : Session) : Option (Call × CallError) :=
  match s.stack with
  | .resolving r _ ready :: _ =>
    match r.next s.disk.cwd with
    | .ask call _ =>
      match s.ask call ready with
      | .answered (.error e) => some (call, e)
      | _ => none
    | .stop _ => none
  | _ => none

/-- What is found at the path of a root to be watched. -/
def probed? (s : Session) : Option (Path × Except CallError Info) :=
  match s.stack with
  | .probing path _ _ ready :: _ =>
    match s.ask (.stat (toString path)) ready with
    | .answered answer => some (path, answer)
    | .preceded _ _ => none
  | _ => none

namespace Request

variable {q : Request} {s s₀ t u : Session} {stage stage' : q.Stage} {inner below : List Frame} {own : List Session}
  {nested : List (Session × Session)} {reply : Reply} {r : Resolution} {ready : Bool}

namespace Stage

/-- The path that the root has been resolved to. -/
def path? : {q : Request} → Stage q → Option Path
  | _, resolving _ _ => none
  | _, probing path _ | _, capturing path _ _ | _, captured path _ => some path

/-- The resolution of the root as it stands. -/
def resolution : {q : Request} → Stage q → Resolution
  | _, resolving r _ => r
  | _, probing path _ | _, capturing path _ _ | _, captured path _ => ⟨.done (.ok path)⟩

/-- A question asked again is for the same path. -/
theorem path?_readied (stage : q.Stage) : stage.readied.path? = stage.path? := by
  cases stage <;> rfl

theorem resolution_readied (stage : q.Stage) : stage.readied.resolution = stage.resolution := by
  cases stage <;> rfl

end Stage

/-! ## Sessions in control -/

/-- A resolution in control has settled when it stops with a path. -/
theorem settled?_resolving (h : Controls s (.resolving (q := q) r ready) below) : s.settled? =
    match r.next s.disk.cwd with
    | .stop (.ok path) => some path
    | _ => none := by
  have hstack : s.stack = .resolving r q.purpose ready :: below := h.1
  rw [settled?, hstack]

/-- It sees a link by the answer to its question. -/
theorem linkSeen?_resolving (h : Controls s (.resolving (q := q) r ready) below) : s.linkSeen? =
    match r.next s.disk.cwd with
    | .ask (.lstat text) _ =>
      match s.ask (.lstat text) ready with
      | .answered answer => some (text, Resolution.linkOf answer)
      | .preceded _ _ => none
    | _ => none := by
  have hstack : s.stack = .resolving r q.purpose ready :: below := h.1
  rw [linkSeen?, hstack]

/-- Later stages learn nothing of the way to the root. -/
theorem nothing_seen (h : Controls s stage below) (hpath : stage.path?.isSome = true) :
    s.settled? = none ∧ s.linkSeen? = none := by
  have hstack := h.1
  cases stage with
  | resolving => cases hpath
  | _ =>
    unfold settled? linkSeen?
    rw [hstack]
    exact ⟨rfl, rfl⟩

/-- A move by which a request goes on settles the path that the stage after it has and the stage before it lacks. -/
theorem Proceeds.settled (h : Proceeds s below stage stage' t) (hcontrols : Controls s stage below) :
    stage'.path?.toList = stage.path?.toList ++ s.settled?.toList := by
  have hlater : stage.path?.isSome = true → stage.path?.toList = stage.path?.toList ++ s.settled?.toList := by
    intro hpath
    rw [(nothing_seen hcontrols hpath).1]
    exact (List.append_nil _).symm
  cases h with
  | pauses hcall _ _ =>
    rw [Stage.path?_readied]
    cases stage with
    | resolving r ready =>
      rw [settled?_resolving hcontrols]
      rw [Stage.call?] at hcall
      split at hcall
      · rename_i hnext
        rw [hnext]
        rfl
      · cases hcall
    | _ => exact hlater rfl
  | resolves hnext _ =>
    rw [settled?_resolving hcontrols, hnext]
    rfl
  | resolved hnext =>
    rw [settled?_resolving hcontrols, hnext]
    rfl
  | _ => exact hlater rfl

/-- A request that proceeds has its resolution read what it sees of links. -/
theorem Proceeds.reads (h : Proceeds s below stage stage' t) (hcontrols : Controls s stage below) :
    Resolution.Reads stage.resolution s.linkSeen?.toList stage'.resolution := by
  have hlater : stage.path?.isSome = true → Resolution.Reads stage.resolution s.linkSeen?.toList stage.resolution := by
    intro hpath
    rw [(nothing_seen hcontrols hpath).2]
    exact Resolution.Reads.refl _
  cases h with
  | pauses hcall hfault hready =>
    rw [Stage.resolution_readied]
    cases stage with
    | resolving r ready =>
      have hready : ready = false := hready
      subst hready
      have hnothing : s.linkSeen? = none := by
        rw [linkSeen?_resolving hcontrols]
        rw [Stage.call?] at hcall
        split at hcall
        · rename_i other resume hnext
          cases hcall
          rw [hnext]
          split
          · rename_i text _ heq
            cases heq
            unfold ask
            rw [hfault]
          · rfl
        · cases hcall
      rw [hnothing]
      exact Resolution.Reads.refl _
    | _ => exact hlater rfl
  | @resolves _ r ready call resume answer hnext hask =>
    rw [linkSeen?_resolving hcontrols, hnext]
    obtain ⟨phase⟩ := r
    cases phase with
    | name path rest outer known =>
      cases hnext
      dsimp only
      rw [hask]
      exact Resolution.Reads.link rfl (Resolution.Reads.refl _)
    | check path =>
      cases hnext
      have hresult : (⟨.check path⟩ : Resolution).next s.disk.cwd = _ := rfl
      exact Resolution.Reads.result hresult (Resolution.Reads.refl _)
    | done => cases hnext
  | resolved hnext =>
    rw [linkSeen?_resolving hcontrols, hnext]
    obtain rfl := Resolution.next_stop hnext
    exact Resolution.Reads.refl _
  | _ => exact hlater rfl

/-- What a request has found on its way is what its stage knows, if each of its moves adds to one what it adds to the
other. -/
theorem Under.findings {α : Type} {found? : Session → Option α} {known? : q.Stage → Option α}
    (hbegins : ∀ r, known? (.resolving r false) = none)
    (hproceeds : ∀ {s t below stage stage'}, Proceeds s below stage stage' t → Controls s stage below →
      (known? stage').toList = (known? stage).toList ++ (found? s).toList)
    (h : Under q s₀ inner own nested stage s) : own.filterMap found? = (known? stage).toList := by
  induction h with
  | begins =>
    rw [hbegins]
    rfl
  | @proceeds own _ _ _ s _ _ _ _ hcontrols _ hp ih =>
    rw [List.filterMap_append, ih, hproceeds hp hcontrols, List.filterMap_cons]
    cases found? s <;> rfl
  | waits _ _ _ ih => exact ih

/-- A request that is under way has settled the path that it knows, and no other one. -/
theorem Under.settled (h : Under q s₀ inner own nested stage s) : own.filterMap settled? = stage.path?.toList :=
  h.findings (fun _ => rfl) Proceeds.settled

/-- What a request has seen of links is what the resolution of its root has read. -/
theorem Under.reads (h : Under q s₀ inner own nested stage s) :
    ∃ u p, Begins s₀ q.action u ∧ u.rootPath q.root = .ok p ∧
    Resolution.Reads (.start u.disk.cwd p) (own.filterMap linkSeen?) stage.resolution := by
  induction h with
  | @begins u rest p h _ _ hroot _ => exact ⟨u, p, h, hroot, Resolution.Reads.refl _⟩
  | @proceeds own _ _ _ s _ _ _ _ hcontrols _ hp ih =>
    obtain ⟨u, p, hbegins, hroot, hreads⟩ := ih
    refine ⟨u, p, hbegins, hroot, ?_⟩
    have hboth := hreads.trans (hp.reads hcontrols)
    rw [List.filterMap_append, List.filterMap_cons]
    cases hlink : s.linkSeen? with
    | none =>
      rw [hlink] at hboth
      exact hboth
    | some link =>
      rw [hlink] at hboth
      exact hboth
  | waits _ _ _ ih => exact ih

/-- A request that succeeds has settled a path: it had one already, or comes to it at the last. -/
theorem Returns.settled {answer : Answer} (h : Returns s below stage t) (hcontrols : Controls s stage below)
    (hok : t.signal = some (.replied (.ok answer))) : ∃ path, stage.path?.toList ++ s.settled?.toList = [path] ∧
      Resolution.Reads stage.resolution s.linkSeen?.toList ⟨.done (.ok path)⟩ := by
  have hlater : ∀ {path}, stage.path? = some path → stage.resolution = ⟨.done (.ok path)⟩ → ∃ path,
      stage.path?.toList ++ s.settled?.toList = [path] ∧
        Resolution.Reads stage.resolution s.linkSeen?.toList ⟨.done (.ok path)⟩ := by
    intro path hpath hresolution
    obtain ⟨hsettled, hseen⟩ := nothing_seen hcontrols (by rw [hpath]; rfl)
    rw [hpath, hsettled, hseen, hresolution]
    exact ⟨path, rfl, Resolution.Reads.refl _⟩
  cases h with
  | @detaches root observer r ready path hnext =>
    obtain rfl := Resolution.next_stop hnext
    refine ⟨path, ?_, ?_⟩
    · rw [settled?_resolving hcontrols]
      rfl
    · rw [linkSeen?_resolving hcontrols]
      exact Resolution.Reads.refl _
  | joins => exact hlater rfl rfl
  | attaches => exact hlater rfl rfl
  | _ => cases hok

/-- A request that has succeeded has settled one path, to which its root was resolved by what it has seen of links. -/
theorem Ended.settled {answer : Answer} (h : Ended q s₀ inner own nested (.ok answer) t) :
    ∃ (s : Session) (below : List Frame) (stage : q.Stage) (path : Path), Controls s stage below ∧
    Returns s below stage t ∧ (∃ ms, Moves s₀ ms s) ∧
      own.filterMap settled? = [path] ∧ stage.path?.toList ++ s.settled?.toList = [path] ∧ ∃ u p, Begins s₀ q.action u ∧
      u.rootPath q.root = .ok p ∧
        Resolution.Reads (.start u.disk.cwd p) (own.filterMap linkSeen?) ⟨.done (.ok path)⟩ := by
  cases h with
  | @returns own _ stage s _ rest _ h hthread hcontrols ht hr hreply =>
    obtain ⟨path, hpath, hlast⟩ := hr.settled hcontrols hreply
    obtain ⟨u, p, hbegins, hroot, hreads⟩ := h.reads
    obtain ⟨ms, hms, -⟩ := h.moves
    refine ⟨s, _, stage, path, hcontrols, hr, ⟨ms, hms⟩, ?_, hpath, u, p, hbegins, hroot, ?_⟩
    · rw [List.filterMap_append, h.settled, ← hpath]
      cases hs : s.settled? <;> rw [List.filterMap_cons, hs] <;> rfl
    · have hboth := hreads.trans hlast
      rw [List.filterMap_append]
      cases hs : s.linkSeen? <;> rw [hs] at hboth <;> rw [List.filterMap_cons, hs] <;> exact hboth

/-! ## Failures -/

/-- An error that ended a resolution: any but a refusal, or at the result the refusal that tells of a circle of links. -/
inductive Blamed (own : List Session) : ResolutionError → Prop
  | call {call cause} (hmem : (call, cause) ∈ own.filterMap refused?) (hcause : ∀ o, cause ≠ .system o) :
      Blamed own (.call cause)
  | linkLoop {path o} (hmem : (.stat (toString path), .system o) ∈ own.filterMap refused?) (ho : o.reason = .tooManyLinks) :
    Blamed own (.linkLoop path)

/-- What was found before is among all that is found. -/
theorem mem_findings {α : Type} {found? : Session → Option α} {a : α} {own' : List Session} (hsub : own ⊆ own')
    (h : a ∈ own.filterMap found?) : a ∈ own'.filterMap found? := by
  obtain ⟨x, hx, heq⟩ := List.mem_filterMap.mp h
  exact List.mem_filterMap.mpr ⟨x, hsub hx, heq⟩

theorem Blamed.mono {own' : List Session} {e : ResolutionError} (h : Blamed own e) (hsub : own ⊆ own') : Blamed own' e := by
  cases h with
  | call h hcause => exact Blamed.call (mem_findings hsub h) hcause
  | linkLoop h ho => exact Blamed.linkLoop (mem_findings hsub h) ho

/-- The answer that ends a resolution with an error is to blame. -/
theorem blamed_of_resolves {call : Call} {resume : Except CallError call.Result → Resolution} {a : Except CallError call.Result}
    {e : ResolutionError} (hcontrols : Controls s (.resolving (q := q) r ready) below)
    (hnext : r.next s.disk.cwd = .ask call resume) (hask : s.ask call ready = .answered a)
    (hfailed : resume a = ⟨.done (.error e)⟩) : Blamed [s] e := by
  obtain ⟨cause, rfl, hcause⟩ := Resolution.error_of_failed hnext hfailed
  have hrefused : s.refused? = some (call, cause) := by
    rw [refused?, show s.stack = .resolving r q.purpose ready :: below from hcontrols.1]
    dsimp only
    rw [hnext]
    dsimp only
    rw [hask]
  have hmem : (call, cause) ∈ [s].filterMap refused? := List.mem_filterMap.mpr ⟨s, List.mem_singleton_self _, hrefused⟩
  rcases hcause with ⟨rfl, hother⟩ | ⟨path, o, rfl, rfl, rfl, ho⟩
  · exact Blamed.call hmem hother
  · exact Blamed.linkLoop hmem ho

/-- A resolution that has failed was told why. -/
theorem Under.blamed (h : Under q s₀ inner own nested stage s) {e : ResolutionError}
    (hfailed : stage.resolution = ⟨.done (.error e)⟩) : Blamed own e := by
  induction h with
  | begins => exact absurd (congrArg Resolution.phase hfailed) (Resolution.visit_ne_done _ _ _ _ _ _)
  | proceeds _ _ hcontrols _ hp ih =>
    cases hp with
    | pauses =>
      rw [Stage.resolution_readied] at hfailed
      exact (ih hfailed).mono (List.subset_append_left _ _)
    | resolves hnext hask => exact (blamed_of_resolves hcontrols hnext hask hfailed).mono (List.subset_append_right _ _)
    | _ => cases hfailed
  | waits _ _ _ ih => exact ih hfailed

/-! ## What is found at the path -/

/-- The path that is captured. -/
def Stage.captured? : {q : Request} → Stage q → Option Path
  | _, capturing path _ _ | _, captured path _ => some path
  | _, _ => none

/-- A request in control finds what its question is answered. -/
theorem probed?_eq {root : RootArgument} {observer : Observer} {label : String} {path : Path} {answer : Except CallError Info}
    (h : Controls s (@Stage.probing root observer label path ready) below)
    (hask : s.ask (.stat (toString path)) ready = .answered answer) : s.probed? = some (path, answer) := by
  rw [probed?, show s.stack = .probing path observer label ready :: below from h.1]
  dsimp only
  rw [hask]

theorem probed?_probing {root : RootArgument} {observer : Observer} {label : String} {path : Path}
    {answer : Except CallError Info} (h : Controls s (@Stage.probing root observer label path ready) below)
    (hask : s.ask (.stat (toString path)) ready = .answered answer) : (path, answer) ∈ [s].filterMap probed? :=
  List.mem_filterMap.mpr ⟨s, List.mem_singleton_self _, probed?_eq h hask⟩

/-- Only a directory is captured. -/
theorem Under.probed (h : Under q s₀ inner own nested stage s) {path : Path} (hpath : stage.captured? = some path) :
    ∃ info, (path, .ok info) ∈ own.filterMap probed? ∧ info.isDirectory = true := by
  have hmore : ∀ {own : List Session} {s : Session},
      (∃ info, (path, .ok info) ∈ own.filterMap probed? ∧ info.isDirectory = true) →
      ∃ info, (path, .ok info) ∈ (own ++ [s]).filterMap probed? ∧ info.isDirectory = true :=
    fun ⟨info, hmem, hdirectory⟩ => ⟨info, mem_findings (List.subset_append_left _ _) hmem, hdirectory⟩
  induction h with
  | begins => cases hpath
  | @proceeds own _ stage stage' s t rest _ _ hcontrols _ hp ih =>
    cases hp with
    | pauses =>
      refine hmore (ih ?_)
      cases stage <;> exact hpath
    | @probes _ _ _ _ _ info hask hdirectory _ =>
      cases hpath
      exact ⟨info, mem_findings (List.subset_append_right _ _) (probed?_probing hcontrols hask), hdirectory⟩
    | captures => exact hmore (ih hpath)
    | hands => exact hmore (ih hpath)
    | _ => cases hpath
  | waits _ _ _ ih => exact ih hpath

end Request

end DirWatch.Session
