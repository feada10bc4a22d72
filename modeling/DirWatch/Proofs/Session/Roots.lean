import DirWatch.Proofs.Capture.Success
import DirWatch.Proofs.Session.Atomicity
import DirWatch.Proofs.Session.Completion
import DirWatch.Proofs.Session.Unwatching

/-!
# Roots to be watched

What a request to watch a root can come to: the observer is attached to the path of a directory, the root is refused as
no valid one, the watcher was closed meanwhile, or the request fails otherwise (`WatchEnd`).
-/

namespace DirWatch.Session

open Capture (Honest)
open Request (Ended Under Stage Proceeds Returns Controls TurnedDown probeFailure? mem_findings nothing_seen probed?_probing
  join_failed finishAttach_failed)

/-- Whether no call fails in a way that no system call fails. -/
def neverDisrupts (s : Session) : Bool :=
  s.faults.all fun fault =>
    match fault.2 with
    | .disrupt => false
    | _ => true

/-- A session answers as a file system does. -/
structure Genuine (s : Session) : Prop where
  disk : s.disk.Valid
  faults : s.neverDisrupts = true

variable {s s₀ t u v : Session} {q : Request} {stage stage' : q.Stage} {inner below : List Frame} {own : List Session}
  {nested ms before : List (Session × Session)} {root : RootArgument} {observer : Observer} {label : String} {path : Path}
  {homes : Homes} {reply : Reply} {f : Failure} {call : Call} {ready : Bool} {a : Except CallError call.Result}

/-! ## Answers -/

/-- Where no call is disrupted, the answer is that of the tree, or a refusal. -/
theorem answer_or_refusal (h : s.neverDisrupts = true) (hask : s.ask call ready = .answered a) :
    a = s.disk.answer call ∨ ∃ o, a = .error (.system o) := by
  unfold ask at hask
  split at hask
  · cases hask
    exact Or.inr ⟨_, rfl⟩
  · rename_i hfault
    cases List.all_eq_true.mp h _ (mem_faults hfault)
  · cases hask
  · cases hask
    exact Or.inl rfl

/-- A call fails by a refusal, or because its text has a NUL character. -/
theorem error_of_ask (h : s.neverDisrupts = true) {e : CallError} (hask : s.ask call ready = .answered (.error e)) :
    (∃ o, e = .system o) ∨ e = .nulCharacter ∧ '\x00' ∈ call.path.toList := by
  rcases answer_or_refusal h hask with hanswer | ⟨o, heq⟩
  · by_cases hnul : '\x00' ∈ call.path.toList
    · rw [Disk.answer_nul hnul] at hanswer
      cases hanswer
      exact Or.inr ⟨rfl, hnul⟩
    · exact Or.inl (Disk.system_of_legible hnul hanswer.symm)
  · cases heq
    exact Or.inl ⟨o, rfl⟩

/-- In a genuine session a legible question gets an answer that a file system may give. -/
theorem Genuine.honest (h : Genuine s) (hcall : '\x00' ∉ call.path.toList) (hask : s.ask call ready = .answered a) :
    Honest call a := by
  rcases answer_or_refusal h.faults hask with rfl | ⟨o, rfl⟩
  · exact Capture.honest_of_valid h.disk hcall
  · exact Capture.honest_refusal call o

/-- What was answered could be asked. -/
theorem legible_of_ok {r : call.Result} (h : s.neverDisrupts = true) (hask : s.ask call ready = .answered (.ok r)) :
    '\x00' ∉ call.path.toList := by
  intro hnul
  rcases answer_or_refusal h hask with hanswer | ⟨o, heq⟩
  · rw [Disk.answer_nul hnul] at hanswer
    cases hanswer
  · cases heq

/-! ## The first capture -/

namespace Request

/-- A capture that is made for a request has not failed and will not. -/
def Stage.Unfailing : {q : Request} → Stage q → Prop
  | _, capturing _ c _ => c.Unfailing
  | _, captured _ result => ∃ snapshot, result = .ok snapshot
  | _, _ => True

/-- A request goes on with a capture that will not fail. -/
theorem Proceeds.unfailing (h : Proceeds s below stage stage' t) (hs : Genuine s) (hstage : stage.Unfailing) :
    stage'.Unfailing := by
  cases h with
  | pauses => cases stage <;> exact hstage
  | probes hask _ _ =>
    have hlegible := legible_of_ok hs.faults hask
    exact Capture.unfailing_start hlegible _ _
  | captures hnext hask =>
    have hcapture : Capture.Unfailing _ := hstage
    exact hcapture.resume hnext (hs.honest (hcapture.legible hnext) hask)
  | hands hnext =>
    obtain ⟨snapshot, rfl⟩ := Capture.Unfailing.stop hstage hnext
    exact ⟨snapshot, rfl⟩
  | _ => trivial

/-- It has done so all the way. -/
theorem Under.unfailing (h : Under q s₀ inner own nested stage s) (hown : ∀ x ∈ own, Genuine x) : stage.Unfailing := by
  induction h with
  | begins => trivial
  | @proceeds own _ _ _ s _ _ _ _ _ _ hp ih =>
    refine hp.unfailing (hown s (List.mem_append_right _ (List.mem_singleton_self _))) (ih fun x hx => ?_)
    exact hown x (List.mem_append_left _ hx)
  | waits _ _ _ ih => exact ih hown

end Request

/-! ## What becomes of a request -/

/-- Why a root is refused as no valid one. -/
inductive Invalid (root : RootArgument) (own : List Session) : Failure → Prop
  | empty (h : isEmptyRoot root = true) : Invalid root own .emptyRoot
  | noPath {cause} (h : pathOf root = .error cause) : Invalid root own (.badRoot root cause)
  /-- The path is found to be that of no directory. -/
  | noDirectory {path : Path} {answer : Except CallError Info} (hsettled : own.filterMap settled? = [path])
      (hmem : (path, answer) ∈ own.filterMap probed?) (hanswer : probeFailure? path answer = some (.noDirectory path)) :
      Invalid root own (.noDirectory path)

/-- The path begins with the home directory of a user, who has a name or none. -/
def BeginsAtHome (p : Path) (user : List Char) : Prop :=
  ∃ name names, p = ⟨.relative, name :: names⟩ ∧ name.toList = '~' :: user

/-- No home directory of a user is known, or only one that begins with a `~` in its turn. -/
def LacksHome (homes : Homes) (user : List Char) : Prop :=
  ∀ home, homes.find? (String.ofList user) = some home → (homeText home).toList.head? = some '~'

/-- The other failures that come out of the checks of a root. -/
inductive Escapes (homes : Homes) (root : RootArgument) (own : List Session) : Failure → Prop
  /-- The root begins with a home directory that is not known. -/
  | noHome {p user} (hpath : pathOf root = .ok p) (hhome : BeginsAtHome p user) (hlacks : LacksHome homes user) :
      Escapes homes root own .noHome
  /-- The root begins with the home directory of a user whose name has a NUL character. -/
  | nulUser {p user} (hpath : pathOf root = .ok p) (hhome : BeginsAtHome p user) (hnul : '\x00' ∈ user) :
      Escapes homes root own .nulCharacter
  /-- A text with a NUL character is looked at on the way to the result. -/
  | nulCharacter {call : Call} (hmem : (call, .nulCharacter) ∈ own.filterMap refused?) (hnul : '\x00' ∈ call.path.toList) :
      Escapes homes root own .nulCharacter
  /-- The links lead in a circle. -/
  | linkLoop {path : Path} {e : OsError} (hmem : (.stat (toString path), .system e) ∈ own.filterMap refused?)
      (he : e.reason = .tooManyLinks) : Escapes homes root own (.linkLoop path)
  /-- The path cannot be looked at, for another reason than that nothing is there. -/
  | system {path : Path} {e : OsError} (hsettled : own.filterMap settled? = [path])
      (hmem : (path, .error (.system e)) ∈ own.filterMap probed?) (he : e.reason.meansAbsent = false) :
      Escapes homes root own (.system e)

/-- What becomes of a request to watch a root, made where some home directories are known. -/
inductive WatchEnd (homes : Homes) (root : RootArgument) (observer : Observer) (label : String) (own : List Session)
    (v : Session) : Reply → Prop
  /-- The observer has an active handle at the path that the root was resolved to, where a directory was found. -/
  | attached {path : Path} {info : Info} {h : HandleId} {handle : Handle} (hsettled : own.filterMap settled? = [path])
      (hmem : (path, .ok info) ∈ own.filterMap probed?) (hdirectory : info.isDirectory = true)
      (hattached : Attached v path observer label h handle) :
      WatchEnd homes root observer label own v (.ok (.attached path true))
  | invalid {f : Failure} (h : Invalid root own f) : WatchEnd homes root observer label own v (.error f)
  | closed {f : Failure} (h : ClosedMeanwhile v f) : WatchEnd homes root observer label own v (.error f)
  | escapes {f : Failure} (h : Escapes homes root own f) : WatchEnd homes root observer label own v (.error f)

/-- A home directory is put in the place of a `~` unless it is lacking, or the user can have none. -/
theorem expandHome_error {p : Path} (h : expandHome homes p = .error f) : ∃ user, BeginsAtHome p user ∧
    (f = .nulCharacter ∧ '\x00' ∈ user ∨ f = .noHome ∧ LacksHome homes user) := by
  unfold expandHome at h
  split at h
  · rename_i name names hanchor hnames
    obtain ⟨anchor, all⟩ := p
    cases hanchor
    cases hnames
    split at h
    · rename_i user hname
      refine ⟨user, ⟨name, names, rfl, hname⟩, ?_⟩
      split at h
      · rename_i hnul
        cases h
        exact Or.inl ⟨rfl, hnul⟩
      · split at h
        · rename_i hfind
          cases h
          refine Or.inr ⟨rfl, fun home hhome => ?_⟩
          rw [hfind] at hhome
          cases hhome
        · rename_i home hfind
          dsimp only at h
          split at h
          · rename_i htilde
            cases h
            refine Or.inr ⟨rfl, fun other hother => ?_⟩
            rw [hfind] at hother
            cases hother
            exact htilde
          · cases h
    · cases h
  · cases h

/-- A path stays as it is, or its `~` is replaced by a home directory. -/
theorem expandHome_ok {p q : Path} (h : expandHome homes p = .ok q) :
    q = p ∨ ∃ (home : String) (names : List String), q = names.foldl Path.child (Path.ofString home) := by
  unfold expandHome at h
  split at h
  · split at h
    · split at h
      · cases h
      · split at h
        · cases h
        · dsimp only at h
          split at h
          · cases h
          · cases h
            exact Or.inr ⟨_, _, rfl⟩
    · cases h
      exact Or.inl rfl
  · cases h
    exact Or.inl rfl

/-- A root has no path if it is none, or if it begins with a home directory that is not known. -/
theorem rootPath_error (h : s.rootPath root = .error f) :
    Invalid root own (watchFailure root f) ∨ Escapes s.homes root own (watchFailure root f) := by
  unfold rootPath at h
  cases hpath : pathOf root with
  | error cause =>
    rw [hpath] at h
    cases h
    left
    have hbad : watchFailure root f = .badRoot root f := by
      unfold pathOf at hpath
      split at hpath <;> cases hpath <;> rfl
    rw [hbad]
    exact Invalid.noPath hpath
  | ok p =>
    rw [hpath] at h
    change expandHome s.homes p = .error f at h
    right
    obtain ⟨user, hhome, ⟨rfl, hnul⟩ | ⟨rfl, hlacks⟩⟩ := expandHome_error h
    · exact Escapes.nulUser hpath hhome hnul
    · exact Escapes.noHome hpath hhome hlacks

/-- What stands at the path is refused because it is no directory, by the system, or by a call that was made to fail. -/
theorem probeFailure_cases {answer : Except CallError Info} (h : probeFailure? path answer = some f) : f = .noDirectory path ∨
    (∃ e, answer = .error (.system e) ∧ e.reason.meansAbsent = false ∧ f = .system e) ∨ answer = .error .injected := by
  unfold probeFailure? at h
  split at h
  · split at h <;> cases h
    exact Or.inl rfl
  · rename_i e
    split at h
    · cases h
      exact Or.inl rfl
    · rename_i habsent
      cases h
      exact Or.inr (Or.inl ⟨e, rfl, Bool.not_eq_true _ ▸ habsent, rfl⟩)
  · cases h
    exact Or.inl rfl
  · exact Or.inr (Or.inr rfl)

/-- A root that cannot be resolved is not refused as an invalid one. -/
theorem Request.Blamed.escapes {e : ResolutionError} (h : Request.Blamed own e) (hown : ∀ x ∈ own, Genuine x) :
    Escapes homes root own (watchFailure root (.ofResolution e)) := by
  cases h with
  | @call call cause hmem hcause =>
    have hcause : cause = .nulCharacter ∧ '\x00' ∈ call.path.toList := by
      obtain ⟨x, hx, hrefused⟩ := List.mem_filterMap.mp hmem
      unfold refused? at hrefused
      split at hrefused
      · split at hrefused
        · split at hrefused
          · rename_i hask
            cases hrefused
            exact (error_of_ask (hown x hx).faults hask).resolve_left fun ⟨o, heq⟩ => hcause o heq
          · cases hrefused
        · cases hrefused
      · cases hrefused
    obtain ⟨rfl, hnul⟩ := hcause
    exact Escapes.nulCharacter hmem hnul
  | linkLoop hmem ho => exact Escapes.linkLoop hmem ho

/-- A request that is turned down at once has a root that is no path. -/
theorem Request.TurnedDown.watchEnd (h : TurnedDown u (.watch root observer label) f) (hrunning : u.watcher.state = .running)
    (hcallable : observer.isCallable = true) (v : Session) : WatchEnd u.homes root observer label [] v (.error f) := by
  cases h with
  | notRunning hstate => exact absurd hrunning hstate
  | notCallable hobserver =>
    rw [hcallable] at hobserver
    cases hobserver
  | emptyRoot hempty => exact WatchEnd.invalid (Invalid.empty hempty)
  | noPath hroot => exact (rootPath_error hroot).elim WatchEnd.invalid WatchEnd.escapes

/-- The last move of a request settles what becomes of it. -/
theorem Request.Returns.watchEnd {stage : (Request.watch root observer label).Stage} (h : Returns s below stage t)
    (hunder : Under (.watch root observer label) s₀ inner own nested stage s) (hcontrols : Controls s stage below)
    (hl : s.table.Linked) (hl' : t.table.Linked) (hown : ∀ x ∈ own ++ [s], Genuine x)
    (hreply : t.signal = some (.replied reply)) :
    WatchEnd homes root observer label (own ++ [s]) t reply := by
  have hbefore : ∀ x ∈ own, Genuine x := fun x hx => hown x (List.mem_append_left _ hx)
  have hs : Genuine s := hown s (List.mem_append_right _ (List.mem_singleton_self _))
  have hsettled : ∀ {path}, stage.path? = some path → (own ++ [s]).filterMap settled? = [path] := by
    intro path hpath
    have hnothing : [s].filterMap settled? = [] := List.filterMap_cons_none (nothing_seen hcontrols (by rw [hpath]; rfl)).1
    rw [List.filterMap_append, hunder.settled, hpath, hnothing]
    rfl
  have hsucceeds : ∀ {path answer}, stage.path? = some path → reply = .ok answer →
      answer = .attached path true ∧ ∃ h handle, Attached t path observer label h handle := by
    rintro path answer hpath rfl
    refine h.attached hcontrols hl hl' ?_ hreply
    rw [hpath, (nothing_seen hcontrols (by rw [hpath]; rfl)).1]
    rfl
  have hreturns := h
  cases h with
  | @unresolved q r ready e hnext =>
    cases hreply
    have hblamed := hunder.blamed (e := e) (Resolution.next_stop hnext)
    exact WatchEnd.escapes ((hblamed.mono (List.subset_append_left _ _)).escapes hown)
  | @refuses _ _ _ path ready f answer hask hf =>
    cases hreply
    have hmem : (path, answer) ∈ (own ++ [s]).filterMap probed? :=
      mem_findings (List.subset_append_right _ _) (probed?_probing hcontrols hask)
    rcases probeFailure_cases hf with rfl | ⟨e, rfl, habsent, rfl⟩ | rfl
    · exact WatchEnd.invalid (Invalid.noDirectory (hsettled rfl) hmem hf)
    · exact WatchEnd.escapes (Escapes.system (hsettled rfl) hmem habsent)
    · rcases error_of_ask hs.faults hask with ⟨o, heq⟩ | ⟨heq, -⟩ <;> cases heq
  | @joins _ _ _ path ready id info hask hdirectory hid =>
    have hmem : (path, .ok info) ∈ (own ++ [s]).filterMap probed? :=
      mem_findings (List.subset_append_right _ _) (probed?_probing hcontrols hask)
    cases reply with
    | error f => exact WatchEnd.closed (join_failed hreply).1
    | ok answer =>
      obtain ⟨rfl, h, handle, hattached⟩ := hsucceeds rfl rfl
      exact WatchEnd.attached (hsettled rfl) hmem hdirectory hattached
  | fails =>
    -- a capture of a valid tree has not failed
    obtain ⟨snapshot, heq⟩ := hunder.unfailing hbefore
    cases heq
  | @attaches _ _ _ path baseline =>
    obtain ⟨info, hmem, hdirectory⟩ := hunder.probed rfl
    cases reply with
    | error f => exact WatchEnd.closed (finishAttach_failed (s := s.popped below) hl hreply).1
    | ok answer =>
      obtain ⟨rfl, h, handle, hattached⟩ := hsucceeds rfl rfl
      exact WatchEnd.attached (hsettled rfl) (mem_findings (List.subset_append_left _ _) hmem) hdirectory hattached

/-- A request to watch a root has become what it could be when it is answered. -/
theorem Request.Ended.watchEnd (h : Ended (.watch root observer label) s₀ inner own nested reply v)
    (hl : ∀ {ms s}, Moves s₀ ms s → s.table.Linked) (hrunning : s₀.watcher.state = .running)
    (hcallable : observer.isCallable = true) (hown : ∀ x ∈ own, Genuine x) :
    WatchEnd s₀.homes root observer label own v reply := by
  cases h with
  | atOnce h _ _ hdown _ => exact h.prepared.homes ▸ hdown.watchEnd (h.prepared.watcher ▸ hrunning) hcallable _
  | returns h _ hcontrols ht hr hreply =>
    obtain ⟨ms, hms, -⟩ := h.moves
    exact hr.watchEnd h hcontrols (hl hms) (hl (hms.move (Move.step ht))) hown hreply

/-! ## The path of a root -/

open Resolution (Whole)

/-- A text is read as names without a slash. -/
theorem whole_ofString (text : String) : Whole (Path.ofString text).names :=
  fun name hmem => (Path.isName_ofString text name hmem).2.2

/-- One more name of a text has none, either: it is split at the slashes. -/
theorem whole_child {p : Path} (h : Whole p.names) (name : String) : Whole (p.child name).names := by
  unfold Path.child Path.join
  split
  · exact whole_ofString name
  · intro other hmem
    rcases List.mem_append.mp hmem with hmem | hmem
    · exact h other hmem
    · exact whole_ofString name other hmem

/-- The path of a root is made of single components, if the root is when it is a path. -/
theorem whole_rootPath {p : Path} (hwhole : ∀ p, root = .path p → Whole p.names) (h : s.rootPath root = .ok p) :
    Whole p.names := by
  have hchildren : ∀ (names : List String) {p : Path}, Whole p.names → Whole (names.foldl Path.child p).names := by
    intro names
    induction names with
    | nil => exact fun h => h
    | cons name names ih => exact fun h => ih (whole_child h name)
  unfold rootPath at h
  cases hpath : pathOf root with
  | error cause =>
    rw [hpath] at h
    cases h
  | ok q =>
    have hq : Whole q.names := by
      unfold pathOf at hpath
      split at hpath <;> cases hpath
      · exact hwhole _ rfl
      · exact whole_ofString _
    rw [hpath] at h
    change expandHome s.homes q = .ok p at h
    obtain rfl | ⟨home, names, rfl⟩ := expandHome_ok h
    · exact hq
    · exact hchildren _ (whole_ofString _)

/-! ## Watching a root -/

/-- A refusal is no disruption. -/
theorem neverDisrupts_of_onlyRefuses (h : s.onlyRefuses = true) : s.neverDisrupts = true := by
  refine List.all_eq_true.mpr fun fault hmem => ?_
  have hrefuses := List.all_eq_true.mp h fault hmem
  split at hrefuses
  · rename_i heq
    rw [heq]
  · cases hrefuses

/-- In every session with a running watcher that can be reached, a request to watch a root, whatever the root, with an
observer that can be called comes to one of a few ends.
* Whatever else happens, a run that begins with the request leaves it under way or answers it at some move. If the tree
was valid and calls failed only as system calls fail whenever the request was in control, then what `WatchEnd` lists has
become of it: an active handle at the path of a directory, an invalid root, a watcher that was closed meanwhile, or one
of the failures of `Escapes`.
* The request is answered by its own steps, with such an end, if the tree is valid and nothing can come between, as all
that can go wrong with a call is that the system refuses it. Only if the root is not absolute the links in its
resolution may nest without end instead. -/
theorem watch_of_moves {w : World} (hs : Opens w s) (hbefore : Moves s before s₀)
    (hbegins : Begins s₀ (Request.watch root observer label).action u) (hrunning : s₀.watcher.state = .running)
    (hcallable : observer.isCallable = true) :
    (∀ {ms t}, Moves (u.perform (.watch root observer label)) ms t → ∃ inner,
      (∃ own nested stage, Under (.watch root observer label) s₀ inner own nested stage t) ∨
      ∃ first after own nested reply v,
        ms = first ++ after ∧ Moves (u.perform (.watch root observer label)) first v ∧ Moves v after t ∧
          Ended (.watch root observer label) s₀ inner own nested reply v ∧
          ((∀ x ∈ own, Genuine x) → WatchEnd s₀.homes root observer label own v reply)) ∧
    (u.onlyRefuses = true → u.disk.Valid → (∀ p, root = .path p → Whole p.names) → ∃ inner,
      (∃ n own reply,
        Ended (.watch root observer label) s₀ inner own [] reply (run n (u.perform (.watch root observer label))) ∧
          WatchEnd s₀.homes root observer label own (run n (u.perform (.watch root observer label))) reply) ∨
      (∃ p, u.rootPath root = .ok p ∧ p.isAbsolute = false) ∧
        ∀ limit, ∃ n own r,
          Under (.watch root observer label) s₀ inner own [] (.resolving r false)
            (run n (u.perform (.watch root observer label))) ∧ limit ≤ r.depth) := by
  have hlinked : ∀ {ms s'}, Moves s₀ ms s' → s'.table.Linked := fun hms => (hbefore.trans hms).edits.linked hs.linked
  refine ⟨fun h => ?_, fun honly hdisk hwhole => ?_⟩
  · obtain ⟨inner, hunder | ⟨first, after, own, nested, reply, v, hms, hfirst, hafter, hended⟩⟩ :=
      Request.request_followed hbegins h
    · exact ⟨inner, Or.inl hunder⟩
    · exact ⟨inner, Or.inr ⟨first, after, own, nested, reply, v, hms, hfirst, hafter, hended,
        fun hown => hended.watchEnd hlinked hrunning hcallable hown⟩⟩
  · obtain ⟨inner, ⟨n, own, reply, hended, hown⟩ | ⟨⟨p, hroot, hplain⟩, hdeep⟩⟩ :=
      Request.completes_or_deepens honly hdisk.regular hbegins
    · have hgenuine : ∀ x ∈ own, Genuine x := by
        intro x hx
        obtain ⟨hsame, hfaults⟩ := hown x hx
        refine ⟨hsame ▸ hdisk, ?_⟩
        unfold neverDisrupts
        rw [hfaults]
        exact neverDisrupts_of_onlyRefuses honly
      exact ⟨inner, Or.inl ⟨n, own, reply, hended, hended.watchEnd hlinked hrunning hcallable hgenuine⟩⟩
    · refine ⟨inner, Or.inr ⟨⟨p, hroot, ?_⟩, hdeep⟩⟩
      rw [← Bool.not_eq_true]
      exact fun habsolute => hplain ⟨habsolute, whole_rootPath hwhole hroot⟩

/-- A world with a directory, a link to it and a link to itself. The directory cannot be listed. -/
def circular : World where
  disk := { root := .directory [("a", .link "/a" 1), ("l", .link "/w" 2), ("w", .directory [] 3)] 0 }
  faults := [(("/w", .list), .refuse .accessDenied)]

def circularWatcher : Session :=
  (createRunning circular {}).toOption.getD default

def circularRequest (text : String) : Request :=
  .watch (.value (.text text)) (.named "a" (.text "a")) "a"

def circularBegun : Session :=
  { circularWatcher with signal := none }.perform (circularRequest "/l").action

/-- The link to the directory is watched. -/
def circularWatching : Session :=
  run 9 circularBegun

/-- The observer is attached to the directory that the link leads to. -/
theorem watch_of_moves_circular : circularWatching.given? = some (⟨.root, ["w"]⟩, true) ∧ ∃ own h handle,
    Ended (circularRequest "/l") circularWatcher [] own [] (.ok (.attached ⟨.root, ["w"]⟩ true)) circularWatching ∧
      own.filterMap settled? = [⟨.root, ["w"]⟩] ∧
      Attached circularWatching ⟨.root, ["w"]⟩ (.named "a" (.text "a")) "a" h handle := by
  have hopens : Opens circular circularWatcher := Opens.running_of_isSome (by decide +kernel)
  have hrest : circularWatcher.step.isNone = true := by decide +kernel
  have hrunning : circularWatcher.watcher.state = .running := by decide +kernel
  have hdisk : circularWatcher.disk.root.isValid = true := by decide +kernel
  have hgiven : circularWatching.given? = some (⟨.root, ["w"]⟩, true) := by decide +kernel
  have hover : circularWatching.stack.isEmpty = true := by decide +kernel
  have habsolute : ((circularWatcher.rootPath (.value (.text "/l"))).toOption.all Path.isAbsolute) = true := by decide +kernel
  have hbegins : Begins circularWatcher (circularRequest "/l").action { circularWatcher with signal := none } :=
    Begins.outside (Option.isNone_iff_eq_none.mp hrest)
  obtain ⟨inner, ⟨n, own, reply, hended, hend⟩ | ⟨⟨p, hroot, hrelative⟩, -⟩⟩ :=
    (watch_of_moves hopens Moves.refl hbegins hrunning (by decide)).2 (by decide +kernel) (Disk.valid_of_isValid hdisk)
      (fun p heq => nomatch heq)
  · obtain rfl := hended.inner_nil hopens.fresh.stack
    have hended : Ended (circularRequest "/l") circularWatcher [] own [] reply (run n circularBegun) := hended
    have hend : WatchEnd _ _ (.named "a" (.text "a")) "a" own (run n circularBegun) reply := hend
    have hsame : run n circularBegun = circularWatching :=
      Request.run_eq_of_stack_nil hended.stack_nil (List.isEmpty_iff.mp hover)
    rw [hsame] at hended hend
    have hreply := hended.stack.2.symm.trans (signal_of_given hgiven)
    cases hreply
    cases hend with
    | attached hsettled _ _ hattached => exact ⟨hgiven, own, _, _, hended, hsettled, hattached⟩
  · rw [show circularWatcher.rootPath (.value (.text "/l")) = .ok p from hroot] at habsolute
    exact absurd (hrelative.symm.trans habsolute) Bool.false_ne_true

/-- The path of a circle of links that a request has failed with. -/
def circle? (s : Session) : Option Path :=
  match s.signal with
  | some (.replied (.error (.linkLoop path))) => some path
  | _ => none

/-- A circle of links is told of in the answer. -/
theorem signal_of_circle (h : s.circle? = some path) : s.signal = some (.replied (.error (.linkLoop path))) := by
  unfold circle? at h
  split at h
  · rename_i hsignal
    cases h
    exact hsignal
  · cases h

/-- A link to itself is watched in vain. -/
def circularWatched : Session :=
  circularWatcher.after (circularRequest "/a").action 9

/-- A root that is a link to itself is not refused as invalid: the request fails with the circle of links, in a running
watcher over a valid tree, with nothing that comes between. -/
theorem watch_circle : Opens circular circularWatcher ∧ circularWatcher.watcher.state = .running ∧
    circularWatcher.onlyRefuses = true ∧ circularWatcher.disk.Valid ∧
    ∃ own nested f, Ended (circularRequest "/a") circularWatcher [] own nested (.error f) circularWatched ∧
      f = .linkLoop ⟨.root, ["a"]⟩ ∧ (∀ own, ¬Invalid (.value (.text "/a")) own f) ∧
      ¬ClosedMeanwhile circularWatched f := by
  have hopens : Opens circular circularWatcher := Opens.running_of_isSome (by decide +kernel)
  have hdisk : circularWatcher.disk.root.isValid = true := by decide +kernel
  have hcircle : circularWatched.circle? = some ⟨.root, ["a"]⟩ := by decide +kernel
  obtain ⟨own, nested, hended, -⟩ := Request.answered_after (circularRequest "/a") (by decide +kernel) (by decide +kernel)
    (signal_of_circle hcircle)
  refine ⟨hopens, by decide +kernel, by decide +kernel, Disk.valid_of_isValid hdisk, own, nested, _, hended, rfl,
    fun _ hinvalid => ?_, ?_⟩
  · cases hinvalid
  · rintro ⟨⟨name, heq⟩, -⟩
    cases heq

end DirWatch.Session
