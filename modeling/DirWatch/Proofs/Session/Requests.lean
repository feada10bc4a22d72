import DirWatch.Proofs.Session.Modes
import DirWatch.Proofs.Session.Threads

/-!
# Requests for roots

A request to watch or unwatch a root is made of several moves, and anything else can move between them: what is to
happen before a call on a path goes on, and whatever that starts. `Request.Under` follows a request from the move that
begins it, and `Request.Ended` to the move that answers it. Wherever its frames are taken meanwhile, they stay on top of
those of its caller (`Under.holds`), so every move of a session either leaves the request waiting, or is one of its own,
or is its last (`Under.move`).

`Request.Proceeds` and `Request.Returns` list what a request does in its own moves.
-/

namespace DirWatch.Session

/-- A request for a root. -/
inductive Request where
  | watch (root : RootArgument) (observer : Observer) (label : String)
  | unwatch (root : RootArgument) (observer : Observer)

namespace Request

def action : Request → Action
  | watch root observer label => .watch root observer label
  | unwatch root observer => .unwatch root observer

def root : Request → RootArgument
  | watch root _ _ => root
  | unwatch root _ => root

def purpose : Request → ResolutionPurpose
  | watch root observer label => .watch root observer label
  | unwatch _ observer => .unwatch observer

/-- What the caller is told when the root cannot be resolved. -/
def failure : Request → Failure → Failure
  | watch root _ _, f => watchFailure root f
  | unwatch _ _, f => f

/-- How far a request has come. Only a root to be watched is looked at and captured. -/
inductive Stage : Request → Type
  | resolving {q : Request} (r : Resolution) (ready : Bool) : Stage q
  | probing {root observer label} (path : Path) (ready : Bool) : Stage (watch root observer label)
  | capturing {root observer label} (path : Path) (c : Capture) (ready : Bool) : Stage (watch root observer label)
  | captured {root observer label} (path : Path) (result : Except Failure Snapshot) : Stage (watch root observer label)

namespace Stage

variable {q : Request}

/-- The frames of a request, on top of those of its caller. -/
def frames : {q : Request} → Stage q → List Frame
  | q, resolving r ready => [.resolving r q.purpose ready]
  | .watch _ observer label, probing path ready => [.probing path observer label ready]
  | .watch _ observer label, capturing path c ready => [.capturing c ready, .attaching path observer label .watch]
  | .watch _ observer label, captured path _ => [.attaching path observer label .watch]

/-- The question of a request. -/
def call? (cwd : String) : Stage q → Option Call
  | resolving r _ =>
    match r.next cwd with
    | .ask call _ => some call
    | .stop _ => none
  | probing path _ => some (.stat (toString path))
  | capturing _ c _ =>
    match c.next with
    | .ask call _ => some call
    | .stop _ => none
  | captured .. => none

/-- Whether what was to happen before the question has happened. -/
def isReady : Stage q → Bool
  | resolving _ ready | probing _ ready | capturing _ _ ready => ready
  | captured .. => false

def isCaptured : Stage q → Bool
  | captured .. => true
  | _ => false

/-- The same stage when what is to happen before the question has happened. -/
def readied : Stage q → Stage q
  | resolving r _ => resolving r true
  | probing path _ => probing path true
  | capturing path c _ => capturing path c true
  | captured path result => captured path result

/-- No job is among the frames of a request. -/
theorem frames_free (stage : Stage q) : ∀ f ∈ stage.frames, jobOf? f = none := by
  cases stage <;> simp [frames, jobOf?]

end Stage

/-- A request is in control, with frames below its own. What was captured for it has been left as a signal. -/
def Controls {q : Request} (s : Session) (stage : Stage q) (below : List Frame) : Prop :=
  s.stack = stage.frames ++ below ∧
    match stage with
    | .captured _ result => s.signal = some (.captured result)
    | _ => True

variable {q : Request} {s s₀ t u : Session} {stage stage' : Stage q} {inner rest below : List Frame}
  {own : List Session} {nested : List (Session × Session)} {reply : Reply}

/-! ## What a request does -/

/-- A request goes on from one stage to another. -/
inductive Proceeds (s : Session) (below : List Frame) : {q : Request} → Stage q → Stage q → Session → Prop
  /-- Other things happen before its question is answered. -/
  | pauses {q : Request} {stage : Stage q} {call steps} (hcall : stage.call? s.disk.cwd = some call)
      (hfault : s.faultOf? call = some (.precede steps)) (hready : stage.isReady = false) :
      Proceeds s below stage stage.readied
        (((s.popped (stage.readied.frames ++ below)).setFault (s.disk.absoluteText call.path) call.kind none).push
          (.script steps none))
  /-- A question about its root is answered. -/
  | resolves {q : Request} {r ready call resume answer} (hnext : r.next s.disk.cwd = .ask call resume)
      (hask : s.ask call ready = .answered answer) :
      Proceeds s below (.resolving (q := q) r ready) (.resolving (resume answer) false)
        ((s.popped below).push (.resolving (resume answer) q.purpose false))
  /-- The root is resolved, and its path is to be looked at. -/
  | resolved {root observer label r ready path} (hnext : r.next s.disk.cwd = .stop (.ok path)) :
      Proceeds s below (.resolving (q := watch root observer label) r ready) (.probing path false)
        ((s.popped below).push (.probing path observer label false))
  /-- The path is that of a directory, of which a first capture is to be made. -/
  | probes {root observer label path ready} {info : Info} (hask : s.ask (.stat (toString path)) ready = .answered (.ok info))
      (hdirectory : info.isDirectory = true) (hnone : s.table.find? path = none) :
      Proceeds s below (@Stage.probing root observer label path ready)
        (.capturing path { root := path, patterns := s.patterns, capturedAt := ((s.clock + 1 : Nat) : Int) } false)
        (((s.popped below).push (.attaching path observer label .watch)).beginCapture path)
  /-- A question of the capture is answered. -/
  | captures {root observer label path c ready call resume answer} (hnext : c.next = .ask call resume)
      (hask : s.ask call ready = .answered answer) :
      Proceeds s below (@Stage.capturing root observer label path c ready)
        (.capturing path (resume answer).1 false)
        (((s.popped (.attaching path observer label .watch :: below)).notices (resume answer).2).push
          (.capturing (resume answer).1 false))
  /-- The capture is handed over. -/
  | hands {root observer label path c ready outcome} (hnext : c.next = .stop outcome) :
      Proceeds s below (@Stage.capturing root observer label path c ready)
        (.captured path (outcome.mapError Failure.ofCapture))
        ((s.popped (.attaching path observer label .watch :: below)).leave (.captured (outcome.mapError Failure.ofCapture)))

/-- What the caller is told when the path of a root is looked at and is not that of a directory. -/
def probeFailure? (path : Path) : Except CallError Info → Option Failure
  | .ok info => if info.isDirectory then none else some (.noDirectory path)
  | .error (.system e) => if e.reason.meansAbsent then some (.noDirectory path) else some (.system e)
  | .error .nulCharacter => some (.noDirectory path)
  | .error .injected => some .injectedFault

/-- A request comes to its end. -/
inductive Returns (s : Session) (below : List Frame) : {q : Request} → Stage q → Session → Prop
  /-- The root cannot be resolved. -/
  | unresolved {q : Request} {r ready e} (hnext : r.next s.disk.cwd = .stop (.error e)) :
      Returns s below (.resolving (q := q) r ready) ((s.popped below).fail (q.failure (.ofResolution e)))
  /-- The observer is taken off the root. -/
  | detaches {root observer r ready path} (hnext : r.next s.disk.cwd = .stop (.ok path)) :
      Returns s below (.resolving (q := unwatch root observer) r ready)
        ((((s.popped below).cancelHandles (s.table.attachments path observer)).notice
          (.watchUnregistered s.watcher.name path (s.table.attachments path observer).length)).done)
  /-- The path is not that of a directory. -/
  | refuses {root observer label path ready f} {answer : Except CallError Info}
      (hask : s.ask (.stat (toString path)) ready = .answered answer) (hf : probeFailure? path answer = some f) :
      Returns s below (@Stage.probing root observer label path ready) ((s.popped below).fail f)
  /-- The path is that of a directory, which is watched already. -/
  | joins {root observer label path ready id} {info : Info} (hask : s.ask (.stat (toString path)) ready = .answered (.ok info))
      (hdirectory : info.isDirectory = true) (hid : s.table.find? path = some id) :
      Returns s below (@Stage.probing root observer label path ready)
        ((s.popped below).join id path observer label .watch)
  /-- The first capture has failed. -/
  | fails {root observer label path f} :
      Returns s below (@Stage.captured root observer label path (.error f)) ((s.popped below).fail f)
  /-- The first capture is the baseline. -/
  | attaches {root observer label path baseline} :
      Returns s below (@Stage.captured root observer label path (.ok baseline))
        ((s.popped below).finishAttach path observer label .watch baseline)

/-- A root to be watched is attached to, or its caller is told why not. -/
theorem probed_cases (s : Session) (path : Path) (observer : Observer) (label : String) (answer : Except CallError Info) :
    (∃ f, probeFailure? path answer = some f ∧ s.probed path observer label answer = s.fail f) ∨
    ∃ info, answer = .ok info ∧ info.isDirectory = true ∧
      s.probed path observer label answer = s.beginAttach path observer label .watch := by
  cases answer with
  | ok info =>
    cases hdirectory : info.isDirectory with
    | true => exact Or.inr ⟨info, rfl, hdirectory, by rw [probed, if_pos hdirectory]⟩
    | false => exact Or.inl ⟨.noDirectory path, by simp [probeFailure?, hdirectory], by simp [probed, hdirectory]⟩
  | error e =>
    left
    cases e with
    | system e => by_cases habsent : e.reason.meansAbsent = true <;> simp [probeFailure?, probed, habsent]
    | _ => exact ⟨_, rfl, rfl⟩

/-- The step of a resolution takes its request on, or ends it. -/
theorem stepResolution_request (s : Session) (below : List Frame) (q : Request) (r : Resolution) (ready : Bool) :
    (∃ stage', Proceeds s below (.resolving (q := q) r ready) stage' ((s.popped below).stepResolution r q.purpose ready)) ∨
      Returns s below (.resolving (q := q) r ready) ((s.popped below).stepResolution r q.purpose ready) := by
  unfold stepResolution
  split
  · rename_i outcome hnext
    cases outcome with
    | error e =>
      right
      cases q <;> exact Returns.unresolved hnext
    | ok path =>
      cases q with
      | watch root observer label => exact Or.inl ⟨_, Proceeds.resolved hnext⟩
      | unwatch root observer => exact Or.inr (Returns.detaches hnext)
  · rename_i call resume hnext
    left
    split
    · rename_i answer hask
      exact ⟨_, Proceeds.resolves hnext (ask_popped hask)⟩
    · rename_i u steps hask
      obtain ⟨rfl, hfault, rfl⟩ := ask_preceded hask
      have hcall : (Stage.resolving (q := q) r false).call? s.disk.cwd = some call := by
        rw [Stage.call?, show r.next s.disk.cwd = _ from hnext]
      exact ⟨_, @Proceeds.pauses s below q (.resolving r false) call steps hcall hfault rfl⟩

/-- The answer on what stands at the path takes the request on, or ends it. -/
theorem stepProbe_request (s : Session) (below : List Frame) (root : RootArgument) (observer : Observer) (label : String)
    (path : Path) (ready : Bool) :
    (∃ stage', Proceeds s below (@Stage.probing root observer label path ready) stage'
      ((s.popped below).stepProbe path observer label ready)) ∨
      Returns s below (@Stage.probing root observer label path ready) ((s.popped below).stepProbe path observer label ready) := by
  unfold stepProbe
  split
  · rename_i answer hask
    have hask := ask_popped hask
    rcases probed_cases (s.popped below) path observer label answer with ⟨f, hf, hfails⟩ |
      ⟨info, rfl, hdirectory, hattach⟩
    · rw [hfails]
      exact Or.inr (Returns.refuses hask hf)
    · rw [hattach]
      cases hfind : s.table.find? path with
      | some id =>
        rw [beginAttach, show (s.popped below).table.find? path = some id from hfind]
        exact Or.inr (Returns.joins hask hdirectory hfind)
      | none =>
        rw [beginAttach, show (s.popped below).table.find? path = none from hfind]
        exact Or.inl ⟨_, Proceeds.probes hask hdirectory hfind⟩
  · rename_i u steps hask
    obtain ⟨rfl, hfault, rfl⟩ := ask_preceded hask
    exact Or.inl ⟨_, @Proceeds.pauses s below (watch root observer label) (.probing path false) _ steps rfl hfault rfl⟩

/-- The step of a capture takes the request on; it ends no request. -/
theorem stepCapture_request (s : Session) (below : List Frame) (root : RootArgument) (observer : Observer)
    (label : String) (path : Path) (c : Capture) (ready : Bool) :
    ∃ stage', Proceeds s below (@Stage.capturing root observer label path c ready) stage'
      ((s.popped (.attaching path observer label .watch :: below)).stepCapture c ready) := by
  unfold stepCapture
  split
  · rename_i outcome hnext
    exact ⟨_, Proceeds.hands hnext⟩
  · rename_i call resume hnext
    split
    · rename_i answer hask
      exact ⟨_, Proceeds.captures hnext (ask_popped hask)⟩
    · rename_i u steps hask
      obtain ⟨rfl, hfault, rfl⟩ := ask_preceded hask
      have hcall : (@Stage.capturing root observer label path c false).call? s.disk.cwd = some call := by
        rw [Stage.call?, hnext]
      exact ⟨_, @Proceeds.pauses s below (watch root observer label) (.capturing path c false) call steps hcall hfault rfl⟩

/-- A request in control goes on, or it comes to its end. -/
theorem step_request (h : Controls s stage below) :
    ∃ t, s.step = some t ∧ ((∃ stage', Proceeds s below stage stage' t) ∨ Returns s below stage t) := by
  obtain ⟨hstack, hsignal⟩ := h
  cases stage with
  | resolving r ready =>
    refine ⟨(s.popped below).stepResolution r q.purpose ready, ?_, stepResolution_request s below q r ready⟩
    unfold step
    rw [hstack]
    rfl
  | @probing root observer label path ready =>
    refine ⟨(s.popped below).stepProbe path observer label ready, ?_,
      stepProbe_request s below root observer label path ready⟩
    unfold step
    rw [hstack]
    rfl
  | @capturing root observer label path c ready =>
    refine ⟨(s.popped (.attaching path observer label .watch :: below)).stepCapture c ready, ?_,
      Or.inl (stepCapture_request s below root observer label path c ready)⟩
    unfold step
    rw [hstack]
    rfl
  | @captured root observer label path result =>
    refine ⟨(s.popped below).stepAttach s.signal path observer label .watch, ?_, Or.inr ?_⟩
    · unfold step
      rw [hstack]
      rfl
    rw [show s.signal = _ from hsignal]
    cases result with
    | error f => exact Returns.fails
    | ok baseline => exact Returns.attaches

/-! ## How a request begins -/

/-- Why a request is turned down at once. -/
inductive TurnedDown (u : Session) : Request → Failure → Prop
  | notRunning {q : Request} {operation} (hstate : u.watcher.state ≠ .running) :
      TurnedDown u q (.notRunning operation u.watcher.name u.watcher.state)
  | notCallable {root observer label} (hobserver : observer.isCallable = false) :
      TurnedDown u (watch root observer label) (.notCallable observer)
  | emptyRoot {root observer label} (hempty : isEmptyRoot root = true) : TurnedDown u (watch root observer label) .emptyRoot
  | noPath {q : Request} {f} (hroot : u.rootPath q.root = .error f) : TurnedDown u q (q.failure f)

/-- Only a running watcher lets a request begin. -/
theorem requireRunning_cases (u : Session) (operation : String) :
    u.requireRunning operation = .ok () ∨ u.watcher.state ≠ .running ∧
      u.requireRunning operation = .error (.notRunning operation u.watcher.name u.watcher.state) := by
  unfold requireRunning
  split
  · exact Or.inl rfl
  · rename_i hstate
    exact Or.inr ⟨hstate, rfl⟩

/-- A request begins to resolve its root, or it is turned down. -/
theorem perform_request (u : Session) (q : Request) :
    (∃ p, u.rootPath q.root = .ok p ∧ u.perform q.action = u.beginResolution p q.purpose) ∨
    ∃ f, TurnedDown u q f ∧ u.perform q.action = u.fail f := by
  cases q with
  | watch root observer label =>
    change (∃ p, u.rootPath root = .ok p ∧ u.beginWatch root observer label = _) ∨ ∃ f, _ ∧
      u.beginWatch root observer label = _
    unfold beginWatch
    rcases requireRunning_cases u "watch_path" with hrunning | ⟨hstate, hrunning⟩
    · rw [hrunning]
      dsimp only
      cases hobserver : observer.isCallable with
      | false => exact Or.inr ⟨_, TurnedDown.notCallable hobserver, rfl⟩
      | true =>
        cases hempty : isEmptyRoot root with
        | true => exact Or.inr ⟨_, TurnedDown.emptyRoot hempty, rfl⟩
        | false =>
          cases hroot : u.rootPath root with
          | error f => exact Or.inr ⟨_, TurnedDown.noPath hroot, rfl⟩
          | ok p => exact Or.inl ⟨p, rfl, rfl⟩
    · rw [hrunning]
      exact Or.inr ⟨_, TurnedDown.notRunning hstate, rfl⟩
  | unwatch root observer =>
    change (∃ p, u.rootPath root = .ok p ∧ u.beginUnwatch root observer = _) ∨ ∃ f, _ ∧ u.beginUnwatch root observer = _
    unfold beginUnwatch
    rcases requireRunning_cases u "unwatch_path" with hrunning | ⟨hstate, hrunning⟩
    · rw [hrunning]
      dsimp only
      cases hroot : u.rootPath root with
      | error f => exact Or.inr ⟨_, TurnedDown.noPath (q := unwatch root observer) hroot, rfl⟩
      | ok p => exact Or.inl ⟨p, rfl, rfl⟩
    · rw [hrunning]
      exact Or.inr ⟨_, TurnedDown.notRunning hstate, rfl⟩

/-! ## From the beginning to the end -/

/-- A request that began in a session is under way. `inner` are the frames of its caller, `own` the sessions in which it
has been in control, and `nested` the moves of others since it began. -/
inductive Under (q : Request) (s₀ : Session) (inner : List Frame) :
    List Session → List (Session × Session) → Stage q → Session → Prop
  | begins {u : Session} {rest : List Frame} {p : Path} (h : Begins s₀ q.action u) (hstack : u.stack = inner ++ rest)
      (hthread : OfThread inner rest) (hroot : u.rootPath q.root = .ok p)
      (hperform : u.perform q.action = u.beginResolution p q.purpose) :
      Under q s₀ inner [] [] (.resolving (.start u.disk.cwd p) false) (u.perform q.action)
  | proceeds {own : List Session} {nested : List (Session × Session)} {stage stage' : Stage q} {s t : Session}
      {rest : List Frame} (h : Under q s₀ inner own nested stage s) (hthread : OfThread inner rest)
      (hcontrols : Controls s stage (inner ++ rest)) (ht : s.step = some t) (hp : Proceeds s (inner ++ rest) stage stage' t) :
      Under q s₀ inner (own ++ [s]) nested stage' t
  | waits {own : List Session} {nested : List (Session × Session)} {stage : Stage q} {s t : Session}
      (h : Under q s₀ inner own nested stage s) (hm : Move s t)
      (hwaits : ∀ rest, OfThread inner rest → s.stack ≠ stage.frames ++ (inner ++ rest)) :
      Under q s₀ inner own (nested ++ [(s, t)]) stage t

/-- A request that began in a session has been answered. -/
inductive Ended (q : Request) (s₀ : Session) (inner : List Frame) :
    List Session → List (Session × Session) → Reply → Session → Prop
  | atOnce {u : Session} {rest : List Frame} {f : Failure} (h : Begins s₀ q.action u) (hstack : u.stack = inner ++ rest)
      (hthread : OfThread inner rest) (hdown : TurnedDown u q f) (hperform : u.perform q.action = u.fail f) :
      Ended q s₀ inner [] [] (.error f) (u.perform q.action)
  | returns {own : List Session} {nested : List (Session × Session)} {stage : Stage q} {s t : Session} {rest : List Frame}
      {reply : Reply} (h : Under q s₀ inner own nested stage s) (hthread : OfThread inner rest)
      (hcontrols : Controls s stage (inner ++ rest)) (ht : s.step = some t) (hr : Returns s (inner ++ rest) stage t)
      (hreply : t.signal = some (.replied reply)) : Ended q s₀ inner (own ++ [s]) nested reply t

/-- A request that begins is under way, or it is answered at once. -/
theorem request_begins (h : Begins s₀ q.action u) : ∃ inner,
    (∃ stage, Under q s₀ inner [] [] stage (u.perform q.action)) ∨
    ∃ reply, Ended q s₀ inner [] [] reply (u.perform q.action) := by
  obtain ⟨inner, rest, hstack, hthread⟩ := exists_thread u.stack
  rcases perform_request u q with ⟨p, hroot, hperform⟩ | ⟨f, hdown, hperform⟩
  · exact ⟨inner, Or.inl ⟨_, Under.begins h hstack hthread hroot hperform⟩⟩
  · exact ⟨inner, Or.inr ⟨_, Ended.atOnce h hstack hthread hdown hperform⟩⟩

/-- When a request has gone on, its frames are on the stack, under what is to happen first. -/
theorem Proceeds.stack (h : Proceeds s below stage stage' t) : ∃ fs, t.stack = fs ++ (stage'.frames ++ below) := by
  cases h with
  | pauses => exact ⟨[_], rfl⟩
  | @captures root observer label path c ready call resume answer =>
    refine ⟨[], congrArg (_ :: ·) ?_⟩
    exact (Calm.notices _ _).stack
  | _ => exact ⟨[], rfl⟩

/-- A capture is handed over at once. -/
theorem Proceeds.controls (h : Proceeds s below stage stage' t) (hcaptured : stage'.isCaptured = true) :
    Controls t stage' below := by
  cases h with
  | pauses hcall _ _ =>
    cases stage with
    | captured => cases hcall
    | _ => cases hcaptured
  | hands => exact ⟨rfl, rfl⟩
  | _ => cases hcaptured

/-- A request that gets its capture is in control. -/
theorem Under.controls (h : Under q s₀ inner own nested stage s) (hcaptured : stage.isCaptured = true) :
    ∃ rest, OfThread inner rest ∧ Controls s stage (inner ++ rest) := by
  induction h with
  | begins => cases hcaptured
  | proceeds _ hthread _ _ hp _ => exact ⟨_, hthread, hp.controls hcaptured⟩
  | waits _ _ hwaits ih =>
    obtain ⟨rest, hthread, hstack, -⟩ := ih hcaptured
    exact absurd hstack (hwaits rest hthread)

/-- The frames of a request stay on top of those of its caller. -/
theorem Under.holds (h : Under q s₀ inner own nested stage s) : Holds s (stage.frames ++ inner) := by
  induction h with
  | @begins u rest p h hstack hthread _ hperform =>
    have hback : (u.beginResolution p q.purpose).stack =
        [] ++ (([.resolving (.start u.disk.cwd p) q.purpose false] ++ inner) ++ rest) := congrArg (_ :: ·) hstack
    rw [← hperform] at hback
    exact Holds.stands hback (hthread.prepend _ (Stage.frames_free _))
  | proceeds _ hthread hcontrols _ hp _ =>
    obtain ⟨fs, hback⟩ := hp.stack
    rw [← List.append_assoc (Stage.frames _)] at hback
    exact Holds.stands hback (hthread.prepend _ (Stage.frames_free _))
  | waits _ hm hwaits ih =>
    refine hm.holds ih fun rest hthread => ?_
    rw [List.append_assoc]
    exact hwaits rest (OfThread.of_prepend (Stage.frames_free _) hthread)

/-- An observer that joins has its request answered, one way or the other. -/
theorem replied_join (s : Session) (id : RegistrationId) (root : Path) (observer : Observer) (label : String) :
    ∃ reply, (s.join id root observer label .watch).signal = some (.replied reply) := by
  unfold Session.join
  dsimp only
  split <;> exact ⟨_, rfl⟩

/-- A request that comes to its end is answered. -/
theorem Returns.replied (h : Returns s below stage t) : ∃ reply, t.signal = some (.replied reply) := by
  cases h with
  | joins => exact replied_join _ _ _ _ _
  | attaches =>
    unfold finishAttach
    split <;> exact replied_join _ _ _ _ _
  | _ => exact ⟨_, rfl⟩

/-- Every move while a request is under way is one of its own or leaves it waiting, unless it is the last. -/
theorem Under.move (h : Under q s₀ inner own nested stage s) (hm : Move s t) :
    ∃ own' nested', (∀ x ∈ own', x ∈ own ∨ x = s) ∧
    ((∃ stage, Under q s₀ inner own' nested' stage t) ∨ ∃ reply, Ended q s₀ inner own' nested' reply t) := by
  by_cases hcontrol : ∃ rest, OfThread inner rest ∧ s.stack = stage.frames ++ (inner ++ rest)
  · obtain ⟨rest, hthread, hstack⟩ := hcontrol
    have hcontrols : Controls s stage (inner ++ rest) := by
      refine ⟨hstack, ?_⟩
      cases stage with
      | captured =>
        obtain ⟨_, -, -, hsignal⟩ := h.controls rfl
        exact hsignal
      | _ => trivial
    obtain ⟨t', ht, hgoes⟩ := step_request hcontrols
    have hown : ∀ x ∈ own ++ [s], x ∈ own ∨ x = s := fun x hx => (List.mem_append.mp hx).imp_right List.mem_singleton.mp
    cases hm with
    | act _ hrest =>
      rw [hrest] at ht
      cases ht
    | step ht' =>
      rw [ht'] at ht
      cases ht
      refine ⟨own ++ [s], nested, hown, ?_⟩
      rcases hgoes with ⟨stage', hp⟩ | hr
      · exact Or.inl ⟨stage', Under.proceeds h hthread hcontrols ht' hp⟩
      · obtain ⟨reply, hreply⟩ := hr.replied
        exact Or.inr ⟨reply, Ended.returns h hthread hcontrols ht' hr hreply⟩
  · refine ⟨own, nested ++ [(s, t)], fun x hx => Or.inl hx, Or.inl ⟨stage, ?_⟩⟩
    exact Under.waits h hm fun rest hthread hstack => hcontrol ⟨rest, hthread, hstack⟩

/-- What has happened since a request began is a run, and the moves of others are among its moves. -/
theorem Under.moves (h : Under q s₀ inner own nested stage s) : ∃ ms, Moves s₀ ms s ∧ nested.Sublist ms := by
  induction h with
  | begins h _ _ _ _ => exact ⟨_, Moves.single h.move, List.nil_sublist _⟩
  | proceeds _ _ _ ht _ ih =>
    obtain ⟨ms, hms, hsub⟩ := ih
    exact ⟨_, hms.move (Move.step ht), hsub.trans (List.sublist_append_left _ _)⟩
  | waits _ hm _ ih =>
    obtain ⟨ms, hms, hsub⟩ := ih
    exact ⟨_, hms.move hm, hsub.append (List.Sublist.refl _)⟩

/-- The moves during a request are some of the run. -/
theorem Ended.moves (h : Ended q s₀ inner own nested reply t) : ∃ ms, Moves s₀ ms t ∧ nested.Sublist ms := by
  cases h with
  | atOnce h _ _ _ _ => exact ⟨_, Moves.single h.move, List.nil_sublist _⟩
  | returns h _ _ ht _ _ =>
    obtain ⟨ms, hms, hsub⟩ := h.moves
    exact ⟨_, hms.move (Move.step ht), hsub.trans (List.sublist_append_left _ _)⟩

/-- A run that begins with a request has answered it at some move, or the request is still under way. -/
theorem request_followed {ms : List (Session × Session)} (h : Begins s₀ q.action u) (hms : Moves (u.perform q.action) ms t) :
    ∃ inner, (∃ own nested stage, Under q s₀ inner own nested stage t) ∨
      ∃ first after own nested reply v, ms = first ++ after ∧ Moves (u.perform q.action) first v ∧ Moves v after t ∧
        Ended q s₀ inner own nested reply v := by
  obtain ⟨inner, hbegun⟩ := request_begins h
  refine ⟨inner, ?_⟩
  induction hms with
  | refl =>
    rcases hbegun with ⟨stage, hunder⟩ | ⟨reply, hended⟩
    · exact Or.inl ⟨[], [], stage, hunder⟩
    · exact Or.inr ⟨[], [], [], [], reply, _, rfl, Moves.refl, Moves.refl, hended⟩
  | move hms hm ih =>
    rcases ih with ⟨own, nested, stage, hunder⟩ | ⟨first, after, own, nested, reply, v, rfl, hfirst, hafter, hended⟩
    · obtain ⟨own, nested, -, ⟨stage, hunder⟩ | ⟨reply, hended⟩⟩ := hunder.move hm
      · exact Or.inl ⟨own, nested, stage, hunder⟩
      · exact Or.inr ⟨_, [], own, nested, reply, _, (List.append_nil _).symm, hms.move hm, Moves.refl, hended⟩
    · exact Or.inr ⟨first, _, own, nested, reply, v, List.append_assoc .., hfirst, hafter.move hm, hended⟩

/-! ## Requests from outside -/

/-- To join leaves the stack alone. -/
theorem stack_join (s : Session) (id : RegistrationId) (root : Path) (observer : Observer) (label : String) :
    (s.join id root observer label .watch).stack = s.stack := by
  by_cases hrunning : s.watcher.state = .running
  · exact (Leads.join s id root observer label (Or.inr hrunning)).stack
  · exact (Leads.joinClosed s id root observer label hrunning).stack

/-- A request that comes to its end leaves the frames of its caller. -/
theorem Returns.stack (h : Returns s below stage t) : t.stack = below := by
  cases h with
  | detaches => exact (Leads.cancelHandles _ _).stack
  | joins => exact stack_join _ _ _ _ _
  | attaches =>
    unfold finishAttach
    split <;> exact stack_join _ _ _ _ _
  | _ => rfl

/-- Without frames nothing goes on. -/
theorem run_of_stack_nil (h : s.stack = []) (n : Nat) : run n s = s := by
  cases n with
  | zero => rfl
  | succ n =>
    have hrest : s.step = none := by
      unfold step
      rw [h]
    rw [run, hrest]

/-- However many steps are taken, there is one session in which nothing is left to do. -/
theorem run_eq_of_stack_nil {n m : Nat} (h : (run n s).stack = []) (h' : (run m s).stack = []) : run n s = run m s := by
  induction n generalizing s m with
  | zero => exact (run_of_stack_nil h m).symm
  | succ n ih =>
    cases m with
    | zero => exact run_of_stack_nil h' (n + 1)
    | succ m =>
      cases ht : s.step with
      | none => rw [run, ht, run, ht]
      | some t =>
        rw [run, ht] at h h'
        rw [run, ht, run, ht]
        exact ih h h'

/-- A request that is answered leaves the frames of its caller, with the reply as a signal. -/
theorem Ended.stack (h : Ended q s₀ inner own nested reply t) :
    (∃ rest, OfThread inner rest ∧ t.stack = inner ++ rest) ∧ t.signal = some (.replied reply) := by
  cases h with
  | atOnce _ hstack hthread _ hperform =>
    rw [hperform]
    exact ⟨⟨_, hthread, hstack⟩, rfl⟩
  | returns _ hthread _ _ hr hreply => exact ⟨⟨_, hthread, hr.stack⟩, hreply⟩

/-- Where nothing is on the stack, an action begins on an empty one. -/
theorem Begins.stack_nil {action : Action} (h : Begins s₀ action u) (hs : s₀.stack = []) : u.stack = [] := by
  cases h with
  | outside _ => exact hs
  | script hstack | observer hstack _ =>
    rw [hs] at hstack
    cases hstack

/-- A request from outside has no caller. -/
theorem Under.inner_nil (h : Under q s₀ inner own nested stage s) (hs : s₀.stack = []) : inner = [] := by
  induction h with
  | begins h hstack _ _ _ =>
    rw [Begins.stack_nil h hs, eq_comm, List.append_eq_nil_iff] at hstack
    exact hstack.1
  | proceeds _ _ _ _ _ ih => exact ih
  | waits _ _ _ ih => exact ih

/-- It has none when it ends, either. -/
theorem Ended.inner_nil (h : Ended q s₀ inner own nested reply t) (hs : s₀.stack = []) : inner = [] := by
  cases h with
  | atOnce h hstack _ _ _ =>
    rw [Begins.stack_nil h hs, eq_comm, List.append_eq_nil_iff] at hstack
    exact hstack.1
  | returns h _ _ _ _ _ => exact h.inner_nil hs

/-- When a request from outside is answered, nothing is left on the stack. -/
theorem Ended.stack_nil (h : Ended q s₀ [] own nested reply t) : t.stack = [] := by
  obtain ⟨⟨rest, ⟨_, _, heq, -⟩ | ⟨rfl, -⟩, hstack⟩, -⟩ := h.stack
  · exact absurd heq.symm (List.append_ne_nil_of_right_ne_nil _ (List.cons_ne_nil _ _))
  · exact hstack

/-- A request that is under way has frames somewhere. -/
theorem Under.busy (h : Under q s₀ inner own nested stage s) (hparked : s.parked = []) : s.stack ≠ [] := by
  have hframes : stage.frames ++ inner ≠ [] := by cases stage <;> exact List.cons_ne_nil _ _
  cases h.holds with
  | stands hback _ =>
    rw [hback]
    exact List.append_ne_nil_of_right_ne_nil _ (List.append_ne_nil_of_left_ne_nil hframes _)
  | parked hmem _ =>
    rw [hparked] at hmem
    cases hmem

/-- A request from outside is answered by the time nothing is left to do. -/
theorem Under.ended (h : Under q s₀ [] own nested stage s) {n : Nat} (hstack : (run n s).stack = [])
    (hparked : (run n s).parked = []) :
    ∃ own' nested' reply, Ended q s₀ [] own' nested' reply (run n s) ∧ ∀ x ∈ own', x ∈ own ∨
    ∃ m < n, x = run m s := by
  induction n generalizing own nested stage s with
  | zero => exact absurd hstack (h.busy hparked)
  | succ n ih =>
    cases ht : s.step with
    | none =>
      rw [run, ht] at hstack hparked
      exact absurd hstack (h.busy hparked)
    | some t =>
      have hrun : ∀ m, run (m + 1) s = run m t := fun m => by rw [run, ht]
      rw [hrun] at hstack hparked ⊢
      obtain ⟨own₁, nested₁, hown₁, ⟨stage, hunder⟩ | ⟨reply, hended⟩⟩ := h.move (Move.step ht)
      · obtain ⟨own', nested', reply, hended, hown'⟩ := ih hunder hstack hparked
        refine ⟨own', nested', reply, hended, fun x hx => ?_⟩
        rcases hown' x hx with hx | ⟨m, hm, rfl⟩
        · exact (hown₁ x hx).imp_right fun heq => ⟨0, Nat.succ_pos n, heq⟩
        · exact Or.inr ⟨m + 1, Nat.succ_lt_succ hm, (hrun m).symm⟩
      · rw [run_of_stack_nil hended.stack_nil]
        exact ⟨own₁, nested₁, reply, hended, fun x hx => (hown₁ x hx).imp_right fun heq => ⟨0, Nat.succ_pos n, heq⟩⟩

/-- A request from outside after which nothing is left to do is answered then. -/
theorem answered_after (q : Request) {n : Nat} (hidle : s.stack.isEmpty = true)
    (hover : ((s.after q.action n).stack.isEmpty && (s.after q.action n).parked.isEmpty) = true)
    (hreply : (s.after q.action n).signal = some (.replied reply)) :
    ∃ own nested, Ended q s [] own nested reply (s.after q.action n) ∧ ∀ x ∈ own, ∃ m < n, x = s.after q.action m := by
  rw [Bool.and_eq_true, List.isEmpty_iff, List.isEmpty_iff] at hover
  rw [List.isEmpty_iff] at hidle
  have hrest : s.step = none := by
    unfold step
    rw [hidle]
  have hanswer : ∀ {own nested reply'}, Ended q s [] own nested reply' (s.after q.action n) → reply' = reply := by
    intro own nested reply' hended
    have hsame := hended.stack.2.symm.trans hreply
    cases hsame
    rfl
  obtain ⟨inner, ⟨stage, hunder⟩ | ⟨reply, hended⟩⟩ := request_begins (q := q) (Begins.outside hrest)
  · obtain rfl := hunder.inner_nil hidle
    obtain ⟨own, nested, reply, hended, hown⟩ := hunder.ended hover.1 hover.2
    obtain rfl := hanswer hended
    exact ⟨own, nested, hended, fun x hx => (hown x hx).resolve_left List.not_mem_nil⟩
  · obtain rfl := hended.inner_nil hidle
    have hsame : s.after q.action n = { s with signal := none }.perform q.action := run_of_stack_nil hended.stack_nil n
    rw [hsame] at hanswer ⊢
    obtain rfl := hanswer hended
    exact ⟨[], [], hended, fun x hx => nomatch hx⟩

end Request

end DirWatch.Session
