import DirWatch.Proofs.Session.FanOut
import DirWatch.Proofs.Session.Findings
import DirWatch.Proofs.Table.Revocations

/-!
# Unwatching

A request to unwatch a root takes the observer off the path that the root leads to now. If that is the path that it led
to when the root was watched, the handle given then is cancelled for good, whatever has become of the tree meanwhile
(`detached_of_moves`). A root leads to the same path again if it is absolute and the links that it leads through are the
same. A link that leads elsewhere makes the difference (`detached_elsewhere`).
-/

namespace DirWatch.Session

open Request (Ended Returns Controls settled?_resolving)

variable {s s₀ s₁ t u v : Session} {q : Request} {stage : q.Stage} {below inner inner' : List Frame} {own own' : List Session}
  {nested nested' ms before : List (Session × Session)} {root : RootArgument} {observer : Observer} {label : String}
  {answer answer' : Answer} {path : Path} {h : HandleId}

/-! ## Watching -/

/-- An observer has been attached to a path, through an active handle with a label. -/
structure Attached (t : Session) (path : Path) (observer : Observer) (label : String) (h : HandleId)
    (handle : Handle) : Prop where
  label : t.labels.lookup label = some h
  get : t.table.handles[h]? = some handle
  observer : handle.observer = observer
  active : handle.active = true
  root : t.table.rootOf? handle.registration = some path

/-- An observer that joins and is told so has an active handle at the path. -/
theorem join_attached {id : RegistrationId} (hl : (s.join id path observer label .watch).table.Linked)
    (hid : s.table.find? path = some id) (hok : (s.join id path observer label .watch).signal = some (.replied (.ok answer))) :
    answer = .attached path true ∧
    ∃ h handle, Attached (s.join id path observer label .watch) path observer label h handle := by
  by_cases hrunning : s.watcher.state = .running
  · have htable : (s.join id path observer label .watch).table = (s.table.join id observer).1 :=
      (Leads.join s id path observer label (Or.inr hrunning)).table
    have hget := Table.newHandle_join s.table id observer
    have hactive : (s.table.join id observer).1.isActive s.table.handles.size = true := by
      rw [Table.isActive, hget]
    rw [htable] at hl
    have hroot := hl.root_eq ((Table.find?_eq_some hl.roots_nodup).mp hid)
    have heq := join_running s id path observer label hrunning
    rw [heq] at hok
    cases hok
    refine ⟨congrArg (Answer.attached path) hactive, s.table.handles.size, _, ?_, htable ▸ hget, rfl, rfl, htable ▸ hroot⟩
    rw [heq]
    exact List.lookup_cons_self
  · rw [join_closed s id path observer label hrunning] at hok
    cases hok

/-- A request to watch that succeeds gives an active handle of the observer at the path that it has settled. -/
theorem Request.Returns.attached {stage : (Request.watch root observer label).Stage} (hr : Returns s below stage t)
    (hcontrols : Controls s stage below) (hl : s.table.Linked) (hl' : t.table.Linked)
    (hpath : stage.path?.toList ++ s.settled?.toList = [path]) (hok : t.signal = some (.replied (.ok answer))) :
    answer = .attached path true ∧ ∃ h handle, Attached t path observer label h handle := by
  have hsettled : ∀ {p}, stage.path? = some p → p = path := by
    intro p hp
    rw [hp, (Request.nothing_seen hcontrols (by rw [hp]; rfl)).1] at hpath
    exact List.head_eq_of_cons_eq hpath
  cases hr with
  | @joins _ _ _ p ready id info hask hdirectory hid =>
    obtain rfl := hsettled rfl
    exact join_attached (s := s.popped below) hl' hid hok
  | @attaches _ _ _ p baseline =>
    obtain rfl := hsettled rfl
    cases hfind : s.table.find? p with
    | some id =>
      rw [finishAttach_known (s := s.popped below) hfind] at hok hl' ⊢
      exact join_attached (s := s.popped below) hl' hfind hok
    | none =>
      rw [finishAttach_new (s := s.popped below) hfind] at hok hl' ⊢
      exact join_attached hl' (hl.find?_register hfind baseline) hok
  | _ => cases hok

/-! ## Unwatching -/

/-- A handle that is active when others have been cancelled was active before and is none of them. -/
theorem active_cancelEach {table : Table} {hs : List HandleId} {handle : Handle} (hl : table.Linked)
    (hget : (cancelEach table hs).handles[h]? = some handle) (hactive : handle.active = true) :
    h ∉ hs ∧ table.handles[h]? = some handle := by
  unfold cancelEach at hget
  induction hs generalizing table with
  | nil => exact ⟨List.not_mem_nil, hget⟩
  | cons k hs ih =>
    obtain ⟨hrest, hfirst⟩ := ih (hl.cancel k) hget
    obtain ⟨hne, hbefore⟩ := hl.active_cancel hfirst hactive
    exact ⟨fun hmem => (List.mem_cons.mp hmem).elim hne hrest, hbefore⟩

/-- A request to unwatch that succeeds takes the observer off the path that it has settled. -/
theorem Request.Returns.detached {stage : (Request.unwatch root observer).Stage} (hr : Returns s below stage t)
    (hcontrols : Controls s stage below) (hpath : stage.path?.toList ++ s.settled?.toList = [path])
    (hok : t.signal = some (.replied (.ok answer))) : t.table = cancelEach s.table (s.table.attachments path observer) := by
  cases hr with
  | @detaches _ _ r ready p hnext =>
    rw [settled?_resolving hcontrols, hnext] at hpath
    obtain rfl : p = path := List.head_eq_of_cons_eq hpath
    exact (Leads.cancelHandles (s.popped below) _).table
  | unresolved => cases hok

/-- A handle at a path is active no more when the observer has been taken off the path. -/
theorem Attached.dead {table : Table} {handle gone : Handle} (ha : Attached t path observer label h handle)
    (hself : observer.sameAs observer = true) (hedits : Table.Edits t.table table) (hl : table.Linked)
    (hget : (cancelEach table (table.attachments path observer)).handles[h]? = some gone) : gone.active = false := by
  rw [← Bool.not_eq_true]
  intro hactive
  obtain ⟨hnot, hold⟩ := active_cancelEach hl hget hactive
  obtain ⟨same, hsame, hregistration, hobserver⟩ := hedits.remembers h handle ha.get
  rw [hold] at hsame
  cases hsame
  have hroot : table.rootOf? gone.registration = some path := hregistration ▸ hedits.rootOf? ha.root
  have hself' : gone.observer.sameAs observer = true := by
    rw [hobserver, ha.observer]
    exact hself
  exact hnot (hl.mem_attachments hold hactive hroot hself')

/-- A handle that is no longer active stays so, and nobody is called at its turn. -/
theorem uncalled_of_retired {gone : Handle} (hx : Exclusive v) (hget : v.table.handles[h]? = some gone)
    (hdead : gone.active = false) (hmore : Moves v ms u) : u.table.isActive h = false ∧
      ∀ m ∈ ms, callsOf m = [] ∨ ∃ id turn, serviceOf? id m = some turn ∧ turn.calls = callsOf m ∧
      turn.handle ≠ h := by
  have hstays : ∀ {ms u}, Moves v ms u → u.table.handles[h]? = some gone := fun hms => hms.edits.retired h gone hget hdead
  refine ⟨?_, fun m hm => ?_⟩
  · rw [Table.isActive, hstays hmore]
    exact hdead
  obtain ⟨⟨front, hfront⟩, hmove⟩ := hmore.comes_to hm
  rcases hmove.calls_at_turn (hfront.keeps (fun h hm => hm.exclusive h) hx) with hnone |
    ⟨id, turn, changes, hturn, hcalls, howed⟩
  · exact Or.inl hnone
  by_cases hh : turn.handle = h
  · left
    have hattachment := attachment_of_service hturn
    rw [hh, hstays hfront] at hattachment
    rw [← hcalls, howed, Service.owed, hattachment]
    refine if_neg ?_
    rw [hdead, Bool.and_false, Bool.false_and]
    exact Bool.false_ne_true
  · exact Or.inr ⟨id, turn, hturn, hcalls, hh⟩

/-! ## Watching and unwatching -/

/-- Wherever both requests have looked for a link, they have found the same. -/
def SameLinks (own own' : List Session) : Prop :=
  ∀ text link link', (text, link) ∈ own.filterMap linkSeen? → (text, link') ∈ own'.filterMap linkSeen? → link = link'

/-- Whether a root stands for an absolute path. -/
def IsAbsoluteRoot (root : RootArgument) : Prop :=
  ∃ p, pathOf root = .ok p ∧ p.isAbsolute = true

/-- An absolute root is its own path. -/
theorem rootPath_of_absolute {p : Path} (h : pathOf root = .ok p) (habsolute : p.isAbsolute = true) (s : Session) :
    s.rootPath root = .ok p := by
  have hexpand : expandHome s.homes p = .ok p := by
    unfold expandHome
    split
    · rename_i hanchor _
      rw [Path.isAbsolute, hanchor] at habsolute
      cases habsolute
    · rfl
  unfold rootPath
  rw [h]
  exact hexpand

/-- Two requests settle the same path if their root is absolute and they find the same links. -/
theorem settled_alike {q q' : Request} (hwatch : Ended q s₀ inner own nested (.ok answer) t)
    (hunwatch : Ended q' s₁ inner' own' nested' (.ok answer') v) (hroot : q'.root = q.root) (habsolute : IsAbsoluteRoot q.root)
    (hlinks : SameLinks own own') : own'.filterMap settled? = own.filterMap settled? := by
  obtain ⟨p, hp, habsolute⟩ := habsolute
  obtain ⟨-, -, -, path, -, -, -, hsettled, -, u, first, -, hfirst, hreads⟩ := hwatch.settled
  obtain ⟨-, -, -, path', -, -, -, hsettled', -, u', second, -, hsecond, hreads'⟩ := hunwatch.settled
  rw [hroot] at hsecond
  cases hfirst.symm.trans (rootPath_of_absolute hp habsolute u)
  cases hsecond.symm.trans (rootPath_of_absolute hp habsolute u')
  obtain ⟨hstart, heq⟩ := @Resolution.start_absolute u.disk.cwd u'.disk.cwd _ habsolute
  rw [heq] at hreads'
  rw [hsettled, hsettled', hreads.same_result hreads' hstart hlinks]

/-- Unwatching a root undoes watching it, if an observer equals itself and both requests settle the same path. They do
so if the root is absolute and each path that both look at is a link to the same target for both, or is no link for
either. The request to watch has given an active handle of the observer at the path. Whatever happens until the root is
unwatched, the handle is then no longer active, and however the session goes on, it stays so and nobody is called at its
turn. -/
theorem detached_of_moves {w : World} (hs : Opens w s) (hbefore : Moves s before s₀) (hself : observer.sameAs observer = true)
    (hwatch : Ended (.watch root observer label) s₀ inner own nested (.ok answer) t) (hlater : Moves t ms s₁)
    (hunwatch : Ended (.unwatch root observer) s₁ inner' own' nested' (.ok answer') v)
    (hsame : own'.filterMap settled? = own.filterMap settled? ∨ IsAbsoluteRoot root ∧ SameLinks own own') :
    ∃ path h handle, answer = .attached path true ∧ Attached t path observer label h handle ∧ v.table.isActive h = false ∧
      ∀ {more u}, Moves v more u → u.table.isActive h = false ∧
        ∀ m ∈ more, callsOf m = [] ∨ ∃ id turn, serviceOf? id m = some turn ∧ turn.calls = callsOf m ∧
        turn.handle ≠ h := by
  have hlinked : ∀ {ms s'}, Moves s ms s' → s'.table.Linked := fun hms => hms.edits.linked hs.linked
  obtain ⟨watching, hwatching, -⟩ := hwatch.moves
  obtain ⟨unwatching, hunwatching, -⟩ := hunwatch.moves
  have hattaching := hbefore.trans hwatching
  have hwatched := hattaching.trans hlater
  have hended := hwatched.trans hunwatching
  have hsettled_alike : own'.filterMap settled? = own.filterMap settled? :=
    hsame.elim id fun ⟨habsolute, hlinks⟩ => settled_alike hwatch hunwatch rfl habsolute hlinks
  obtain ⟨a, _, stage, path, hcontrols, hr, ⟨toa, htoa⟩, hsettled, hpath, -⟩ := hwatch.settled
  obtain ⟨b, _, stage', path', hcontrols', hr', ⟨tob, htob⟩, hsettled', hpath', -⟩ := hunwatch.settled
  obtain rfl : path' = path := by
    rw [hsettled, hsettled'] at hsettled_alike
    exact List.head_eq_of_cons_eq hsettled_alike
  obtain ⟨hanswer, h, handle, hattached⟩ :=
    hr.attached hcontrols (hlinked (hbefore.trans htoa)) (hlinked hattaching) hpath hwatch.stack.2
  have hdetached := hr'.detached hcontrols' hpath' hunwatch.stack.2
  obtain ⟨gone, hgone, -, -⟩ := (hlater.trans hunwatching).edits.remembers h handle hattached.get
  have hdead : gone.active = false := by
    rw [hdetached] at hgone
    exact hattached.dead hself (hlater.trans htob).edits (hlinked (hwatched.trans htob)) hgone
  have hx : Exclusive v := hended.keeps (fun h hm => hm.exclusive h) hs.exclusive
  exact ⟨path', h, handle, hanswer, hattached, (uncalled_of_retired hx hgone hdead Moves.refl).1,
    uncalled_of_retired hx hgone hdead⟩

/-! ## Runs -/

/-- The path and the activity of the handle that a request to watch has given. -/
def given? (s : Session) : Option (Path × Bool) :=
  match s.signal with
  | some (.replied (.ok (.attached path active))) => some (path, active)
  | _ => none

/-- Whether a request has been answered with nothing. -/
def isDone (s : Session) : Bool :=
  match s.signal with
  | some (.replied (.ok .nothing)) => true
  | _ => false

/-- What was given is in the answer. -/
theorem signal_of_given {active : Bool} (h : s.given? = some (path, active)) :
    s.signal = some (.replied (.ok (.attached path active))) := by
  unfold given? at h
  split at h
  · rename_i hsignal
    cases h
    exact hsignal
  · cases h

/-- A request that is done has been answered. -/
theorem signal_of_isDone (h : s.isDone = true) : s.signal = some (.replied (.ok .nothing)) := by
  unfold isDone at h
  split at h
  · assumption
  · cases h

/-- A world with two directories and a link to one of them. -/
def crossed : World where
  disk := { root := .directory [("l", .link "/w" 1), ("v", .directory [] 2), ("w", .directory [] 3)] 0 }

def crossedWatcher : Session :=
  (createRunning crossed {}).toOption.getD default

def crossedWatch : Request :=
  .watch (.path ⟨.root, ["l"]⟩) (.named "a" (.text "a")) "a"

def crossedUnwatch : Request :=
  .unwatch (.path ⟨.root, ["l"]⟩) (.named "a" (.text "a"))

/-- The link is watched. -/
def crossedWatching : Session :=
  crossedWatcher.after crossedWatch.action 9

/-- The directory that the link leads to is gone. -/
def crossedEmptied : Session :=
  crossedWatching.after (.remove "/w") 0

def crossedUnwatched : Session :=
  crossedEmptied.after crossedUnwatch.action 4

/-- The observer is detached from the root although there is no such directory any more. -/
theorem detached_of_moves_crossed : crossedWatching.table.isActive 0 = true ∧ crossedUnwatched.table.isActive 0 = false ∧
    ∀ {more u}, Moves crossedUnwatched more u → u.table.isActive 0 = false ∧
      ∀ m ∈ more, callsOf m = [] ∨ ∃ id turn, serviceOf? id m = some turn ∧ turn.calls = callsOf m ∧
      turn.handle ≠ 0 := by
  have hopens : Opens crossed crossedWatcher := Opens.running_of_isSome (by decide +kernel)
  have hgiven : crossedWatching.given? = some (⟨.root, ["w"]⟩, true) := by decide +kernel
  obtain ⟨own, nested, hwatch, hown⟩ := Request.answered_after crossedWatch (by decide +kernel) (by decide +kernel)
    (signal_of_given hgiven)
  have hdone : crossedUnwatched.isDone = true := by decide +kernel
  obtain ⟨own', nested', hunwatch, hown'⟩ := Request.answered_after crossedUnwatch (by decide +kernel) (by decide +kernel)
    (signal_of_isDone hdone)
  have hremoved : Moves crossedWatching _ crossedEmptied := Moves.refl.acts (.remove "/w") 0 (by decide +kernel)
  have hlinks : ∀ m < 9, ∀ m' < 4, ((crossedWatcher.after crossedWatch.action m).linkSeen?.all fun x =>
      (crossedEmptied.after crossedUnwatch.action m').linkSeen?.all fun y => x.1 != y.1 || x.2 == y.2) = true := by decide +kernel
  have hsame : SameLinks own own' := by
    intro text link link' hseen hseen'
    obtain ⟨x, hx, hx'⟩ := List.mem_filterMap.mp hseen
    obtain ⟨y, hy, hy'⟩ := List.mem_filterMap.mp hseen'
    obtain ⟨m, hm, rfl⟩ := hown x hx
    obtain ⟨m', hm', rfl⟩ := hown' y hy
    have hboth := hlinks m hm m' hm'
    rw [hx', hy'] at hboth
    simpa using hboth
  obtain ⟨path, h, handle, -, hattached, -, hstays⟩ :=
    detached_of_moves hopens Moves.refl (by decide) hwatch hremoved hunwatch
    (Or.inr ⟨⟨⟨.root, ["l"]⟩, rfl, rfl⟩, hsame⟩)
  have hlabel : crossedWatching.labels.lookup "a" = some 0 := by decide +kernel
  obtain rfl : 0 = h := Option.some.inj (hlabel.symm.trans hattached.label)
  exact ⟨by decide +kernel, by decide +kernel, hstays⟩

/-- The link leads to the other directory now. -/
def crossedOver : Session :=
  crossedWatching.after (.put "/l" (.link "/v" 4)) 0

def crossedMissed : Session :=
  crossedOver.after crossedUnwatch.action 4

/-- A file has come to the first directory, and the watcher polls. -/
def crossedPolled : Session :=
  (crossedMissed.after (.put "/w/x" (.file 5)) 0).after .pollNow 13

/-- An observer that does not equal itself is attached to a directory. -/
def strangeWatching : Session :=
  crossedWatcher.after (.watch (.path ⟨.root, ["w"]⟩) (.named "n" (.float .nan)) "n") 8

def strangeUnwatched : Session :=
  strangeWatching.after (.unwatch (.path ⟨.root, ["w"]⟩) (.named "n" (.float .nan))) 3

/-- If a link leads elsewhere when its root is unwatched, the observer stays attached to where it led before, and is
called for the changes there. An observer that does not equal itself stays attached in any case. -/
theorem detached_elsewhere :
    (∃ own nested own' nested',
      Ended crossedWatch crossedWatcher [] own nested (.ok (.attached ⟨.root, ["w"]⟩ true)) crossedWatching ∧
      crossedWatching.labels.lookup "a" = some 0 ∧ (∃ ms, Moves crossedWatching ms crossedOver) ∧
      Ended crossedUnwatch crossedOver [] own' nested' (.ok .nothing) crossedMissed ∧
      crossedMissed.watcher.state = .running ∧ crossedMissed.table.isActive 0 = true ∧ crossedMissed.calls.length = 0 ∧
      crossedPolled.calls.length = 1) ∧
    ∃ own nested own' nested',
      Ended (.watch (.path ⟨.root, ["w"]⟩) (.named "n" (.float .nan)) "n") crossedWatcher [] own nested
        (.ok (.attached ⟨.root, ["w"]⟩ true)) strangeWatching ∧
      strangeWatching.labels.lookup "n" = some 0 ∧
      Ended (.unwatch (.path ⟨.root, ["w"]⟩) (.named "n" (.float .nan))) strangeWatching [] own' nested' (.ok .nothing)
        strangeUnwatched ∧
      strangeUnwatched.watcher.state = .running ∧ strangeUnwatched.table.isActive 0 = true := by
  have hgiven : crossedWatching.given? = some (⟨.root, ["w"]⟩, true) := by decide +kernel
  have hdone : crossedMissed.isDone = true := by decide +kernel
  have hstrange : strangeWatching.given? = some (⟨.root, ["w"]⟩, true) := by decide +kernel
  have hstrangeDone : strangeUnwatched.isDone = true := by decide +kernel
  obtain ⟨own, nested, hwatch, -⟩ := Request.answered_after crossedWatch (by decide +kernel) (by decide +kernel)
    (signal_of_given hgiven)
  obtain ⟨own', nested', hunwatch, -⟩ := Request.answered_after crossedUnwatch (by decide +kernel) (by decide +kernel)
    (signal_of_isDone hdone)
  have hrelinked : Moves crossedWatching _ crossedOver := Moves.refl.acts (.put "/l" (.link "/v" 4)) 0 (by decide +kernel)
  refine ⟨⟨own, nested, own', nested', hwatch, by decide +kernel, ⟨_, hrelinked⟩, hunwatch, by decide +kernel,
    by decide +kernel, by decide +kernel,
    by decide +kernel⟩, ?_⟩
  obtain ⟨own, nested, hwatch, -⟩ := Request.answered_after (.watch (.path ⟨.root, ["w"]⟩) (.named "n" (.float .nan)) "n")
    (by decide +kernel) (by decide +kernel) (signal_of_given hstrange)
  obtain ⟨own', nested', hunwatch, -⟩ :=
    Request.answered_after (.unwatch (.path ⟨.root, ["w"]⟩) (.named "n" (.float .nan)))
    (by decide +kernel) (by decide +kernel) (signal_of_isDone hstrangeDone)
  exact ⟨own, nested, own', nested', hwatch, by decide +kernel, hunwatch, by decide +kernel, by decide +kernel⟩

end DirWatch.Session
