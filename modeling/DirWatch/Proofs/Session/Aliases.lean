import DirWatch.Proofs.Resolution.Places
import DirWatch.Proofs.Session.Roots

/-!
# Aliases of a directory

A directory has many names: texts with more slashes than they need, with `.` and `..`, through links that follow one
another or stand in each other's targets. Where the file system finds the directory under such a root (`Reaches`), a
request to watch the root comes to one and the same path, the names of the directory from the root of the tree. So the
aliases of a directory share one registration, and only the first of them is captured (`aliases_share`).

The tree is meant to stay as it is meanwhile, and no call to fail of itself: with no faults a request goes on by itself
to its end and changes nothing on its way (`Under.alone`), and each of its questions gets the answer of the tree
(`Under.goes`).
-/

namespace DirWatch.Session

open Resolution (Goes IsCanonical Whole)
open Request (Ended Under Proceeds Returns Controls Stage TurnedDown probeFailure? nothing_seen join_failed finishAttach_failed)

variable {s s₀ t u v : Session} {q : Request} {stage stage' : q.Stage} {inner below : List Frame} {own : List Session}
  {nested ms before : List (Session × Session)} {root : RootArgument} {observer : Observer} {label : String} {path : Path}
  {place : List String} {reply : Reply} {call : Call} {ready : Bool} {d : Disk} {action : Action} {h : HandleId} {handle : Handle}

/-! ## Roots that reach a directory -/

/-- The place of the directory that the file system finds under a text. -/
def directoryAt? (d : Disk) (text : String) : Option (List String) :=
  match d.locate true text with
  | .ok (place, .directory _ _) => some place
  | _ => none

/-- An absolute root under which the file system finds the directory at a place: a text, or a path whose names have no
slash in them. -/
inductive Reaches (d : Disk) (place : List String) : RootArgument → Prop
  | text {text} (habsolute : text.toList.head? = some '/') (h : directoryAt? d text = some place) :
      Reaches d place (.value (.text text))
  | path {p} (habsolute : p.isAbsolute = true) (hwhole : Whole p.names) (h : directoryAt? d (toString p) = some place) :
      Reaches d place (.path p)

/-- Where the file system finds a directory, it follows the links of the text to its place. -/
theorem follows_of_directoryAt {text : String} (habsolute : text.toList.head? = some '/') (h : directoryAt? d text = some place) :
    Disk.Follows d.root Disk.maxLinks [] (Resolution.components text.toList) place ∧
      ∃ children m, d.root.descend? place = some (.directory children m) := by
  unfold directoryAt? at h
  split at h
  · rename_i children m hlocate
    cases h
    obtain ⟨hfollows, hplace⟩ := Disk.follows_of_locate habsolute hlocate
    exact ⟨hfollows, children, m, hplace⟩
  · cases h

/-- A root that reaches a directory stands for an absolute path, and the names of that path lead to the directory. -/
theorem Reaches.follows (h : Reaches d place root) : ∃ p, pathOf root = .ok p ∧ p.isAbsolute = true ∧ Whole p.names ∧
    Disk.Follows d.root Disk.maxLinks [] p.names place ∧
    ∃ children m, d.root.descend? place = some (.directory children m) := by
  cases h with
  | @text text habsolute h =>
    obtain ⟨hfollows, hplace⟩ := follows_of_directoryAt habsolute h
    exact ⟨_, rfl, Path.isAbsolute_ofString habsolute, whole_ofString text, Resolution.follows_ofString hfollows, hplace⟩
  | @path p habsolute hwhole h =>
    obtain ⟨hfollows, hplace⟩ := follows_of_directoryAt (Path.isAbsolute_toString habsolute) h
    exact ⟨p, rfl, habsolute, hwhole, Resolution.follows_toString habsolute hwhole hfollows, hplace⟩

/-- A root that reaches a directory is not empty. -/
theorem Reaches.not_empty (h : Reaches d place root) : isEmptyRoot root = false := by
  cases h with
  | text habsolute _ =>
    unfold isEmptyRoot
    split
    · rename_i heq
      cases heq
    · rename_i heq
      cases heq
      cases habsolute
    · rfl
  | path => rfl

/-! ## Without faults -/

/-- Without faults every call gets the answer of the tree. -/
theorem ask_of_faultless (h : s.faults = []) (call : Call) (ready : Bool) :
    s.ask call ready = .answered (s.disk.answer call) := by
  have hfault : s.faultOf? call = none := by
    rw [faultOf?, h]
    rfl
  unfold ask
  rw [hfault]
  cases ready <;> rfl

/-- Nothing has happened to the watcher, to the tree and to the faults. -/
structure Unmoved (s t : Session) : Prop where
  watcher : t.watcher = s.watcher
  disk : t.disk = s.disk
  faults : t.faults = s.faults

theorem Unmoved.refl (s : Session) : Unmoved s s :=
  ⟨rfl, rfl, rfl⟩

theorem Unmoved.trans (h : Unmoved s t) (h' : Unmoved t u) : Unmoved s u :=
  ⟨h'.watcher.trans h.watcher, h'.disk.trans h.disk, h'.faults.trans h.faults⟩

/-- Notices move nothing. -/
theorem Unmoved.notices (s : Session) (ns : List Notice) : Unmoved s (s.notices ns) := by
  induction ns generalizing s with
  | nil => exact Unmoved.refl s
  | cons n ns ih =>
    have hfirst : Unmoved s (s.notice n) := ⟨rfl, rfl, rfl⟩
    exact hfirst.trans (ih (s.notice n))

/-- A running watcher has the observer join a registration, which is new if there was none. -/
theorem finishAttach_joins (s : Session) (path : Path) (observer : Observer) (label : String) (baseline : Snapshot) : ∃ t id,
    s.finishAttach path observer label .watch baseline = t.join id path observer label .watch ∧ Unmoved s t ∧
      ∀ k, s.table.find? path = some k → t.table = s.table := by
  cases hfind : s.table.find? path with
  | some id => exact ⟨s, id, finishAttach_known hfind _ _ _ _, Unmoved.refl s, fun _ _ => rfl⟩
  | none =>
    refine ⟨_, _, finishAttach_new hfind _ _ _ _, ⟨rfl, rfl, rfl⟩, fun _ heq => ?_⟩
    cases heq

/-- An action begins in a session that nothing has moved. -/
theorem Begins.unmoved (h : Begins s action u) : Unmoved s u := by
  have hreply : ∀ {below : List Frame} {current : Option String} {f : Frame},
      Unmoved s (((s.popped below).recordReply current s.signal).push f) := by
    intro below current f
    unfold recordReply
    split <;> exact ⟨rfl, rfl, rfl⟩
  cases h with
  | outside _ => exact ⟨rfl, rfl, rfl⟩
  | script _ => exact hreply
  | observer _ _ => exact hreply

/-- The path that a request begins to capture: it has found a directory there, and no registration of it. -/
def firstCapture? (s : Session) : Option Path :=
  match s.probed? with
  | some (path, .ok info) => if info.isDirectory = true ∧ s.table.find? path = none then some path else none
  | _ => none

namespace Request

/-- A move by which a request goes on begins the capture that the stage after it has and the stage before it lacks. -/
theorem Proceeds.firstCapture (h : Proceeds s below stage stage' t) (hcontrols : Controls s stage below) :
    stage'.captured?.toList = stage.captured?.toList ++ s.firstCapture?.toList := by
  have hlater : s.probed? = none → stage'.captured? = stage.captured? →
      stage'.captured?.toList = stage.captured?.toList ++ s.firstCapture?.toList := by
    intro hprobed hsame
    rw [hsame, firstCapture?, hprobed]
    exact (List.append_nil _).symm
  have hstack := hcontrols.1
  cases h with
  | pauses hcall hfault hready =>
    refine hlater ?_ (by cases stage <;> rfl)
    cases stage with
    | @probing root observer label path ready =>
      have hready : ready = false := hready
      subst hready
      cases hcall
      rw [probed?, show s.stack = .probing path observer label false :: below from hstack]
      dsimp only
      unfold ask
      rw [hfault]
    | _ =>
      unfold probed?
      rw [hstack]
      rfl
  | @probes root observer label path ready info hask hdirectory hnone =>
    rw [firstCapture?, probed?_eq hcontrols hask]
    dsimp only
    rw [if_pos ⟨hdirectory, hnone⟩]
    rfl
  | _ =>
    refine hlater ?_ rfl
    unfold probed?
    rw [hstack]
    rfl

/-- A request that is under way has begun the capture that it is at, and no other one. -/
theorem Under.firstCapture (h : Under q s₀ inner own nested stage s) : own.filterMap firstCapture? = stage.captured?.toList :=
  h.findings (fun _ => rfl) Proceeds.firstCapture

/-- Without faults a request goes on by itself, and changes nothing until it is answered. -/
theorem Under.alone (h : Under q s₀ inner own [] stage s) (hfaults : s₀.faults = []) :
    (s.table = s₀.table ∧ Unmoved s₀ s) ∧ ∀ x ∈ own, x.table = s₀.table ∧ Unmoved s₀ x := by
  generalize hnested : [] = nested at h
  induction h with
  | begins h _ _ _ hperform =>
    refine ⟨⟨?_, ?_⟩, List.forall_mem_nil _⟩
    · rw [hperform]
      exact h.prepared.table
    · rw [hperform]
      exact h.unmoved.trans ⟨rfl, rfl, rfl⟩
  | @proceeds own _ _ _ s t _ _ _ _ _ hp ih =>
    obtain ⟨⟨htable, hunmoved⟩, hown⟩ := ih hnested
    have hnext : Unmoved s t := by
      cases hp with
      | pauses _ hfault _ =>
        have hmem := mem_faults hfault
        rw [hunmoved.faults, hfaults] at hmem
        cases hmem
      | captures _ _ =>
        have hpopped : ∀ below, Unmoved s (s.popped below) := fun _ => ⟨rfl, rfl, rfl⟩
        exact ((hpopped _).trans (Unmoved.notices _ _)).trans ⟨rfl, rfl, rfl⟩
      | _ => exact ⟨rfl, rfl, rfl⟩
    refine ⟨⟨hp.table_eq.trans htable, hunmoved.trans hnext⟩, fun x hx => ?_⟩
    rcases List.mem_append.mp hx with hx | hx
    · exact hown x hx
    · rw [List.mem_singleton.mp hx]
      exact ⟨htable, hunmoved⟩
  | waits => exact absurd hnested.symm (List.append_ne_nil_of_right_ne_nil _ (List.cons_ne_nil _ _))

/-- The resolution of the root goes on by the answers of the tree. -/
theorem Under.goes (h : Under q s₀ inner own nested stage s) (hown : ∀ x ∈ own, x.disk = d ∧ x.faults = []) :
    ∃ u p, Begins s₀ q.action u ∧ u.rootPath q.root = .ok p ∧
      Goes d.cwd (fun call => some (d.answer call)) (.start u.disk.cwd p) stage.resolution := by
  induction h with
  | @begins u rest p h _ _ hroot _ => exact ⟨u, p, h, hroot, Goes.refl _⟩
  | @proceeds own _ _ _ s _ _ _ _ _ _ hp ih =>
    obtain ⟨u, p, hbegins, hroot, hgoes⟩ := ih fun x hx => hown x (List.mem_append_left _ hx)
    obtain ⟨hdisk, hfaults⟩ := hown s (List.mem_append_right _ (List.mem_singleton_self _))
    refine ⟨u, p, hbegins, hroot, hgoes.trans ?_⟩
    cases hp with
    | pauses =>
      rw [Stage.resolution_readied]
      exact Goes.refl _
    | @resolves _ r ready call resume answer hnext hask =>
      rw [ask_of_faultless hfaults] at hask
      cases hask
      rw [hdisk] at hnext ⊢
      exact Goes.ask hnext rfl (Goes.refl _)
    | resolved hnext =>
      obtain rfl := Resolution.next_stop hnext
      exact Goes.refl _
    | _ => exact Goes.refl _
  | waits _ _ _ ih => exact ih hown

/-- The resolution of a root that reaches a directory is on its way to the place of the directory. -/
theorem Under.arrives (h : Under q s₀ inner own [] stage s) (hfaults : s₀.faults = []) (hdisk : s₀.disk.Valid)
    (hroot : Reaches s₀.disk place q.root) :
    Goes s₀.disk.cwd (fun call => some (s₀.disk.answer call)) stage.resolution ⟨.done (.ok ⟨.root, place⟩)⟩ := by
  obtain ⟨-, hown⟩ := h.alone hfaults
  obtain ⟨p, hp, habsolute, -, hfollows, children, m, hplace⟩ := hroot.follows
  obtain ⟨u, p', hbegins, hp', hgoes⟩ := h.goes fun x hx => ⟨(hown x hx).2.disk, (hown x hx).2.faults.trans hfaults⟩
  rw [rootPath_of_absolute hp habsolute] at hp'
  cases hp'
  rw [hbegins.unmoved.disk] at hgoes
  exact hgoes.linear (Resolution.goes_to_place hdisk (fun _ => rfl) habsolute hfollows hplace)

/-- The path a request has resolved its root to is the place that the root reaches. -/
theorem Under.path_eq (h : Under q s₀ inner own [] stage s) (hfaults : s₀.faults = []) (hdisk : s₀.disk.Valid)
    (hroot : Reaches s₀.disk place q.root) (hpath : stage.path? = some path) : path = ⟨.root, place⟩ := by
  have harrives := h.arrives hfaults hdisk hroot
  have hdone : stage.resolution = ⟨.done (.ok path)⟩ := by
    cases stage <;> cases hpath <;> rfl
  rw [hdone] at harrives
  cases harrives.of_done
  rfl

/-- A first capture begins only for a path without a registration. -/
theorem none_of_firstCapture (h : s.firstCapture? = some path) : s.table.find? path = none := by
  unfold firstCapture? at h
  split at h
  · split at h
    · rename_i hnone
      cases h
      exact hnone.2
    · cases h
  · cases h

/-- What the last move of a request to watch a root comes to in a running watcher, if nothing has failed. -/
structure Succeeds (s : Session) (stage : (watch root observer label).Stage) (p : Path) (t : Session) : Prop where
  path : stage.path? = some p
  unmoved : Unmoved s t
  accepted : ∀ f, t.signal ≠ some (.replied (.error f))
  /-- It begins no capture. -/
  begins : s.firstCapture? = none
  /-- Without a capture there is a registration already. -/
  known : stage.captured? = none → ∃ id, s.table.find? p = some id
  kept : ∀ id, s.table.find? p = some id → t.table.find? p = some id

/-- A request that returns in a running watcher, with no failure on its way, has succeeded. -/
theorem succeeds_of_returns {stage : (watch root observer label).Stage} (hr : Returns s below stage t)
    (hcontrols : Controls s stage below) (hrunning : s.watcher.state = .running)
    (hresolution : ∀ e, stage.resolution ≠ ⟨.done (.error e)⟩)
    (hprobe : ∀ path ready answer, stage.path? = some path → s.ask (.stat (toString path)) ready = .answered answer →
      probeFailure? path answer = none) (hcapture : stage.Unfailing) : ∃ path, Succeeds s stage path t := by
  have hpopped : Unmoved s (s.popped below) := ⟨rfl, rfl, rfl⟩
  have hjoin : ∀ {u : Session}, Unmoved s u → ∀ id path, Unmoved s (u.join id path observer label .watch) ∧
      (u.join id path observer label .watch).table = (u.table.join id observer).1 ∧
        ∀ f, (u.join id path observer label .watch).signal ≠ some (.replied (.error f)) := by
    intro u hu id path
    have hrunning : u.watcher.state = .running := by
      rw [hu.watcher]
      exact hrunning
    rw [join_running u id path observer label hrunning]
    refine ⟨hu.trans ⟨rfl, rfl, rfl⟩, rfl, fun f heq => ?_⟩
    cases heq
  cases hr with
  | unresolved hnext => exact absurd (Resolution.next_stop hnext) (hresolution _)
  | refuses hask hf =>
    rw [hprobe _ _ _ rfl hask] at hf
    cases hf
  | @joins _ _ _ path ready id info hask hdirectory hid =>
    obtain ⟨hunmoved, htable, haccepted⟩ := hjoin hpopped id path
    have hbegins : s.firstCapture? = none := by
      rw [firstCapture?, probed?_eq hcontrols hask]
      refine if_neg fun hnone => ?_
      rw [hid] at hnone
      cases hnone.2
    refine ⟨path, rfl, hunmoved, haccepted, hbegins, fun _ => ⟨id, hid⟩, fun other hother => ?_⟩
    rw [htable]
    exact hother
  | fails =>
    obtain ⟨snapshot, heq⟩ := hcapture
    cases heq
  | @attaches _ _ _ path baseline =>
    obtain ⟨u, id, heq, hu, hknown⟩ := finishAttach_joins (s.popped below) path observer label baseline
    obtain ⟨hunmoved, htable, haccepted⟩ := hjoin (hpopped.trans hu) id path
    have hbegins : s.firstCapture? = none := by
      unfold firstCapture? probed?
      rw [hcontrols.1]
      rfl
    rw [heq]
    refine ⟨path, rfl, hunmoved, haccepted, hbegins, (fun hnone => nomatch hnone), fun other hother => ?_⟩
    rw [htable, hknown other hother]
    exact hother

/-- Until a request begins a capture its path has no registration. -/
theorem Under.unregistered (h : Under q s₀ inner own [] stage s) (hfaults : s₀.faults = [])
    (hcaptured : stage.captured? = some path) :
    s₀.table.find? path = none := by
  obtain ⟨-, hown⟩ := h.alone hfaults
  have hmem : path ∈ own.filterMap firstCapture? := by
    rw [h.firstCapture, hcaptured]
    exact List.mem_singleton_self _
  obtain ⟨x, hx, hbegins⟩ := List.mem_filterMap.mp hmem
  exact (hown x hx).1 ▸ none_of_firstCapture hbegins

/-- A root that reaches a directory is not turned down in a running watcher. -/
theorem TurnedDown.not_reaches {f : Failure} (h : TurnedDown u (.watch root observer label) f)
    (hrunning : u.watcher.state = .running) (hcallable : observer.isCallable = true) : ¬Reaches d place root := by
  intro hroot
  cases h with
  | notRunning hstate => exact hstate hrunning
  | notCallable hobserver =>
    rw [hcallable] at hobserver
    cases hobserver
  | emptyRoot hempty =>
    rw [hroot.not_empty] at hempty
    cases hempty
  | noPath hpath =>
    obtain ⟨p, hp, habsolute, -⟩ := hroot.follows
    cases hpath.symm.trans (rootPath_of_absolute hp habsolute u)

/-- A request to watch a root that reaches a directory is answered with a handle at the place of the directory. It
captures the directory if that has no registration, and leaves the registration that it has. -/
theorem Ended.reached (h : Ended (.watch root observer label) s₀ inner own [] reply v)
    (hl : ∀ {ms s}, Moves s₀ ms s → s.table.Linked) (hrunning : s₀.watcher.state = .running)
    (hcallable : observer.isCallable = true) (hfaults : s₀.faults = []) (hdisk : s₀.disk.Valid)
    (hroot : Reaches s₀.disk place root) :
    reply = .ok (.attached ⟨.root, place⟩ true) ∧
    (∃ h handle, Attached v ⟨.root, place⟩ observer label h handle) ∧ Unmoved s₀ v ∧
      own.filterMap firstCapture? = (if s₀.table.find? ⟨.root, place⟩ = none then [⟨.root, place⟩] else []) ∧
      ∀ id, s₀.table.find? ⟨.root, place⟩ = some id → v.table.find? ⟨.root, place⟩ = some id := by
  cases h with
  | atOnce hbegins _ _ hdown _ => exact absurd hroot (hdown.not_reaches (hbegins.unmoved.watcher ▸ hrunning) hcallable)
  | @returns own _ stage s _ rest _ hunder _ hcontrols ht hr hreply =>
    obtain ⟨⟨htable, hunmoved⟩, hown⟩ := hunder.alone hfaults
    obtain ⟨ms, hms, -⟩ := hunder.moves
    have hgenuine : ∀ x ∈ own, Genuine x := by
      intro x hx
      obtain ⟨-, hx⟩ := hown x hx
      refine ⟨hx.disk ▸ hdisk, ?_⟩
      rw [neverDisrupts, hx.faults, hfaults]
      rfl
    -- the resolution arrives at the place, so it has not failed
    have hresolution : ∀ e, stage.resolution ≠ ⟨.done (.error e)⟩ := by
      intro e heq
      have harrives := hunder.arrives hfaults hdisk hroot
      rw [heq] at harrives
      cases harrives.of_done
    -- a directory stands there, so the look at it does not fail either
    have hprobe : ∀ path ready answer, stage.path? = some path → s.ask (.stat (toString path)) ready = .answered answer →
        probeFailure? path answer = none := by
      intro path ready answer hpath hask
      obtain rfl := hunder.path_eq hfaults hdisk hroot hpath
      rw [ask_of_faultless (hunmoved.faults.trans hfaults), hunmoved.disk] at hask
      cases hask
      obtain ⟨-, -, -, -, -, children, m, hplace⟩ := hroot.follows
      rw [Resolution.stat_place hdisk hplace]
      rfl
    obtain ⟨path, hends⟩ :=
      succeeds_of_returns hr hcontrols (hunmoved.watcher ▸ hrunning) hresolution hprobe (hunder.unfailing hgenuine)
    obtain rfl := hunder.path_eq hfaults hdisk hroot hends.path
    -- the last move begins no capture, so all of them were begun before
    have hcaptures : (own ++ [s]).filterMap firstCapture? = stage.captured?.toList := by
      rw [List.filterMap_append, hunder.firstCapture, List.filterMap_cons_none hends.begins]
      exact List.append_nil _
    cases reply with
    | error f => exact absurd hreply (hends.accepted f)
    | ok answer =>
      have hsettled : stage.path?.toList ++ s.settled?.toList = [⟨.root, place⟩] := by
        rw [hends.path, (nothing_seen hcontrols (by rw [hends.path]; rfl)).1]
        rfl
      obtain ⟨rfl, hattached⟩ := hr.attached hcontrols (hl hms) (hl (hms.move (Move.step ht))) hsettled hreply
      refine ⟨rfl, hattached, hunmoved.trans hends.unmoved, ?_, fun id hid => hends.kept id (htable ▸ hid)⟩
      rw [hcaptures]
      cases hcaptured : stage.captured? with
      | none =>
        obtain ⟨id, hid⟩ := hends.known hcaptured
        rw [htable] at hid
        rw [hid]
        exact (if_neg (Option.some_ne_none id)).symm
      | some path =>
        have hpath : stage.path? = some path := by
          cases stage <;> cases hcaptured <;> rfl
        obtain rfl := hunder.path_eq hfaults hdisk hroot hpath
        exact (if_pos (hunder.unregistered hfaults hcaptured)).symm

end Request

/-! ## Two requests -/

/-- As long as a handle is active, the path that it was given at stands for its registration. -/
theorem Attached.registered {table : Table} (ha : Attached t path observer label h handle) (hedits : Table.Edits t.table table)
    (hl : table.Linked) (hactive : table.isActive h = true) : table.find? path = some handle.registration := by
  obtain ⟨same, hget, hregistration, -⟩ := hedits.remembers h handle ha.get
  rw [Table.isActive, hget] at hactive
  obtain ⟨-, root, hroot, hcurrent⟩ := hl.active hget hactive
  rw [hregistration] at hroot hcurrent
  cases hroot.symm.trans (hedits.rootOf? ha.root)
  exact (Table.find?_eq_some hl.roots_nodup).mpr hcurrent

/-- A handle just attached is active. -/
theorem Attached.isActive (ha : Attached t path observer label h handle) : t.table.isActive h = true := by
  rw [Table.isActive, ha.get]
  exact ha.active

/-- A request to watch a root is answered by its own moves with an active handle at a path, and makes these captures for
it. -/
structure Watched (s₀ u : Session) (root : RootArgument) (observer : Observer) (label : String) (path : Path)
    (captures : List Path) (v : Session) (h : HandleId) (handle : Handle) : Prop where
  reached : ∃ n, v = run n (u.perform (.watch root observer label))
  ended : ∃ inner own, Ended (.watch root observer label) s₀ inner own [] (.ok (.attached path true)) v ∧
    own.filterMap firstCapture? = captures
  attached : Attached v path observer label h handle

/-- A request that is answered has made some moves. -/
theorem Watched.moves {captures : List Path} (hw : Watched s₀ u root observer label path captures v h handle) :
    ∃ ms, Moves s₀ ms v := by
  obtain ⟨inner, own, hended, -⟩ := hw.ended
  obtain ⟨ms, hms, -⟩ := hended.moves
  exact ⟨ms, hms⟩

/-- In a running watcher, without faults and over a valid tree, a root that reaches a directory is watched at the place
of the directory, and captured there if that place has no registration. -/
theorem watched_of_reaches (hl : ∀ {ms s}, Moves s₀ ms s → s.table.Linked)
    (hbegins : Begins s₀ (Request.watch root observer label).action u) (hrunning : s₀.watcher.state = .running)
    (hcallable : observer.isCallable = true) (hfaults : s₀.faults = []) (hdisk : s₀.disk.Valid)
    (hroot : Reaches s₀.disk place root) :
    ∃ v h handle, Watched s₀ u root observer label ⟨.root, place⟩
        (if s₀.table.find? ⟨.root, place⟩ = none then [⟨.root, place⟩] else []) v h handle ∧
      Unmoved s₀ v ∧ ∀ id, s₀.table.find? ⟨.root, place⟩ = some id → handle.registration = id := by
  have hunmoved := hbegins.unmoved
  have honly : u.onlyRefuses = true := by
    rw [onlyRefuses, hunmoved.faults, hfaults]
    rfl
  have hregular : u.disk.Regular := by
    rw [hunmoved.disk]
    exact hdisk.regular
  obtain ⟨inner, ⟨n, own, reply, hended, -⟩ | ⟨⟨p, hp, hplain⟩, -⟩⟩ :=
    Request.completes_or_deepens honly hregular hbegins
  · obtain ⟨rfl, ⟨h, handle, hattached⟩, hsame, hcaptures, hkept⟩ :=
      hended.reached hl hrunning hcallable hfaults hdisk hroot
    obtain ⟨ms, hms, -⟩ := hended.moves
    refine ⟨_, h, handle, ⟨⟨n, rfl⟩, ⟨inner, own, hended, hcaptures⟩, hattached⟩, hsame, fun id hid => ?_⟩
    have hnow := hattached.registered .refl (hl hms) hattached.isActive
    exact Option.some.inj (hnow.symm.trans (hkept id hid))
  · obtain ⟨p', hp', habsolute, hwhole, -⟩ := hroot.follows
    cases hp.symm.trans (rootPath_of_absolute hp' habsolute u)
    exact absurd ⟨habsolute, hwhole⟩ hplain

/-- Aliases of a directory share one registration. In every session with a running watcher that can be reached, over a
valid tree and without faults, a request to watch an absolute root that reaches a directory is answered with a handle at
one path, which is the same for every such root: the names of the directory from the root of the tree. The path is
absolute, with neither `.` nor `..` nor a link in it, and is its own resolution. Only if it has no registration the
directory is captured, once.

However the session goes on, as long as the watcher, the tree and the faults are the same and the handle is active, a
request to watch another root that reaches the directory gets a handle at the same path and the same registration,
without a capture. -/
theorem aliases_share {w : World} (hs : Opens w s) (hbefore : Moves s before s₀)
    (hbegins : Begins s₀ (Request.watch root observer label).action u) (hrunning : s₀.watcher.state = .running)
    (hcallable : observer.isCallable = true) (hfaults : s₀.faults = []) (hdisk : s₀.disk.Valid)
    (hroot : Reaches s₀.disk place root) :
    IsCanonical s₀.disk ⟨.root, place⟩ ∧ ∃ v h handle,
      Watched s₀ u root observer label ⟨.root, place⟩
        (if s₀.table.find? ⟨.root, place⟩ = none then [⟨.root, place⟩] else []) v h handle ∧
      Unmoved s₀ v ∧ ∀ {ms s₁ root' observer' label' u'}, Moves v ms s₁ → Unmoved s₀ s₁ →
      s₁.table.isActive h = true →
        Begins s₁ (Request.watch root' observer' label').action u' → observer'.isCallable = true →
        Reaches s₀.disk place root' →
        ∃ v' h' handle', Watched s₁ u' root' observer' label' ⟨.root, place⟩ [] v' h' handle' ∧ Unmoved s₀ v' ∧
          handle'.registration = handle.registration := by
  have hlinked : ∀ {ms s'}, Moves s ms s' → s'.table.Linked := fun hms => hms.edits.linked hs.linked
  obtain ⟨-, -, -, -, -, children, m, hplace⟩ := hroot.follows
  obtain ⟨v, h, handle, hwatched, hsame, -⟩ :=
    watched_of_reaches (fun hms => hlinked (hbefore.trans hms)) hbegins hrunning hcallable hfaults hdisk hroot
  obtain ⟨first, hfirst⟩ := hwatched.moves
  refine ⟨Resolution.canonical_of_descend hdisk hplace, v, h, handle, hwatched, hsame, ?_⟩
  intro ms s₁ root' observer' label' u' hms hstill hactive hbegins' hcallable' hroot'
  have hreached := (hbefore.trans hfirst).trans hms
  have hregistered : s₁.table.find? ⟨.root, place⟩ = some handle.registration :=
    hwatched.attached.registered hms.edits (hlinked hreached) hactive
  obtain ⟨v', h', handle', hwatched', hsame', hregistration⟩ :=
    watched_of_reaches (fun hms => hlinked (hreached.trans hms)) hbegins' (hstill.watcher ▸ hrunning) hcallable'
      (hstill.faults.trans hfaults) (hstill.disk ▸ hdisk) (hstill.disk ▸ hroot')
  rw [hregistered, if_neg (Option.some_ne_none _)] at hwatched'
  exact ⟨v', h', handle', hwatched', hstill.trans hsame', hregistration _ hregistered⟩

/-- A world in which a directory is reached through links to links, absolute and relative ones. -/
def chained : World where
  disk := {
    root := .directory [("a", .link "b//./c" 1), ("b", .link "/w" 2),
      ("w", .directory [("c", .link "../w/./d/../d/" 3), ("d", .directory [] 4)] 5)] 0
  }

def chainedWatcher : Session :=
  (createRunning chained {}).toOption.getD default

/-- A text and a path lead to the same directory: the first to be watched is captured, and both have one registration. -/
theorem aliases_share_chained : IsCanonical chainedWatcher.disk ⟨.root, ["w", "d"]⟩ ∧ ∃ v h handle v' h' handle',
    Watched chainedWatcher { chainedWatcher with signal := none } (.value (.text "//a/.//")) (.named "a" (.text "a")) "a"
    ⟨.root, ["w", "d"]⟩
      [⟨.root, ["w", "d"]⟩] v h handle ∧
    Watched v { v with signal := none } (.path ⟨.doubled, ["b", "d", "..", "..", "w", "c"]⟩) (.named "b" (.text "b")) "b"
      ⟨.root, ["w", "d"]⟩ [] v' h' handle' ∧
    handle'.registration = handle.registration := by
  have hopens : Opens chained chainedWatcher := Opens.running_of_isSome (by decide +kernel)
  have hrest : chainedWatcher.step.isNone = true := by decide +kernel
  have hrunning : chainedWatcher.watcher.state = .running := by decide +kernel
  have hfaults : chainedWatcher.faults.isEmpty = true := by decide +kernel
  have hdisk : chainedWatcher.disk.root.isValid = true := by decide +kernel
  have hnone : chainedWatcher.table.find? ⟨.root, ["w", "d"]⟩ = none := by decide +kernel
  have hfirst : Reaches chainedWatcher.disk ["w", "d"] (.value (.text "//a/.//")) := Reaches.text (by decide) (by decide +kernel)
  have hsecond : Reaches chainedWatcher.disk ["w", "d"] (.path ⟨.doubled, ["b", "d", "..", "..", "w", "c"]⟩) :=
    Reaches.path rfl (by unfold Whole; decide) (by decide +kernel)
  have hbegins : Begins chainedWatcher (Request.watch (.value (.text "//a/.//")) (.named "a" (.text "a")) "a").action
      { chainedWatcher with signal := none } := Begins.outside (Option.isNone_iff_eq_none.mp hrest)
  obtain ⟨hcanonical, v, h, handle, hwatched, hsame, hlater⟩ :=
    aliases_share hopens Moves.refl hbegins hrunning rfl (List.isEmpty_iff.mp hfaults) (Disk.valid_of_isValid hdisk) hfirst
  rw [if_pos hnone] at hwatched
  obtain ⟨inner, own, hended, -⟩ := hwatched.ended
  obtain rfl := hended.inner_nil hopens.fresh.stack
  have hidle : v.step = none := by
    rw [step, hended.stack_nil]
  have hbegins' :
    Begins v (Request.watch (.path ⟨.doubled, ["b", "d", "..", "..", "w", "c"]⟩) (.named "b" (.text "b")) "b").action
      { v with signal := none } := Begins.outside hidle
  obtain ⟨v', h', handle', hwatched', -, hregistration⟩ :=
    hlater Moves.refl hsame hwatched.attached.isActive hbegins' rfl hsecond
  exact ⟨hcanonical, v, h, handle, v', h', handle', hwatched, hwatched', hregistration⟩

end DirWatch.Session
