import DirWatch.Proofs.Capture.Soundness
import DirWatch.Proofs.Comparison.Kept
import DirWatch.Proofs.Disk.Names
import DirWatch.Proofs.Session.Frames
import DirWatch.Proofs.Session.Runs
import DirWatch.Proofs.Table.Baselines
import Mathlib.Data.List.Chain

/-!
# What polls rely on

A poll compares a capture of its root with the baseline of its registration, and puts the next baseline in place when
its deliveries have ended. Much can happen in between, but nothing that the poll relies on changes: `Faithful` says what
that is. A capture stands directly above the frame that waits for it, and is one of the root that this frame asks for;
the report that is being delivered compares with the baseline that is still in place; and no two polls of one
registration are past their entry. `Faithful.turn` says that every turn keeps all of this.
-/

namespace DirWatch.Session

open Table (Keeps)

/-- The actions that put only objects into the tree whose names are single components. -/
def PutsNames : Action → Prop
  | .put path node => Path.IsName (Disk.splitName path).2 ∧ node.Named
  | _ => True

/-- The frame waits for no capture, or for one of this root. -/
def Awaits (table : Table) (root : Path) : Frame → Prop
  | .attaching other _ _ _ => other = root
  | .polling id _ _ .capturing => table.rootOf? id = some root
  | _ => True

/-- A capture stands above a frame that waits for it. -/
def Above (table : Table) : Frame → Frame → Prop
  | .capturing c _, lower => Awaits table c.root lower
  | _, _ => True

/-- What a frame holds is still true: a capture has seen proper names, and a report compares with the current baseline. -/
def Fits (table : Table) : Frame → Prop
  | .capturing c _ => c.Sound
  | .polling id _ _ (.delivering _ _ report) => ∃ r captured, table.bare? id = some r ∧
      Snapshot.Comparable (some r.baseline) captured ∧ report = Snapshot.diff (some r.baseline) captured
  | _ => True

/-- The frame is a poll of this registration that is past its entry. -/
def Active (id : RegistrationId) : Frame → Bool
  | .polling _ _ _ .entering => false
  | .polling other _ _ _ => other == id
  | _ => false

/-- Neither a capture nor a poll past its entry. -/
def Inert : Frame → Prop
  | .capturing .. => False
  | .polling _ _ _ .entering => True
  | .polling .. => False
  | _ => True

/-- What the polls of a session rely on. -/
structure Faithful (s : Session) : Prop where
  disk : s.disk.Named
  based : s.table.Based
  fits : ∀ f ∈ s.frames, Fits s.table f
  /-- A poll of a job belongs to a job that was submitted. -/
  jobs : ∀ f ∈ s.frames, ∀ job, jobOf? f = some job → job < s.scheduler.pool.jobs.size
  stack : s.stack.IsChain (Above s.table)
  /-- What is parked ends with the poll of a job. -/
  parked : ∀ fs ∈ s.parked, fs.IsChain (Above s.table) ∧ ∃ first f, fs = first ++ [f] ∧ (jobOf? f).isSome
  /-- Polls of one registration exclude each other. -/
  alone : ∀ id, s.frames.countP (Active id) ≤ (s.table.isPolling id).toNat

variable {cause : Option Action} {s t u : Session} {signal : Option Signal} {table table' : Table} {state : WatcherState}
  {fs : List Frame}

/-! ## Tables that keep roots and baselines -/

/-- A frame waits for the same root as long as registrations keep theirs. -/
theorem Awaits.keep (hroots : ∀ id root, table.rootOf? id = some root → table'.rootOf? id = some root) {root : Path}
    {f : Frame} (h : Awaits table root f) : Awaits table' root f := by
  unfold Awaits at h ⊢
  split at h
  · exact h
  · exact hroots _ _ h
  · trivial

/-- So a capture still stands above a frame that waits for it. -/
theorem Above.keep (hroots : ∀ id root, table.rootOf? id = some root → table'.rootOf? id = some root) {f g : Frame}
    (h : Above table f g) : Above table' f g := by
  unfold Above at h ⊢
  split at h
  · exact h.keep hroots
  · trivial

/-- A report still compares with the baseline in place if baselines are kept. -/
theorem Fits.keep (hkeeps : Keeps table table') {f : Frame} (h : Fits table f) : Fits table' f := by
  unfold Fits at h ⊢
  split at h
  · exact h
  · obtain ⟨r, captured, hr, hcomparable, hreport⟩ := h
    obtain ⟨r', hr', -, hbaseline⟩ := hkeeps _ _ hr
    exact ⟨r', captured, hr', hbaseline ▸ hcomparable, hbaseline ▸ hreport⟩
  · trivial

/-- Whether a registration is polled is among what polls read. -/
theorem isPolling_congr (h : ∀ id, table'.bare? id = table.bare? id) (id : RegistrationId) :
    table'.isPolling id = table.isPolling id := by
  rw [Table.isPolling, h, Table.isPolling]

/-! ## Inert frames -/

/-- A passive frame neither captures nor polls. -/
theorem Passive.inert {f : Frame} (h : Passive f) : Inert f := by
  cases f with
  | capturing _ _ => exact h
  | polling _ _ _ _ => exact h.elim
  | _ => trivial

theorem Passive.jobOf? {f : Frame} (h : Passive f) : jobOf? f = none := by
  cases f with
  | polling _ _ _ _ => exact h.elim
  | _ => rfl

/-- Whose poll it is does not depend on how far it has come. -/
theorem jobOf?_polling (id : RegistrationId) {owner : PollOwner} (gate : Gate) (stage : PollStage) (gate' : Gate)
    (stage' : PollStage) : jobOf? (.polling id owner gate stage) = jobOf? (.polling id owner gate' stage') := by
  cases owner <;> rfl

/-- An inert frame is no capture, so any frame may be below it. -/
theorem Inert.above {f : Frame} (h : Inert f) (table : Table) (lower : Frame) : Above table f lower := by
  cases f with
  | capturing _ _ => exact h.elim
  | _ => trivial

/-- It holds nothing that could become false. -/
theorem Inert.fits {f : Frame} (h : Inert f) (table : Table) : Fits table f := by
  cases f with
  | capturing _ _ => exact h.elim
  | polling _ _ _ stage =>
    cases stage with
    | delivering _ _ _ => exact h.elim
    | _ => trivial
  | _ => trivial

/-- It is no poll past its entry. -/
theorem Inert.inactive {f : Frame} (h : Inert f) (id : RegistrationId) : Active id f = false := by
  cases f with
  | polling _ _ _ stage =>
    cases stage with
    | entering => rfl
    | capturing => exact h.elim
    | delivering _ _ _ => exact h.elim
  | _ => rfl

/-- The poll of a job is no capture. -/
theorem above_of_job {f : Frame} (h : (jobOf? f).isSome) (table : Table) (lower : Frame) : Above table f lower := by
  cases f with
  | capturing _ _ => cases h
  | _ => trivial

/-! ## Parts of a step -/

/-- What a part of a step does, as far as the polls are concerned, is to change the table and to put frames on the stack. -/
theorem Leads.faithful (h : Leads s t table state fs) (hf : Faithful { s with table, stack := fs ++ s.stack }) :
    Faithful t := by
  have hframes : t.frames = { s with table, stack := fs ++ s.stack }.frames :=
    h.frames.trans (List.append_assoc fs s.stack s.parked.flatten).symm
  refine ⟨h.disk ▸ hf.disk, h.table ▸ hf.based, ?_, ?_, ?_, ?_, ?_⟩
  · rw [hframes, h.table]
    exact hf.fits
  · intro f hmem job hjob
    rw [hframes] at hmem
    exact Nat.lt_of_lt_of_le (hf.jobs f hmem job hjob) h.jobs
  · rw [h.table, h.stack]
    exact hf.stack
  · rw [h.table, h.parked]
    exact hf.parked
  · rw [hframes, h.table]
    exact hf.alone

/-- Nothing else of a session matters to its polls. -/
theorem Faithful.congr (hf : Faithful s) (hdisk : t.disk = s.disk) (htable : t.table = s.table)
    (hpool : t.scheduler.pool = s.scheduler.pool) (hstack : t.stack = s.stack) (hparked : t.parked = s.parked) :
    Faithful t := by
  have hframes : t.frames = s.frames := by rw [frames, frames, hstack, hparked]
  refine ⟨hdisk ▸ hf.disk, htable ▸ hf.based, ?_, ?_, ?_, ?_, ?_⟩
  · rw [hframes, htable]
    exact hf.fits
  · rw [hframes, hpool]
    exact hf.jobs
  · rw [hstack, htable]
    exact hf.stack
  · rw [hparked, htable]
    exact hf.parked
  · rw [hframes, htable]
    exact hf.alone

/-- The table may change, if it keeps what the polls have read. -/
theorem Faithful.setTable (hf : Faithful s) (hkeeps : Keeps s.table table) (hbased : table.Based)
    (halone : ∀ id, s.frames.countP (Active id) ≤ (table.isPolling id).toNat) : Faithful { s with table } where
  disk := hf.disk
  based := hbased
  fits := fun f hmem => (hf.fits f hmem).keep hkeeps
  jobs := hf.jobs
  stack := hf.stack.imp fun _ _ h => h.keep fun _ _ => hkeeps.rootOf?
  parked := fun fs hmem => (hf.parked fs hmem).imp_left fun hchain => hchain.imp fun _ _ h => h.keep fun _ _ => hkeeps.rootOf?
  alone := halone

/-- Observers may come and go. -/
theorem Faithful.observers (hf : Faithful s) (hbare : ∀ id, table.bare? id = s.table.bare? id) :
    Faithful { s with table } := by
  refine hf.setTable (Keeps.of_eq hbare) (hf.based.of_eq hbare) ?_
  intro id
  rw [isPolling_congr hbare]
  exact hf.alone id

/-- A root may come with a well-formed snapshot of it. -/
theorem Faithful.register (hf : Faithful s) {root : Path} {baseline : Snapshot} (hwf : baseline.WellFormed)
    (hroot : baseline.root = root) : Faithful { s with table := (s.table.register root baseline).1 } := by
  refine hf.setTable (Table.keeps_register _ root baseline) (hf.based.register hwf hroot) ?_
  intro id
  rw [Table.isPolling_register]
  exact hf.alone id

/-- A frame comes on top of the stack. -/
theorem Faithful.push (hf : Faithful s) {f : Frame} (hfits : Fits s.table f)
    (hjob : ∀ job, jobOf? f = some job → job < s.scheduler.pool.jobs.size)
    (habove : ∀ lower ∈ s.stack.head?, Above s.table f lower)
    (halone : ∀ id, Active id f = true → s.frames.countP (Active id) < (s.table.isPolling id).toNat) :
    Faithful (s.push f) where
  disk := hf.disk
  based := hf.based
  fits := List.forall_mem_cons.mpr ⟨hfits, hf.fits⟩
  jobs := List.forall_mem_cons.mpr ⟨hjob, hf.jobs⟩
  stack := List.isChain_cons.mpr ⟨habove, hf.stack⟩
  parked := hf.parked
  alone := by
    intro id
    change (f :: s.frames).countP (Active id) ≤ _
    rw [List.countP_cons]
    split
    · rename_i hactive
      exact halone id hactive
    · exact hf.alone id

/-- An inert frame may come on top, if its job has been submitted. -/
theorem Faithful.pushInert (hf : Faithful s) {f : Frame} (h : Inert f)
    (hjob : ∀ job, jobOf? f = some job → job < s.scheduler.pool.jobs.size) : Faithful (s.push f) := by
  refine hf.push (h.fits _) hjob (fun lower _ => h.above _ lower) ?_
  intro id hactive
  rw [h.inactive id] at hactive
  cases hactive

/-- A passive frame may come on top. -/
theorem Faithful.pushPassive (hf : Faithful s) {f : Frame} (h : Passive f) : Faithful (s.push f) := by
  refine hf.pushInert h.inert ?_
  intro job hjob
  rw [h.jobOf?] at hjob
  cases hjob

/-- So may several. -/
theorem Faithful.pushAll (hf : Faithful s) (hfs : ∀ f ∈ fs, Passive f) : Faithful { s with stack := fs ++ s.stack } := by
  induction fs with
  | nil => exact hf
  | cons f fs ih =>
    have hrest := ih fun g hg => hfs g (List.mem_cons_of_mem _ hg)
    exact hrest.pushPassive (hfs f List.mem_cons_self)

/-- A capture begins for the frame below it. -/
theorem Faithful.pushCapture (hf : Faithful s) {c : Capture} (hc : c.Sound)
    (habove : ∀ lower ∈ s.stack.head?, Awaits s.table c.root lower) (ready : Bool) :
    Faithful (s.push (.capturing c ready)) :=
  hf.push hc (fun _ hjob => nomatch hjob) habove (fun _ hactive => nomatch hactive)

/-- The frame on top stands well above what is below it. -/
theorem Faithful.above_top {frame : Frame} {below : List Frame} (hf : Faithful s) (hstack : s.stack = frame :: below) :
    (∀ lower ∈ below.head?, Above s.table frame lower) ∧ below.IsChain (Above s.table) := by
  have hchain := hf.stack
  rwa [hstack, List.isChain_cons] at hchain

/-- The top frame goes. -/
theorem Faithful.popped {frame : Frame} {below : List Frame} (hf : Faithful s) (hstack : s.stack = frame :: below) :
    Faithful (s.popped below) where
  disk := hf.disk
  based := hf.based
  fits := fun f hmem => hf.fits f (mem_frames_of_popped hstack hmem)
  jobs := fun f hmem => hf.jobs f (mem_frames_of_popped hstack hmem)
  stack := (hf.above_top hstack).2
  parked := hf.parked
  alone := by
    intro id
    have halone := hf.alone id
    rw [frames_popped hstack, List.countP_cons] at halone
    exact Nat.le_of_add_right_le halone

/-- Another frame takes the place of the top frame. A poll past its entry takes the place of such a poll only. -/
theorem Faithful.replace {frame f : Frame} {below : List Frame} (hf : Faithful s) (hstack : s.stack = frame :: below)
    (hfits : Fits s.table f) (hjob : jobOf? f = jobOf? frame)
    (habove : ∀ lower ∈ below.head?, Above s.table f lower)
    (hactive : ∀ id, Active id f = true → Active id frame = true) :
    Faithful ((s.popped below).push f) := by
  refine (hf.popped hstack).push hfits ?_ habove ?_
  · intro job h
    exact hf.jobs frame (top_mem_frames hstack) job (hjob ▸ h)
  · intro id h
    have halone := hf.alone id
    rw [frames_popped hstack, List.countP_cons_of_pos (hactive id h)] at halone
    exact halone

/-- Parking moves the frames down to the poll of a job, and they stay above one another. -/
theorem Faithful.park (hf : Faithful s) (h : s.park = some t) : Faithful t := by
  have hframes := park_frames h
  obtain ⟨above, below, hstack, hlast, rfl⟩ := park_eq h
  have hchain := hf.stack
  rw [hstack] at hchain
  refine ⟨hf.disk, hf.based, ?_, ?_, hchain.right_of_append, ?_, ?_⟩
  · exact fun f hmem => hf.fits f (hframes.mem_iff.mp hmem)
  · exact fun f hmem => hf.jobs f (hframes.mem_iff.mp hmem)
  · intro fs hmem
    rcases List.mem_append.mp hmem with hmem | hmem
    · exact hf.parked fs hmem
    · rw [List.mem_singleton.mp hmem]
      exact ⟨hchain.left_of_append, hlast⟩
  · intro id
    rw [hframes.countP_eq]
    exact hf.alone id

/-- They come back on top of frames that wait for no capture. -/
theorem Faithful.unpark? (hf : Faithful s) (h : s.unpark? = some t) : Faithful t := by
  have hframes := unpark?_frames h
  obtain ⟨above, rest, hparked, rfl⟩ := unpark?_eq h
  obtain ⟨hchain, first, f, hlast, hjob⟩ := hf.parked above (by rw [hparked]; exact List.mem_cons_self)
  refine ⟨hf.disk, hf.based, ?_, ?_, ?_, ?_, ?_⟩
  · exact fun f hmem => hf.fits f (hframes.mem_iff.mp hmem)
  · exact fun f hmem => hf.jobs f (hframes.mem_iff.mp hmem)
  · refine hchain.append hf.stack ?_
    intro g hg lower _
    rw [hlast, List.getLast?_concat] at hg
    cases hg
    exact above_of_job hjob _ lower
  · exact fun fs hmem => hf.parked fs (by rw [hparked]; exact List.mem_cons_of_mem _ hmem)
  · intro id
    rw [hframes.countP_eq]
    exact hf.alone id

/-! ## Actions -/

/-- Polls do not see who is cancelled. -/
theorem bare?_cancelEach (table : Table) (hs : List HandleId) (id : RegistrationId) :
    (cancelEach table hs).bare? id = table.bare? id := by
  unfold cancelEach
  induction hs generalizing table with
  | nil => rfl
  | cons h hs ih => exact (ih _).trans (Table.bare?_cancel table h id)

/-- A tree with proper names keeps them, as long as only such are put into it. -/
theorem Rewrites.named {action : Action} {d d' : Disk} (h : Rewrites action d d') (ha : PutsNames action) (hd : d.Named) :
    d'.Named := by
  unfold Rewrites at h
  split at h
  · exact hd.put ha.1 ha.2 h
  · exact hd.remove h
  · exact hd.touch h
  · rw [h]
    exact hd
  · exact h.elim

/-- No action changes anything that the polls rely on, unless it puts other names into the tree. -/
theorem Faithful.effect (hf : Faithful s) (he : Effect cause s t)
    (hcause : ∀ action, cause = some action → PutsNames action) : Faithful t := by
  cases he with
  | quiet h hfs => exact h.faithful (hf.pushAll hfs)
  | starts h _ => exact h.faithful hf
  | cancels hs h => exact h.faithful (hf.observers (bare?_cancelEach _ hs))
  | joins _ h _ => exact h.faithful (hf.observers (Table.bare?_join _ _ _))
  | revokes _ h =>
    refine h.faithful (hf.observers fun id => ?_)
    exact (Table.bare?_cancel _ _ id).trans (Table.bare?_join _ _ _ id)
  | @attaches _ root observer label purpose _ _ h _ =>
    have hattaching : Faithful (s.push (.attaching root observer label purpose)) :=
      hf.pushInert trivial (fun _ hjob => nomatch hjob)
    refine h.faithful (hattaching.pushCapture (Capture.sound_start _ _ _) ?_ false)
    rintro lower ⟨⟩
    rfl
  | reports h =>
    have hreporting : Faithful (s.push .reporting) := hf.pushPassive trivial
    refine h.faithful (hreporting.pushCapture (Capture.sound_start _ _ _) ?_ false)
    rintro lower ⟨⟩
    trivial
  | clears h => exact h.faithful (hf.observers (Table.bare?_clear _))
  | polls h => exact h.faithful (hf.pushInert trivial (fun _ hjob => nomatch hjob))
  | closes h _ => exact h.faithful (hf.pushInert trivial (fun _ hjob => nomatch hjob))
  | closed h => exact h.faithful (hf.observers (Table.bare?_clear _))
  | closedUncleared h _ => exact h.faithful hf
  | unparks h ht => exact (h.faithful (hf.pushPassive trivial)).unpark? ht
  | rewrites heq hu h =>
    have hfu := hu.faithful hf
    exact ⟨h.named (hcause _ heq) hf.disk, hfu.based, hfu.fits, hfu.jobs, hfu.stack, hfu.parked, hfu.alone⟩
  | disables _ hu => exact (hu.faithful hf).congr rfl rfl rfl rfl rfl

/-! ## Captures that are handed over -/

/-- A capture that has just ended well is a well-formed snapshot of the root that the frame on top asks for. -/
def Handed (s : Session) : Prop :=
  ∀ snapshot, s.signal = some (.captured (.ok snapshot)) →
    snapshot.WellFormed ∧ ∀ f ∈ s.stack.head?, Awaits s.table snapshot.root f

/-- No action hands over a capture. -/
theorem Effect.captured (he : Effect cause s t) {r : Except Failure Snapshot} (hr : t.signal = some (.captured r)) :
    s.signal = some (.captured r) := by
  cases he with
  | quiet h _ => exact h.captured r hr
  | starts h _ => exact h.captured r hr
  | cancels _ h => exact h.captured r hr
  | joins _ h _ => exact h.captured r hr
  | revokes _ h => exact h.captured r hr
  | attaches h _ => exact h.captured r hr
  | reports h => exact h.captured r hr
  | clears h => exact h.captured r hr
  | polls h => exact h.captured r hr
  | closes h _ => exact h.captured r hr
  | closed h => exact h.captured r hr
  | closedUncleared h _ => exact h.captured r hr
  | unparks h ht =>
    obtain ⟨above, rest, -, rfl⟩ := unpark?_eq ht
    exact h.captured r hr
  | rewrites _ _ _ => cases hr
  | disables _ _ => cases hr

/-- Only a capture hands over a capture, and it does so when it has ended. -/
theorem Turn.captured {frame : Frame} (hturn : Turn cause s frame signal t) (hnone : s.signal = none)
    {r : Except Failure Snapshot} (hr : t.signal = some (.captured r)) :
    ∃ c ready outcome, frame = .capturing c ready ∧ c.next = .stop outcome ∧
      r = outcome.mapError Failure.ofCapture ∧ t = s.leave (.captured r) := by
  have hnot : s.signal ≠ some (.captured r) := by
    rw [hnone]
    exact fun h => nomatch h
  cases hturn with
  | acts _ h _ he => exact absurd (h.captured r (he.captured hr)) hnot
  | startsJob _ h _ => exact absurd (h.captured r hr) hnot
  | stays h => exact absurd (h.captured r hr) hnot
  | unparks h ht =>
    obtain ⟨above, rest, -, rfl⟩ := unpark?_eq ht
    exact absurd (h.captured r hr) hnot
  | clears h => exact absurd (h.captured r hr) hnot
  | uncleared h _ => exact absurd (h.captured r hr) hnot
  | parks hu ht =>
    obtain ⟨above, below, -, -, rfl⟩ := park_eq ht
    exact absurd (hu.captured r hr) hnot
  | asks _ _ h => exact absurd (h.captured r hr) hnot
  | waits h => exact absurd (h.captured r hr) hnot
  | hands hnext =>
    cases hr
    exact ⟨_, _, _, rfl, hnext, rfl, rfl⟩
  | attaches he _ => exact absurd (he.captured hr) hnot
  | registers _ h _ => exact absurd (h.captured r hr) hnot
  | revokes _ h => exact absurd (h.captured r hr) hnot
  | enters _ _ h => exact absurd (h.captured r hr) hnot
  | compares _ h => exact absurd (h.captured r hr) hnot
  | passes h => exact absurd (h.captured r hr) hnot
  | calls _ _ hu => exact absurd (hu.captured r hr) hnot
  | ends _ _ hu => exact absurd (hu.captured r ((endPoll_leads _ _ _ _).captured r hr)) hnot

/-- What is handed over comes from the capture that stood on top. -/
theorem Faithful.handed {frame : Frame} {below : List Frame} (hf : Faithful s) (hstack : s.stack = frame :: below)
    (hturn : Turn cause (s.popped below) frame signal t) : Handed t := by
  intro snapshot hsignal
  obtain ⟨c, ready, outcome, rfl, hnext, hr, rfl⟩ := hturn.captured rfl hsignal
  cases outcome with
  | error e => cases hr
  | ok snapshot' =>
    cases hr
    have hsound : c.Sound := hf.fits (.capturing c ready) (top_mem_frames hstack)
    obtain ⟨hwf, hroot⟩ := hsound.stop hnext
    refine ⟨hwf, fun f hmem => ?_⟩
    rw [hroot]
    exact (hf.above_top hstack).1 f hmem

/-! ## Reports -/

/-- A capture of the root of a registration can be compared with its baseline. -/
theorem Faithful.comparable (hf : Faithful s) {id : RegistrationId} {r : Registration} (hr : s.table.bare? id = some r)
    {captured : Snapshot} (hwf : captured.WellFormed) (hroot : s.table.rootOf? id = some captured.root) :
    Snapshot.Comparable (some r.baseline) captured := by
  obtain ⟨hbaseline, hsame⟩ := hf.based id r hr
  rw [Table.rootOf?_of_bare hr, Option.some_inj] at hroot
  refine ⟨?_, hwf⟩
  rintro old ⟨⟩
  exact ⟨hbaseline, hsame.trans hroot⟩

/-- A poll that ends with a report has compared a capture with the baseline that is in place. -/
theorem Faithful.report {below : List Frame} (hf : Faithful s) (hhanded : Handed s) {id : RegistrationId} {owner : PollOwner}
    {gate : Gate} {stage : PollStage} (hstack : s.stack = .polling id owner gate stage :: below) {r : Registration}
    (hr : s.table.registrations[id]? = some r) (hsignal : s.signal = signal) {report : Change.Report}
    (ho : PollOutcome r stage signal (.ok report)) :
    ∃ captured, Snapshot.Comparable (some r.baseline) captured ∧ report = Snapshot.diff (some r.baseline) captured := by
  have hbare := Table.bare?_of_get hr
  cases ho with
  | compared captured =>
    obtain ⟨hwf, hawaits⟩ := hhanded captured hsignal
    refine ⟨captured, hf.comparable hbare hwf ?_, rfl⟩
    exact hawaits (.polling id owner gate .capturing) (by rw [hstack]; rfl)
  | delivered current waiting report signal =>
    obtain ⟨r', captured, hr', hcomparable, hreport⟩ :=
      hf.fits (.polling id owner gate (.delivering current waiting report)) (top_mem_frames hstack)
    rw [hbare] at hr'
    cases hr'
    exact ⟨captured, hcomparable, hreport⟩

/-! ## Turns -/

/-- A poll past its entry counts. -/
theorem active_of_stage {id : RegistrationId} {owner : PollOwner} {gate : Gate} {stage : PollStage} (h : stage ≠ .entering) :
    Active id (.polling id owner gate stage) = true := by
  cases stage with
  | entering => exact absurd rfl h
  | capturing => exact beq_self_eq_true id
  | delivering _ _ _ => exact beq_self_eq_true id

/-- No poll ends at its entry. -/
theorem PollOutcome.stage {r : Registration} {stage : PollStage} {outcome : Except Failure Change.Report}
    (h : PollOutcome r stage signal outcome) : stage ≠ .entering := by
  cases h with
  | compared _ => exact fun h => nomatch h
  | delivered _ _ _ _ => exact fun h => nomatch h
  | failed _ _ _ hstage => exact hstage

/-- A poll past its entry goes on. -/
theorem Faithful.pollOn {below : List Frame} (hf : Faithful s) {id : RegistrationId} {owner : PollOwner} {gate gate' : Gate}
    {stage stage' : PollStage} (hstack : s.stack = .polling id owner gate stage :: below) (hstage : stage ≠ .entering)
    (hfits : Fits s.table (.polling id owner gate' stage')) :
    Faithful ((s.popped below).push (.polling id owner gate' stage')) := by
  refine hf.replace hstack hfits (jobOf?_polling id gate' stage' gate stage) (fun _ _ => trivial) ?_
  intro k hk
  cases stage' with
  | entering => cases hk
  | _ =>
    cases eq_of_beq hk
    exact active_of_stage hstage

/-- When a poll past its entry goes, no other poll of its registration is past its entry. -/
theorem Faithful.alone_popped {frame : Frame} {below : List Frame} (hf : Faithful s) (hstack : s.stack = frame :: below)
    {id : RegistrationId} (hactive : Active id frame = true) : (s.popped below).frames.countP (Active id) = 0 := by
  have halone := hf.alone id
  rw [frames_popped hstack, List.countP_cons_of_pos hactive] at halone
  have hle := Bool.toNat_le (s.table.isPolling id)
  omega

/-- A poll enters when no other poll of its registration is past its entry. -/
theorem Faithful.enter (hf : Faithful s) {id : RegistrationId} {r : Registration}
    (hr : s.table.registrations[id]? = some r) (hfree : r.polling = false) :
    Faithful { s with table := s.table.setPolling id true } ∧ s.frames.countP (Active id) = 0 := by
  have hbare := Table.bare?_of_get hr
  have hidle : s.table.isPolling id = false := by
    rw [Table.isPolling, hbare]
    exact hfree
  have hnone : s.frames.countP (Active id) = 0 := by
    have halone := hf.alone id
    rw [hidle] at halone
    exact Nat.le_zero.mp halone
  refine ⟨hf.setTable (Table.keeps_setPolling _ id true) (hf.based.setPolling id true) ?_, hnone⟩
  intro k
  by_cases hk : id = k
  · subst hk
    rw [hnone]
    exact Nat.zero_le _
  · rw [Table.isPolling_setPolling_ne hk]
    exact hf.alone k

/-- The last poll of a registration past its entry leaves. -/
theorem Faithful.leave (hf : Faithful s) {id : RegistrationId} (hnone : s.frames.countP (Active id) = 0) :
    Faithful { s with table := s.table.setPolling id false } := by
  refine hf.setTable (Table.keeps_setPolling _ id false) (hf.based.setPolling id false) ?_
  intro k
  by_cases hk : id = k
  · subst hk
    rw [hnone]
    exact Nat.zero_le _
  · rw [Table.isPolling_setPolling_ne hk]
    exact hf.alone k

/-- A baseline may be replaced when no poll of its registration is past its entry. -/
theorem Faithful.setBaseline (hf : Faithful s) {id : RegistrationId} {baseline : Snapshot}
    (hnone : s.frames.countP (Active id) = 0)
    (hnew : ∀ r, s.table.bare? id = some r → baseline.WellFormed ∧ baseline.root = r.root) :
    Faithful { s with table := s.table.setBaseline id baseline } where
  disk := hf.disk
  based := hf.based.setBaseline hnew
  fits := by
    intro f hmem
    have hfits := hf.fits f hmem
    unfold Fits at hfits ⊢
    split at hfits
    · exact hfits
    · rename_i k owner gate current waiting report
      -- the report of another registration compares with another baseline
      have hne : id ≠ k := by
        rintro rfl
        exact List.countP_eq_zero.mp hnone _ hmem (active_of_stage fun h => nomatch h)
      obtain ⟨r, captured, hr, hrest⟩ := hfits
      exact ⟨r, captured, by rw [Table.bare?_setBaseline, if_neg hne, hr], hrest⟩
    · trivial
  jobs := hf.jobs
  stack := hf.stack.imp fun _ _ h => h.keep fun k root hroot => (Table.rootOf?_setBaseline id baseline k).trans hroot
  parked := fun fs hmem => (hf.parked fs hmem).imp_left fun hchain => hchain.imp fun _ _ h =>
    h.keep fun k root hroot => (Table.rootOf?_setBaseline id baseline k).trans hroot
  alone := by
    intro k
    rw [Table.isPolling_setBaseline]
    exact hf.alone k

/-- The end of a poll puts a baseline in place that fits, or leaves the one that is there. -/
theorem Faithful.endTable (hf : Faithful s) {id : RegistrationId} {outcome : Except Failure Change.Report}
    (hnone : s.frames.countP (Active id) = 0) (hnew : ∀ report, outcome = .ok report → ∀ r, s.table.bare? id = some r →
      report.baseline.WellFormed ∧ report.baseline.root = r.root) :
    Faithful { s with table := endTable s.table id outcome } := by
  have hleave := hf.leave hnone
  cases outcome with
  | error f => exact hleave
  | ok report =>
    refine hleave.setBaseline hnone ?_
    intro r hr
    change (s.table.setPolling id false).bare? id = some r at hr
    rw [Table.bare?_setPolling, if_pos rfl] at hr
    obtain ⟨r', hr', rfl⟩ := Option.map_eq_some_iff.mp hr
    exact hnew report rfl r' hr'

/-- No turn changes anything that the polls rely on. -/
theorem Faithful.turn {frame : Frame} {below : List Frame} (hf : Faithful s) (hhanded : Handed s)
    (hstack : s.stack = frame :: below) (hsignal : s.signal = signal) (hturn : Turn cause (s.popped below) frame signal t)
    (hcause : ∀ action, cause = some action → PutsNames action) : Faithful t := by
  have hpopped := hf.popped hstack
  have hnojob : ∀ job, none = some job → job < s.scheduler.pool.jobs.size := fun _ hjob => nomatch hjob
  cases hturn with
  | acts _ h hfs he => exact (h.faithful (hpopped.pushAll hfs)).effect he hcause
  | @startsJob _ _ t id registration hid h hframe =>
    have hback : Faithful ((s.popped below).push frame) := by
      rcases hframe with hpassive | ⟨owner, rfl⟩
      · exact hpopped.pushPassive hpassive
      · exact hpopped.pushInert trivial hnojob
    refine h.faithful (hback.pushInert (f := .polling registration (.job id) .scheduler .entering) trivial ?_)
    rintro job ⟨⟩
    exact hid
  | stays h => exact h.faithful (hpopped.pushInert trivial hnojob)
  | unparks h ht => exact (h.faithful (hpopped.pushInert trivial hnojob)).unpark? ht
  | clears h => exact h.faithful (hpopped.observers (Table.bare?_clear _))
  | uncleared h _ => exact h.faithful hpopped
  | parks hu ht => exact (hu.faithful (hpopped.pushPassive trivial)).park ht
  | @asks c ready _ t call resume r hnext hr h =>
    -- an answer of the tree has proper names, and so has a refusal, so the capture stays sound
    have hsound : c.Sound := hf.fits (.capturing c ready) (top_mem_frames hstack)
    have hanswered : Capture.Answered call r := by
      rcases hr with rfl | ⟨e, rfl⟩
      · exact Capture.answered_of_named hf.disk call
      · exact Capture.answered_error call e
    obtain ⟨hsound', hroot⟩ := hsound.resume hnext hanswered
    refine h.faithful (hpopped.pushCapture hsound' ?_ false)
    rw [hroot]
    exact (hf.above_top hstack).1
  | @waits c ready _ t steps h =>
    have hsound : c.Sound := hf.fits (.capturing c ready) (top_mem_frames hstack)
    have hback : Faithful ((s.popped below).push (.capturing c true)) :=
      hpopped.pushCapture hsound (hf.above_top hstack).1 true
    exact h.faithful (hback.pushPassive (f := .script steps none) trivial)
  | hands _ => exact hpopped.congr rfl rfl rfl rfl rfl
  | attaches he hcause' =>
    refine hpopped.effect he ?_
    rintro action heq
    rcases hcause' with hnone | ⟨-, root, observer, label, hattach⟩
    · rw [hnone] at heq
      cases heq
    · rw [hattach] at heq
      cases heq
      trivial
  | @registers root observer label purpose baseline t _ h _ =>
    -- the capture handed over is one of this root, so the new registration has a baseline of its own
    obtain ⟨hwf, hawaits⟩ := hhanded baseline hsignal
    have hroot : root = baseline.root := hawaits (.attaching root observer label purpose) (by rw [hstack]; rfl)
    exact h.faithful ((hpopped.register hwf hroot.symm).observers (Table.bare?_join _ _ _))
  | @revokes root observer label purpose baseline t _ h =>
    obtain ⟨hwf, hawaits⟩ := hhanded baseline hsignal
    have hroot : root = baseline.root := hawaits (.attaching root observer label purpose) (by rw [hstack]; rfl)
    refine h.faithful ((hpopped.register hwf hroot.symm).observers fun id => ?_)
    exact (Table.bare?_cancel _ _ id).trans (Table.bare?_join _ _ _ id)
  | @enters id owner gate _ t r patterns capturedAt hr hfree h =>
    -- the table says that nobody polls the registration, so this is the only poll past its entry
    obtain ⟨henter, hnone⟩ := hpopped.enter hr hfree
    have hbare := Table.bare?_of_get hr
    have hpolling := henter.push (f := .polling id owner gate .capturing) trivial ?_ (fun _ _ => trivial) ?_
    · refine h.faithful (hpolling.pushCapture (Capture.sound_start r.root patterns capturedAt) ?_ false)
      rintro lower ⟨⟩
      have hroot := Table.rootOf?_of_bare hbare
      exact (Table.keeps_setPolling _ id true).rootOf? hroot
    · intro job hjob
      rw [jobOf?_polling id gate _ gate .entering] at hjob
      exact hf.jobs (.polling id owner gate .entering) (top_mem_frames hstack) job hjob
    · intro k hk
      cases eq_of_beq hk
      rw [Table.isPolling_setPolling hbare]
      exact Nat.lt_of_le_of_lt (Nat.le_of_eq hnone) Nat.one_pos
  | @compares id owner gate captured t r hr h =>
    obtain ⟨hwf, hawaits⟩ := hhanded captured hsignal
    have hroot := hawaits (.polling id owner gate .capturing) (by rw [hstack]; rfl)
    have hbare := Table.bare?_of_get hr
    refine h.faithful (hf.pollOn hstack (fun hstage => nomatch hstage) ?_)
    exact ⟨r.bare, captured, hbare, hf.comparable hbare hwf hroot, rfl⟩
  | passes h =>
    have hfits := hf.fits _ (top_mem_frames hstack)
    exact h.faithful (hf.pollOn hstack (fun hstage => nomatch hstage) hfits)
  | @calls id owner gate gate' current waiting waiting' report _ u k handle actions _ _ hu =>
    have hfits := hf.fits _ (top_mem_frames hstack)
    have hfu : Faithful u := hu.faithful (hf.pollOn hstack (fun hstage => nomatch hstage) hfits)
    have hrecord : Faithful (u.record (.call handle.observer report.changes)) := hfu.congr rfl rfl rfl rfl rfl
    exact hrecord.pushPassive trivial
  | @ends id owner gate stage _ r outcome u hr ho hu =>
    -- with the poll off the stack no other one is past its entry, and its report still compares with the baseline
    have hfu : Faithful u := hu.faithful hpopped
    have hnone : u.frames.countP (Active id) = 0 := by
      rw [hu.frames]
      exact hf.alone_popped hstack (active_of_stage ho.stage)
    refine (endPoll_leads u id owner outcome).faithful (hfu.endTable hnone ?_)
    rintro report rfl r' hr'
    rw [hu.table, Table.bare?_of_get hr] at hr'
    cases hr'
    obtain ⟨captured, hcomparable, rfl⟩ := hf.report hhanded hstack hr hsignal ho
    refine ⟨hcomparable.new_wellFormed.baseline _, ?_⟩
    obtain ⟨-, hroot⟩ := hcomparable.old_wellFormed _ rfl
    obtain ⟨-, hsame⟩ := hf.based id r.bare (Table.bare?_of_get hr)
    rw [Snapshot.root_baseline, ← hroot]
    exact hsame

/-- In every session that can be reached, everything is as the polls rely on. -/
theorem faithful_of_run {w : World} (hs : Opens w s) (hw : w.disk.Named) {log : List (RegistrationId × List Change)}
    (h : Run PutsNames s log t) : Faithful t ∧ Handed t := by
  induction h with
  | refl =>
    have hfresh := hs.fresh
    have hframes : s.frames = [] := by
      rw [frames, hfresh.stack, hfresh.parked]
      rfl
    refine ⟨⟨hfresh.disk ▸ hw, ?_, ?_, ?_, ?_, ?_, ?_⟩, ?_⟩
    · intro id r hr
      rw [hfresh.table] at hr
      cases hr
    · rw [hframes]
      exact List.forall_mem_nil _
    · rw [hframes]
      exact List.forall_mem_nil _
    · rw [hfresh.stack]
      exact List.isChain_nil
    · rw [hfresh.parked]
      exact List.forall_mem_nil _
    · intro id
      rw [hframes]
      exact Nat.zero_le _
    · intro snapshot hsignal
      rw [hfresh.signal] at hsignal
      cases hsignal
  | @act log t action _ _ ha ih =>
    have heffect := perform_effect { t with signal := none } action
    have hquiet : Faithful { t with signal := none } := ih.1.congr rfl rfl rfl rfl rfl
    refine ⟨hquiet.effect heffect ?_, ?_⟩
    · rintro _ ⟨⟩
      exact ha
    · intro snapshot hsignal
      cases heffect.captured hsignal
  | step _ hstep ha ih =>
    obtain ⟨frame, below, hstack, hturn⟩ := step_turn hstep
    exact ⟨ih.1.turn ih.2 hstack rfl hturn ha, ih.1.handed hstack hturn⟩

end DirWatch.Session
