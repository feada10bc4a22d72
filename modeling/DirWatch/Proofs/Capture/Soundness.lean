import DirWatch.Capture
import DirWatch.Proofs.Disk.Names
import DirWatch.Proofs.Entry.WellFormed

/-!
# Captures of well-formed trees

If every listing that answers a capture consists of different single components, the capture ends with a well-formed
snapshot of its root. `Capture.Sound` is what holds of a capture in between: the names it has seen in each directory,
with those it has still to look at, are of this kind. `Sound.resume` says that an answer keeps it, and `Sound.stop` what
it gives at the end.
-/

namespace DirWatch.Capture

open Entry (WellFormedBelow wellFormedBelow_iff wellFormed_iff)

/-- Names that can stand in one directory: single components, and none of them twice. -/
def Proper (names : List String) : Prop :=
  (∀ name ∈ names, Path.IsName name) ∧ names.Nodup

instance (names : List String) : Decidable (Proper names) :=
  inferInstanceAs (Decidable ((∀ name ∈ names, Path.IsName name) ∧ names.Nodup))

/-- Some of the names that can stand in a directory can stand in one. -/
theorem Proper.sublist {l names : List String} (h : Proper names) (hl : l.Sublist names) : Proper l :=
  ⟨fun name hname => h.1 name (hl.subset hname), h.2.sublist hl⟩

theorem Proper.perm {l names : List String} (h : Proper names) (hl : l.Perm names) : Proper l :=
  ⟨fun name hname => h.1 name (hl.mem_iff.mp hname), hl.nodup_iff.mpr h.2⟩

/-! ## Putting the listings together -/

/-- The children of directories, each well-formed and under proper names. -/
def BuiltWell (built : List (Path × Listing Entry)) : Prop :=
  ∀ directory children, (directory, children) ∈ built →
    (Listing.names children).Nodup ∧ WellFormedBelow directory children

theorem BuiltWell.nil : BuiltWell [] :=
  fun _ _ hmem => nomatch hmem

/-- One more directory is well built if its children are well-formed. -/
theorem BuiltWell.cons {directory : Path} {children : Listing Entry} {built : List (Path × Listing Entry)}
    (h : BuiltWell built) (hnodup : (Listing.names children).Nodup) (hbelow : WellFormedBelow directory children) :
    BuiltWell ((directory, children) :: built) := by
  intro other l hmem
  rcases List.mem_cons.mp hmem with heq | hmem
  · cases heq
    exact ⟨hnodup, hbelow⟩
  · exact h other l hmem

/-- What is taken was there, and so was what is left. -/
theorem take?_eq_some {directory : Path} {built rest : List (Path × Listing Entry)} {children : Listing Entry}
    (h : take? directory built = some (children, rest)) : (directory, children) ∈ built ∧ ∀ p ∈ rest, p ∈ built := by
  induction built generalizing rest with
  | nil => cases h
  | cons p built ih =>
    obtain ⟨path, l⟩ := p
    unfold take? at h
    split at h
    · rename_i heq
      cases h
      subst heq
      exact ⟨List.mem_cons_self, fun p hp => List.mem_cons_of_mem _ hp⟩
    · obtain ⟨⟨found, others⟩, htake, heq⟩ := Option.map_eq_some_iff.mp h
      cases heq
      obtain ⟨hfound, hothers⟩ := ih htake
      refine ⟨List.mem_cons_of_mem _ hfound, fun p hp => ?_⟩
      rcases List.mem_cons.mp hp with rfl | hp
      · exact List.mem_cons_self
      · exact List.mem_cons_of_mem _ (hothers p hp)

/-- A directory that is taken is well built, and so are those that are left. -/
theorem BuiltWell.take? {directory : Path} {built rest : List (Path × Listing Entry)} {children : Listing Entry}
    (h : BuiltWell built) (htake : take? directory built = some (children, rest)) :
    (Listing.names children).Nodup ∧ WellFormedBelow directory children ∧ BuiltWell rest := by
  obtain ⟨hmem, hrest⟩ := take?_eq_some htake
  obtain ⟨hnodup, hbelow⟩ := h directory children hmem
  exact ⟨hnodup, hbelow, fun other l hl => h other l (hrest _ hl)⟩

/-- What comes out well after a function came out well before it. -/
theorem ok_of_map {ε α β : Type} {x : Except ε α} {f : α → β} {b : β} (h : x.map f = .ok b) :
    ∃ a, x = .ok a ∧ f a = b := by
  cases x with
  | error e => cases h
  | ok a =>
    cases h
    exact ⟨a, rfl, rfl⟩

/-- The entries of a listing stand under its names, each well-formed. -/
theorem BuiltWell.buildListing {directory : Path} {seen : Listing Seen} {built rest : List (Path × Listing Entry)}
    {children : Listing Entry} (h : BuiltWell built) (hnames : ∀ name ∈ Listing.names seen, Path.IsName name)
    (hbuild : buildListing directory seen built = .ok (children, rest)) :
    Listing.names children = Listing.names seen ∧ WellFormedBelow directory children ∧ BuiltWell rest := by
  induction seen generalizing built children with
  | nil =>
    cases hbuild
    exact ⟨rfl, trivial, h⟩
  | cons p seen ih =>
    obtain ⟨name, one⟩ := p
    have hname : Path.IsName name := hnames name List.mem_cons_self
    have hlater : ∀ other ∈ Listing.names seen, Path.IsName other := fun other hother =>
      hnames other (List.mem_cons_of_mem _ hother)
    unfold Capture.buildListing at hbuild
    dsimp only at hbuild
    split at hbuild
    · split at hbuild
      · cases hbuild
      · rename_i below others htake
        obtain ⟨hnodup, hwf, hothers⟩ := h.take? htake
        obtain ⟨⟨entries, left⟩, hmore, heq⟩ := ok_of_map hbuild
        cases heq
        obtain ⟨hsame, hbelow, hrest⟩ := ih hothers hlater hmore
        exact ⟨congrArg (name :: ·) hsame, ⟨⟨hname, rfl, fun hk => (nomatch hk), hnodup, hwf⟩, hbelow⟩, hrest⟩
    · obtain ⟨⟨entries, left⟩, hmore, heq⟩ := ok_of_map hbuild
      cases heq
      obtain ⟨hsame, hbelow, hrest⟩ := ih h hlater hmore
      exact ⟨congrArg (name :: ·) hsame, ⟨⟨hname, rfl, fun _ => rfl, List.nodup_nil, trivial⟩, hbelow⟩, hrest⟩

/-- Every directory seen in a walk has proper names. -/
def Walk.Sound (walk : Walk) : Prop :=
  ∀ directory seen, (directory, seen) ∈ walk.listed → Proper (Listing.names seen)

/-- Listings with proper names are put together well. -/
theorem BuiltWell.build {listed : List (Path × Listing Seen)} {built result : List (Path × Listing Entry)}
    (h : BuiltWell built) (hlisted : ∀ directory seen, (directory, seen) ∈ listed → Proper (Listing.names seen))
    (hbuild : build listed built = .ok result) : BuiltWell result := by
  induction listed generalizing built with
  | nil =>
    cases hbuild
    exact h
  | cons p listed ih =>
    obtain ⟨directory, seen⟩ := p
    obtain ⟨hnames, hnodup⟩ := hlisted directory seen List.mem_cons_self
    have hlater := fun other l hl => hlisted other l (List.mem_cons_of_mem _ hl)
    unfold Capture.build at hbuild
    split at hbuild
    · cases hbuild
    · rename_i children rest hone
      obtain ⟨hsame, hbelow, hrest⟩ := h.buildListing hnames hone
      exact ih (hrest.cons (hsame ▸ hnodup) hbelow) hlater hbuild

/-- A walk whose directories have proper names gives a well-formed snapshot of its root. -/
theorem Walk.Sound.assemble {walk : Walk} (h : walk.Sound) {root : Path} {capturedAt : Int} {snapshot : Snapshot}
    (hs : assemble root capturedAt walk = .ok snapshot) : snapshot.WellFormed ∧ snapshot.root = root := by
  unfold Capture.assemble at hs
  split at hs
  · cases hs
  · rename_i built hbuild
    split at hs
    · cases hs
    · rename_i children rest htake
      cases hs
      obtain ⟨hnodup, hbelow, -⟩ := (BuiltWell.nil.build h hbuild).take? htake
      refine ⟨?_, rfl⟩
      rintro tree ⟨⟩
      exact ⟨rfl, fun hk => (nomatch hk), hnodup, hbelow⟩

/-! ## Going on with a capture -/

/-- What holds of a capture whose questions were answered with proper names. -/
def Sound (c : Capture) : Prop :=
  match c.phase with
  | .root => True
  | .list _ walk => walk.Sound
  | .member _ name waiting seen walk => walk.Sound ∧ Proper (name :: waiting ++ Listing.names seen)
  | .done (.ok snapshot) => snapshot.WellFormed ∧ snapshot.root = c.root
  | .done (.error _) => True

/-- A capture that begins is sound. -/
theorem sound_start (root : Path) (patterns : List String) (capturedAt : Int) : Sound { root, patterns, capturedAt } :=
  trivial

/-- An answer is as it should be, if it does not list anything else than proper names. -/
def Answered : (call : Call) → Except CallError call.Result → Prop
  | .list _, .ok names => Proper names
  | _, _ => True

/-- A tree in which every name is a single component answers as it should. -/
theorem answered_of_named {d : Disk} (h : d.Named) (call : Call) : Answered call (d.answer call) := by
  cases call with
  | list path =>
    cases hlist : d.answer (.list path) with
    | error e => trivial
    | ok names => exact h.list hlist
  | _ => trivial

/-- A question that fails is answered as it should be. -/
theorem answered_error (call : Call) (e : CallError) : Answered call (.error e) := by
  cases call <;> trivial

/-- The capture is sound and still one of the same root. -/
def Continues (c c' : Capture) : Prop :=
  c'.Sound ∧ c'.root = c.root

variable {c : Capture}

/-- A root that is not there makes an empty snapshot. -/
theorem Continues.absent (c : Capture) : c.Continues (c.finish (.ok { root := c.root, capturedAt := c.capturedAt })) :=
  ⟨⟨fun _ htree => (nomatch htree), rfl⟩, rfl⟩

/-- A capture that fails has nothing to be sound about. -/
theorem Continues.failed (c : Capture) (e : CaptureError) : c.Continues (c.finish (.error e)) :=
  ⟨trivial, rfl⟩

/-- A sound walk goes on soundly, or ends in a well-formed snapshot. -/
theorem Walk.Sound.descend {walk : Walk} (h : walk.Sound) (c : Capture) : c.Continues (c.descend walk) := by
  unfold Capture.descend
  split
  · cases hs : Capture.assemble c.root c.capturedAt walk with
    | error e => exact Continues.failed c e
    | ok snapshot => exact ⟨h.assemble hs, rfl⟩
  · exact ⟨h, rfl⟩

/-- It stays sound while the members of a directory are looked at. -/
theorem Walk.Sound.examine {walk : Walk} (h : walk.Sound) (c : Capture) (directory : Path) {waiting : List String}
    {seen : Listing Seen} (hnames : Proper (waiting ++ Listing.names seen)) :
    c.Continues (c.examine directory waiting seen walk) := by
  unfold Capture.examine
  split
  · exact ⟨⟨h, hnames⟩, rfl⟩
  · refine Walk.Sound.descend ?_ c
    intro other l hmem
    rcases List.mem_cons.mp hmem with heq | hmem
    · cases heq
      refine hnames.perm ?_
      exact (List.reverse_perm seen).map _
    · exact h other l hmem

/-- A capture goes on soundly from the root. -/
theorem Sound.afterRoot (c : Capture) (r : Except CallError Info) : c.Continues (c.afterRoot r).1 := by
  unfold Capture.afterRoot
  split
  · exact Continues.absent c
  · exact Continues.failed c _
  · split
    · exact ⟨fun _ _ hmem => (nomatch hmem), rfl⟩
    · refine ⟨⟨?_, rfl⟩, rfl⟩
      rintro tree ⟨⟩
      exact ⟨rfl, fun _ => rfl, List.nodup_nil, trivial⟩

/-- It goes on soundly from a listing of proper names. -/
theorem Walk.Sound.afterList {walk : Walk} (h : walk.Sound) (c : Capture) (directory : Path)
    {r : Except CallError (List String)} (hr : ∀ names, r = .ok names → Proper names) :
    c.Continues (c.afterList directory walk r).1 := by
  unfold Capture.afterList
  split
  · exact h.examine c directory ⟨by simp [Listing.names], by simp [Listing.names]⟩
  · exact Continues.failed c _
  · rename_i names
    refine h.examine c directory ?_
    rw [Listing.names, List.map_nil, List.append_nil]
    exact (hr names rfl).sublist List.filter_sublist

/-- It goes on soundly from any answer about a member. -/
theorem Walk.Sound.afterMember {walk : Walk} (h : walk.Sound) (c : Capture) (directory : Path) {name : String}
    {waiting : List String} {seen : Listing Seen} (hnames : Proper (name :: waiting ++ Listing.names seen))
    (r : Except CallError Info) : c.Continues (c.afterMember directory name waiting seen walk r).1 := by
  unfold Capture.afterMember
  split
  · exact h.examine c directory (hnames.sublist (List.sublist_cons_self _ _))
  · exact Continues.failed c _
  · exact h.examine c directory (hnames.perm List.perm_middle)

/-- A sound capture stays one with every answer. -/
theorem Sound.resume (h : c.Sound) {call : Call} {resume : Except CallError call.Result → Capture × List Notice}
    (hnext : c.next = .ask call resume) {r : Except CallError call.Result} (hr : Answered call r) :
    c.Continues (resume r).1 := by
  unfold Sound at h
  unfold next at hnext
  split at hnext
  · cases hnext
    exact Sound.afterRoot c r
  · rename_i directory walk hphase
    rw [hphase] at h
    cases hnext
    exact Walk.Sound.afterList h c directory (fun names heq => by rw [heq] at hr; exact hr)
  · rename_i directory name waiting seen walk hphase
    rw [hphase] at h
    cases hnext
    exact h.1.afterMember c directory h.2 r
  · cases hnext

/-- A sound capture ends with a well-formed snapshot of its root. -/
theorem Sound.stop (h : c.Sound) {snapshot : Snapshot} (hnext : c.next = .stop (.ok snapshot)) :
    snapshot.WellFormed ∧ snapshot.root = c.root := by
  unfold Sound at h
  unfold next at hnext
  split at hnext
  · cases hnext
  · cases hnext
  · cases hnext
  · rename_i outcome hphase
    cases hnext
    rw [hphase] at h
    exact h

end DirWatch.Capture
