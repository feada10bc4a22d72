import DirWatch.Proofs.Capture.Changing

/-!
# Captures that succeed

A capture fails only through a question that fails otherwise than by a refusal of the system, or through a directory
that was seen and never listed. Neither can happen to a capture whose root has a legible path, if every listing has
names as a file system can hold them: `Unfailing` says so of a capture in between, whatever else happens to the tree
(`Unfailing.resume`).
-/

namespace DirWatch

/-- The text of a path has no NUL character. -/
def Path.Legible (p : Path) : Prop :=
  '\x00' ∉ (toString p).toList

namespace Capture

/-- Names that can stand in one directory of a file system. -/
structure Storable (names : List String) : Prop where
  proper : Proper names
  legible : ∀ name ∈ names, '\x00' ∉ name.toList

/-- An answer that a file system may give: it fails by a refusal, and it lists what can stand in one directory. -/
def Honest : (call : Call) → Except CallError call.Result → Prop
  | _, .error e => ∃ o, e = .system o
  | .list _, .ok names => Storable names
  | _, .ok _ => True

/-- A walk that can be put together at its end, and whose directories can be asked for. -/
structure Walk.Ready (root : Path) (walk : Walk) : Prop where
  grown : Grown root walk.listed walk.pending
  legible : ∀ p ∈ walk.pending, p.Legible

/-- What holds of a capture that has not failed and will not. -/
def Unfailing (c : Capture) : Prop :=
  match c.phase with
  | .root => c.root.Legible
  | .list directory walk => Walk.Ready c.root { walk with pending := directory :: walk.pending }
  | .member directory name waiting seen walk =>
    Walk.Ready c.root { walk with pending := directory :: walk.pending } ∧ Storable (name :: waiting ++ Listing.names seen)
  | .done outcome => ∃ snapshot, outcome = .ok snapshot

variable {d : Disk} {c : Capture} {walk : Walk} {directory : Path} {names l : List String} {seen : Listing Seen} {call : Call}

/-- Some of the names that can be stored in a directory can be stored in one. -/
theorem Storable.sublist (h : Storable names) (hl : l.Sublist names) : Storable l :=
  ⟨h.proper.sublist hl, fun name hname => h.legible name (hl.subset hname)⟩

theorem Storable.perm (h : Storable names) (hl : l.Perm names) : Storable l :=
  ⟨h.proper.perm hl, fun name hname => h.legible name (hl.mem_iff.mp hname)⟩

theorem Storable.nil : Storable [] :=
  ⟨⟨List.forall_mem_nil _, List.nodup_nil⟩, List.forall_mem_nil _⟩

/-! ## Valid trees -/

/-- A valid tree lists names as a file system can hold them. -/
theorem storable_of_list (hd : d.Valid) {path : String} (h : d.answer (.list path) = .ok names) : Storable names := by
  refine ⟨hd.regular.named.list h, ?_⟩
  unfold Disk.answer at h
  split at h
  · cases h
  · dsimp only at h
    split at h
    · cases h
    · rename_i place children m hlocate
      cases h
      intro name hname
      obtain ⟨n, hn⟩ := Listing.mem_names.mp hname
      have hlegible : (Node.directory children m).Legible :=
        Disk.inherited_locate (fun h hget => (h.child hget).2) hd.legible hlocate
      exact (hlegible.child (Listing.mem_sorted_iff.mp hn)).1
    · cases h

/-- A valid tree gives honest answers to questions about legible paths. -/
theorem honest_of_valid (hd : d.Valid) (hcall : '\x00' ∉ call.path.toList) : Honest call (d.answer call) := by
  have hsystem : ∀ {e}, d.answer call = .error e → ∃ o, e = .system o := Disk.system_of_legible hcall
  cases hanswer : d.answer call with
  | error e => cases call <;> exact hsystem hanswer
  | ok r =>
    cases call with
    | list path => exact storable_of_list hd hanswer
    | _ => trivial

/-- A file system may always refuse. -/
theorem honest_refusal (call : Call) (o : OsError) : Honest call (.error (.system o)) := by
  cases call <;> exact ⟨o, rfl⟩

/-! ## One answer -/

theorem unfailing_start {root : Path} (h : root.Legible) (patterns : List String) (capturedAt : Int) :
    Unfailing { root, patterns, capturedAt } := h

/-- An unfailing capture asks about legible paths. -/
theorem Unfailing.legible (h : c.Unfailing) {resume : Except CallError call.Result → Capture × List Notice}
    (hnext : c.next = .ask call resume) : '\x00' ∉ call.path.toList := by
  unfold Unfailing at h
  unfold next at hnext
  split at hnext
  · rename_i hphase
    rw [hphase] at h
    cases hnext
    exact h
  · rename_i hphase
    rw [hphase] at h
    cases hnext
    exact h.legible _ List.mem_cons_self
  · rename_i hphase
    rw [hphase] at h
    cases hnext
    exact legible_memberText (h.1.legible _ List.mem_cons_self) (h.2.legible _ List.mem_cons_self)
  · cases hnext

/-- A walk that is ready goes on to its next directory, or is put together without a failure. -/
theorem Walk.Ready.descend (h : walk.Ready c.root) : (c.descend walk).Unfailing := by
  unfold Capture.descend
  split
  · rename_i hpending
    obtain ⟨grown, -⟩ := h
    rw [hpending] at grown
    obtain ⟨l, hbuild, -⟩ := grown.build (List.Subset.refl _) [] rfl (List.forall_mem_nil _)
    refine ⟨{ root := c.root, tree := some (.directory c.root walk.mtime l), capturedAt := c.capturedAt }, ?_⟩
    rw [assemble, hbuild]
    dsimp only
    rw [take?, if_pos rfl]
  · rename_i hpending
    obtain ⟨grown, legible⟩ := h
    rw [hpending] at grown legible
    exact ⟨grown, legible⟩

/-- It stays ready while the members of a directory are looked at. -/
theorem Walk.Ready.examine (h : Walk.Ready c.root { walk with pending := directory :: walk.pending })
    (hnames : Storable (names ++ Listing.names seen)) : (c.examine directory names seen walk).Unfailing := by
  unfold Capture.examine
  split
  · exact ⟨h, hnames⟩
  · have hseen : Storable (Listing.names seen.reverse) := hnames.perm ((List.reverse_perm seen).map _)
    have hbelow : (seen.filter fun m => m.2.isDirectory).map (fun m => directory.child m.1) =
      directoriesIn directory seen.reverse := by
      rw [directoriesIn, List.reverse_reverse]
    refine Walk.Ready.descend ⟨?_, ?_⟩
    · dsimp only
      rw [hbelow]
      exact Grown.list h.grown hseen.proper
    · dsimp only
      rw [hbelow]
      intro p hp
      rcases List.mem_append.mp hp with hp | hp
      · obtain ⟨name, m, hmem, rfl⟩ := mem_directoriesIn hp
        have hname : name ∈ Listing.names seen.reverse := Listing.mem_names.mpr ⟨_, hmem⟩
        exact Path.legible_child (hseen.proper.1 name hname) (h.legible _ List.mem_cons_self) (hseen.legible name hname)
      · exact h.legible p (List.mem_cons_of_mem _ hp)

/-- An honest answer keeps a capture from failing. -/
theorem Unfailing.resume (h : c.Unfailing) {resume : Except CallError call.Result → Capture × List Notice}
    (hnext : c.next = .ask call resume) {a : Except CallError call.Result} (ha : Honest call a) : (resume a).1.Unfailing := by
  unfold Unfailing at h
  unfold next at hnext
  split at hnext
  · rename_i hphase
    rw [hphase] at h
    cases hnext
    unfold afterRoot
    split
    · exact ⟨_, rfl⟩
    · rename_i hother
      obtain ⟨o, rfl⟩ := ha
      exact absurd rfl (hother o)
    · split
      · refine ⟨Grown.start, fun p hp => ?_⟩
        rw [List.mem_singleton.mp hp]
        exact h
      · exact ⟨_, rfl⟩
  · rename_i directory walk hphase
    rw [hphase] at h
    cases hnext
    unfold afterList
    split
    · exact h.examine Storable.nil
    · rename_i hother
      obtain ⟨o, rfl⟩ := ha
      exact absurd rfl (hother o)
    · refine h.examine ?_
      rw [Listing.names, List.map_nil, List.append_nil]
      exact Storable.sublist ha List.filter_sublist
  · rename_i directory name waiting seen walk hphase
    rw [hphase] at h
    cases hnext
    unfold afterMember
    split
    · exact h.1.examine (h.2.sublist (List.sublist_cons_self _ _))
    · rename_i hother
      obtain ⟨o, rfl⟩ := ha
      exact absurd rfl (hother o)
    · exact h.1.examine (h.2.perm List.perm_middle)
  · cases hnext

/-- An unfailing capture ends with a snapshot. -/
theorem Unfailing.stop (h : c.Unfailing) {outcome : Except CaptureError Snapshot} (hnext : c.next = .stop outcome) :
    ∃ snapshot, outcome = .ok snapshot := by
  unfold Unfailing at h
  unfold next at hnext
  split at hnext
  · cases hnext
  · cases hnext
  · cases hnext
  · rename_i hphase
    cases hnext
    rw [hphase] at h
    exact h

end Capture

end DirWatch
