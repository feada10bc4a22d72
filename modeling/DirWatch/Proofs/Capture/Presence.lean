import DirWatch.Proofs.Capture.Soundness
import DirWatch.Proofs.Disk.Descent

/-!
# Captures of a path that stays

Names lead from the root to a path that exists the whole time while a capture is made, whatever else changes. Then the
capture has the path, unless a pattern leaves it out (`Covers.stop`). `Capture.Covers` is what holds in between: every
directory on the way that has been listed shows the next name, and every one under examination shows it or has still to
look at it.
-/

namespace DirWatch

namespace Capture

open Snapshot (descend?)
open Entry (lookup?_some)

/-- Whether the patterns leave out none of the members that names lead through. -/
def shown (patterns : List String) (directory : Path) : List String → Bool
  | [] => true
  | name :: names =>
    !Glob.excludes patterns name (memberText (toString directory) name) && shown patterns (directory.child name) names

/-- Whether a directory that stands on the way shows the next name: as a directory, if the way goes on, and not at all
if a pattern leaves it out. Names that are still to be looked at may be shown. -/
def Shows (patterns : List String) (directory : Path) (names : List String) (waiting : List String)
    (seen : Listing Seen) : Prop :=
  match names with
  | [] => True
  | name :: rest =>
    if Glob.excludes patterns name (memberText (toString directory) name) = true then
      name ∉ waiting ∧ name ∉ Listing.names seen
    else name ∈ waiting ∨ ∃ one, (name, one) ∈ seen ∧ (rest ≠ [] → one.isDirectory = true)

/-- Every directory on the way that is among the listings shows the next name. -/
def Walk.Covers (walk : Walk) (patterns : List String) (root : Path) (names : List String) : Prop :=
  ∀ above rest seen, names = above ++ rest → (root.down above, seen) ∈ walk.listed →
    Shows patterns (root.down above) rest [] seen

/-- What holds of a capture while the path exists that names lead to. -/
def Covers (names : List String) (c : Capture) : Prop :=
  match c.phase with
  | .root => True
  | .list _ walk => walk.Covers c.patterns c.root names
  | .member directory name waiting seen walk => walk.Covers c.patterns c.root names ∧
      ∀ above rest, names = above ++ rest → directory = c.root.down above →
        Shows c.patterns directory rest (name :: waiting) seen
  | .done (.ok snapshot) => (snapshot.at? names).isSome = shown c.patterns c.root names
  | .done (.error _) => True

/-- An answer that does not hide the path that names lead to. -/
def Reveals (root : Path) (names : List String) : (call : Call) → Except CallError call.Result → Prop
  | .stat path, r => path = toString root → (∀ e, r ≠ .error (.system e)) ∧
      ∀ info : Info, r = .ok info → names ≠ [] → info.isDirectory = true
  | .lstat _, _ => True
  | .list path, r => ∀ above name rest, names = above ++ name :: rest → path = toString (root.down above) →
      (∀ e, r ≠ .error (.system e)) ∧ ∀ listed : List String, r = .ok listed → name ∈ listed
  | .member path, r => ∀ above name rest, names = above ++ name :: rest →
      path = memberText (toString (root.down above)) name →
      (∀ e, r ≠ .error (.system e)) ∧ ∀ info : Info, r = .ok info → rest ≠ [] → info.isDirectory = true

variable {c : Capture} {root directory : Path} {patterns names : List String} {walk : Walk} {d : Disk}

/-! ## Answers of a tree -/

end Capture

namespace Disk

variable {d : Disk} {root : Path} {names : List String}

/-- A tree in which the path exists does not hide it. -/
theorem reveals_of_holds (h : d.holds root names = true) (hnamed : d.Named) (hup : ".." ∉ names) (call : Call) :
    Capture.Reveals root names call (d.answer call) := by
  obtain ⟨n, hleads, hn, hsome⟩ := leads_of_holds h hnamed
  have habove : ∀ {above rest}, names = above ++ rest → ".." ∉ above := by
    rintro above rest rfl hmem
    exact hup (List.mem_append_left _ hmem)
  cases call with
  | lstat path => trivial
  | stat path =>
    rintro rfl
    rcases hleads.stat with hanswer | hanswer
    · rw [hanswer]
      exact ⟨fun e he => (nomatch he), fun info hinfo => (nomatch hinfo)⟩
    · rw [hanswer]
      refine ⟨fun e he => (nomatch he), ?_⟩
      rintro info ⟨⟩ hne
      obtain ⟨name, rest, rfl⟩ := List.exists_cons_of_ne_nil hne
      obtain ⟨children, m, child, rfl, -⟩ := Node.descend?_cons hsome
      rfl
  | list path =>
    rintro above name rest rfl rfl
    obtain ⟨-, children, m, child, hdirectory, hget, -⟩ := hleads.way hn (habove rfl) hsome
    rcases hdirectory.list with hanswer | hanswer
    · rw [hanswer]
      exact ⟨fun e he => (nomatch he), fun listed hlisted => (nomatch hlisted)⟩
    · rw [hanswer]
      refine ⟨fun e he => (nomatch he), ?_⟩
      rintro listed ⟨⟩
      refine Listing.mem_names.mpr ⟨child, ?_⟩
      exact Listing.mem_of_get? (by rw [Listing.get?_sorted, hget])
  | member path =>
    rintro above name rest rfl rfl
    obtain ⟨hname, children, m, child, hdirectory, hget, hrest⟩ := hleads.way hn (habove rfl) hsome
    have hreal : name ≠ ".." := fun heq => hup (heq ▸ List.mem_append_right _ List.mem_cons_self)
    rcases hdirectory.member hname hreal hget with hanswer | hanswer
    · rw [hanswer]
      exact ⟨fun e he => (nomatch he), fun info hinfo => (nomatch hinfo)⟩
    · rw [hanswer]
      refine ⟨fun e he => (nomatch he), ?_⟩
      rintro info ⟨⟩ hne
      obtain ⟨next, rest, rfl⟩ := List.exists_cons_of_ne_nil hne
      obtain ⟨children, m, child, rfl, -⟩ := Node.descend?_cons hrest
      rfl

end Disk

namespace Capture

open Snapshot (descend?)
open Entry (lookup?_some)

variable {c : Capture} {root directory : Path} {patterns names waiting : List String} {walk : Walk} {seen : Listing Seen}
  {built left : List (Path × Listing Entry)} {children : Listing Entry}

/-! ## Putting the listings together -/

/-- A listing has an entry for every member that was seen. The children of a directory are some that were put together
before. -/
theorem buildListing_eq (h : buildListing directory seen built = .ok (children, left)) : (∀ p ∈ left, p ∈ built) ∧
    Listing.names children = Listing.names seen ∧ ∀ name one, (name, one) ∈ seen → ∃ e, (name, e) ∈ children ∧
      (one.isDirectory = true → ∃ below, (directory.child name, below) ∈ built ∧
        e = .directory (directory.child name) one.mtime below) := by
  induction seen generalizing built children with
  | nil =>
    cases h
    exact ⟨fun p hp => hp, rfl, fun _ _ hmem => nomatch hmem⟩
  | cons p seen ih =>
    obtain ⟨first, one⟩ := p
    unfold buildListing at h
    dsimp only at h
    split at h
    · split at h
      · cases h
      · rename_i below others htake
        obtain ⟨hbelow, hothers⟩ := take?_eq_some htake
        obtain ⟨⟨entries, rest⟩, hmore, heq⟩ := ok_of_map h
        cases heq
        obtain ⟨hleft, hnames, hseen⟩ := ih hmore
        refine ⟨fun p hp => hothers p (hleft p hp), congrArg (first :: ·) hnames, ?_⟩
        intro name other hmem
        rcases List.mem_cons.mp hmem with heq | hmem
        · cases heq
          exact ⟨_, List.mem_cons_self, fun _ => ⟨below, hbelow, rfl⟩⟩
        · obtain ⟨e, he, hdirectory⟩ := hseen name other hmem
          refine ⟨e, List.mem_cons_of_mem _ he, fun hd => ?_⟩
          obtain ⟨below', hbelow', rfl⟩ := hdirectory hd
          exact ⟨below', hothers _ hbelow', rfl⟩
    · rename_i hfile
      obtain ⟨⟨entries, rest⟩, hmore, heq⟩ := ok_of_map h
      cases heq
      obtain ⟨hleft, hnames, hseen⟩ := ih hmore
      refine ⟨hleft, congrArg (first :: ·) hnames, ?_⟩
      intro name other hmem
      rcases List.mem_cons.mp hmem with heq | hmem
      · cases heq
        exact ⟨_, List.mem_cons_self, fun hd => absurd hd hfile⟩
      · obtain ⟨e, he, hdirectory⟩ := hseen name other hmem
        exact ⟨e, List.mem_cons_of_mem _ he, hdirectory⟩

/-- What is put together for the directories on the way has the rest of the way, as far as no pattern leaves it out. -/
def Reaches (patterns : List String) (root : Path) (names : List String) (built : List (Path × Listing Entry)) : Prop :=
  ∀ above rest children, names = above ++ rest → (root.down above, children) ∈ built → ∀ path m,
    (descend? (.directory path m children) rest).isSome = shown patterns (root.down above) rest

/-- Putting a listing together, the rest of the way is there if the listing shows the next name. -/
theorem Reaches.buildListing (h : Reaches patterns root names built) (hproper : Proper (Listing.names seen))
    {above rest : List String} (heq : names = above ++ rest) (hshows : Shows patterns (root.down above) rest [] seen)
    (hbuild : buildListing (root.down above) seen built = .ok (children, left)) (path : Path) (m : Int) :
    (descend? (.directory path m children) rest).isSome = shown patterns (root.down above) rest := by
  obtain ⟨-, hnames, hseen⟩ := buildListing_eq hbuild
  cases rest with
  | nil => rfl
  | cons name rest =>
    have hget : descend? (.directory path m children) (name :: rest) = (Listing.get? children name).bind fun e =>
      descend? e rest :=
      Entry.descend?_cons _ _ _
    rw [hget, shown]
    rw [Shows] at hshows
    split at hshows
    · rename_i hexcluded
      have hnone : Listing.get? children name = none := Listing.get?_eq_none.mpr (hnames ▸ hshows.2)
      rw [hnone, hexcluded]
      rfl
    · rename_i hincluded
      obtain ⟨one, hone, hdirectory⟩ := hshows.resolve_left List.not_mem_nil
      have hname : Path.IsName name := hproper.1 name (Listing.mem_names.mpr ⟨one, hone⟩)
      obtain ⟨e, he, hbelow⟩ := hseen name one hone
      have hget : Listing.get? children name = some e := Listing.get?_of_mem (hnames ▸ hproper.2) he
      rw [hget, Bool.eq_false_iff.mpr hincluded, Option.bind_some, Bool.not_false, Bool.true_and]
      by_cases hrest : rest = []
      · subst hrest
        rfl
      · obtain ⟨below, hmem, rfl⟩ := hbelow (hdirectory hrest)
        rw [Path.child_eq_down hname, Path.down_down] at hmem ⊢
        exact h (above ++ [name]) rest below (by simp [heq]) hmem _ _

/-- So it is for all directories on the way, put together one after another. -/
theorem Reaches.build {listed : List (Path × Listing Seen)} (h : Reaches patterns root names built)
    (hproper : ∀ directory seen, (directory, seen) ∈ listed → Proper (Listing.names seen))
    (hshows : ∀ above rest seen, names = above ++ rest → (root.down above, seen) ∈ listed →
      Shows patterns (root.down above) rest [] seen)
    (hbuild : build listed built = .ok left) : Reaches patterns root names left := by
  induction listed generalizing built with
  | nil =>
    cases hbuild
    exact h
  | cons p listed ih =>
    obtain ⟨directory, seen⟩ := p
    unfold Capture.build at hbuild
    split at hbuild
    · cases hbuild
    · rename_i children rest hone
      refine ih ?_ (fun other l hl => hproper other l (List.mem_cons_of_mem _ hl))
        (fun above rest l heq hl => hshows above rest l heq (List.mem_cons_of_mem _ hl)) hbuild
      intro above more others heq hmem path m
      rcases List.mem_cons.mp hmem with hfirst | hmem
      · cases hfirst
        exact h.buildListing (hproper _ _ List.mem_cons_self) heq (hshows above more seen heq List.mem_cons_self) hone path m
      · exact h above more others heq ((buildListing_eq hone).1 _ hmem) path m

/-- A walk that covers the path gives a snapshot that has it, unless a pattern leaves it out. -/
theorem Walk.Covers.assemble (h : walk.Covers patterns root names) (hsound : walk.Sound) {capturedAt : Int} {snapshot : Snapshot}
    (hs : assemble root capturedAt walk = .ok snapshot) : (snapshot.at? names).isSome = shown patterns root names := by
  unfold Capture.assemble at hs
  split at hs
  · cases hs
  · rename_i built hbuild
    split at hs
    · cases hs
    · rename_i children rest htake
      cases hs
      have hnothing : Reaches patterns root names [] := fun _ _ _ _ hmem => nomatch hmem
      have hreaches := hnothing.build hsound h hbuild
      have hroot := (take?_eq_some htake).1
      rw [← Path.down_nil root] at hroot
      have hsome := hreaches [] names children rfl hroot root walk.mtime
      rwa [Path.down_nil] at hsome

/-! ## Going on -/

/-- At its beginning a capture has missed nothing. -/
theorem covers_start (names : List String) (root : Path) (patterns : List String) (capturedAt : Int) :
    Covers names { root, patterns, capturedAt } :=
  trivial

/-- Going on to the next directory misses nothing, and the snapshot has the way at the end. -/
theorem Walk.Covers.descend (h : walk.Covers c.patterns c.root names) (hsound : walk.Sound) : (c.descend walk).Covers names := by
  unfold Capture.descend
  split
  · cases hs : Capture.assemble c.root c.capturedAt walk with
    | error e => trivial
    | ok snapshot => exact h.assemble hsound hs
  · exact h

/-- A directory under examination shows the next name or has still to look at it, and when it has looked at all its
members it shows it. -/
theorem Walk.Covers.examine (h : walk.Covers c.patterns c.root names) (hsound : walk.Sound)
    (hproper : Proper (waiting ++ Listing.names seen))
    (hshows : ∀ above rest, names = above ++ rest → directory = c.root.down above →
      Shows c.patterns directory rest waiting seen) :
    (c.examine directory waiting seen walk).Covers names := by
  unfold Capture.examine
  cases waiting with
  | cons name waiting => exact ⟨h, hshows⟩
  | nil =>
    refine Walk.Covers.descend ?_ ?_
    · intro above rest l heq hmem
      rcases List.mem_cons.mp hmem with hfirst | hmem
      · obtain ⟨rfl, rfl⟩ := Prod.mk.inj hfirst.symm
        have hone := hshows above rest heq rfl
        cases rest with
        | nil => trivial
        | cons name rest =>
          rw [Shows] at hone ⊢
          split
          · rename_i hexcluded
            rw [if_pos hexcluded] at hone
            refine ⟨List.not_mem_nil, fun hmem => hone.2 ?_⟩
            rwa [Listing.names, List.map_reverse, List.mem_reverse] at hmem
          · rename_i hincluded
            rw [if_neg hincluded] at hone
            obtain ⟨one, hone, hdirectory⟩ := hone.resolve_left List.not_mem_nil
            exact Or.inr ⟨one, List.mem_reverse.mpr hone, hdirectory⟩
      · exact h above rest l heq hmem
    · intro other l hmem
      rcases List.mem_cons.mp hmem with hfirst | hmem
      · cases hfirst
        exact hproper.perm ((List.reverse_perm seen).map _)
      · exact hsound other l hmem

/-- An answer about the root that does not hide the path leads on to it. -/
theorem Covers.afterRoot {r : Except CallError Info} (hr : Reveals c.root names (.stat (toString c.root)) r) :
    (c.afterRoot r).1.Covers names := by
  obtain ⟨hsystem, hdirectory⟩ := hr rfl
  unfold Capture.afterRoot
  split
  · exact absurd rfl (hsystem _)
  · trivial
  · rename_i info
    split
    · exact fun _ _ _ _ hmem => nomatch hmem
    · rename_i hfile
      have hnil : names = [] := by
        by_contra hne
        exact hfile (hdirectory info rfl hne)
      subst hnil
      rfl

/-- A listing that does not hide the next name has it looked at, unless a pattern leaves it out. -/
theorem Walk.Covers.afterList (h : walk.Covers c.patterns c.root names) (hsound : walk.Sound)
    {r : Except CallError (List String)} (hanswered : ∀ listed, r = .ok listed → Proper listed)
    (hr : Reveals c.root names (.list (toString directory)) r) : (c.afterList directory walk r).1.Covers names := by
  unfold Capture.afterList
  split
  · refine h.examine hsound ⟨by simp [Listing.names], by simp [Listing.names]⟩ ?_
    rintro above rest heq rfl
    cases rest with
    | nil => trivial
    | cons name rest => exact absurd rfl ((hr above name rest heq rfl).1 _)
  · trivial
  · rename_i listed
    refine h.examine hsound ?_ ?_
    · rw [Listing.names, List.map_nil, List.append_nil]
      exact (hanswered listed rfl).sublist List.filter_sublist
    · rintro above rest heq rfl
      cases rest with
      | nil => trivial
      | cons name rest =>
        have hlisted := (hr above name rest heq rfl).2 listed rfl
        rw [Shows]
        split
        · rename_i hexcluded
          refine ⟨fun hmem => ?_, List.not_mem_nil⟩
          have hkept := (List.mem_filter.mp hmem).2
          rw [isExcluded, hexcluded] at hkept
          cases hkept
        · rename_i hincluded
          refine Or.inl (List.mem_filter.mpr ⟨hlisted, ?_⟩)
          rw [isExcluded, Bool.eq_false_iff.mpr hincluded]
          rfl

/-- Once looked at, the next name is shown, and as a directory if the way goes on. -/
theorem Walk.Covers.afterMember (h : walk.Covers c.patterns c.root names) (hsound : walk.Sound) {name : String}
    (hproper : Proper (name :: waiting ++ Listing.names seen))
    (hshows : ∀ above rest, names = above ++ rest → directory = c.root.down above →
      Shows c.patterns directory rest (name :: waiting) seen)
    {r : Except CallError Info} (hr : Reveals c.root names (.member (memberText (toString directory) name)) r) :
    (c.afterMember directory name waiting seen walk r).1.Covers names := by
  unfold Capture.afterMember
  split
  · refine h.examine hsound (hproper.sublist (List.sublist_cons_self _ _)) ?_
    rintro above rest heq rfl
    have hone := hshows above rest heq rfl
    cases rest with
    | nil => trivial
    | cons next rest =>
      rw [Shows] at hone ⊢
      split
      · rename_i hexcluded
        rw [if_pos hexcluded] at hone
        exact ⟨fun hmem => hone.1 (List.mem_cons_of_mem _ hmem), hone.2⟩
      · rename_i hincluded
        rw [if_neg hincluded, List.mem_cons] at hone
        rcases hone with (rfl | hwaiting) | hseen
        · exact absurd rfl ((hr above next rest heq rfl).1 _)
        · exact Or.inl hwaiting
        · exact Or.inr hseen
  · trivial
  · rename_i info
    refine h.examine hsound (hproper.perm List.perm_middle) ?_
    rintro above rest heq rfl
    have hone := hshows above rest heq rfl
    cases rest with
    | nil => trivial
    | cons next rest =>
      rw [Shows] at hone ⊢
      split
      · rename_i hexcluded
        rw [if_pos hexcluded, List.mem_cons, not_or] at hone
        refine ⟨hone.1.2, ?_⟩
        rw [Listing.names, List.map_cons, List.mem_cons, not_or]
        exact ⟨hone.1.1, hone.2⟩
      · rename_i hincluded
        rw [if_neg hincluded, List.mem_cons] at hone
        rcases hone with (rfl | hwaiting) | ⟨one, hseen, hdirectory⟩
        · exact Or.inr ⟨_, List.mem_cons_self, (hr above next rest heq rfl).2 info rfl⟩
        · exact Or.inl hwaiting
        · exact Or.inr ⟨one, List.mem_cons_of_mem _ hseen, hdirectory⟩

/-- A capture keeps its patterns from directory to directory. -/
theorem descend_patterns (c : Capture) (walk : Walk) : (c.descend walk).patterns = c.patterns := by
  unfold Capture.descend
  split <;> rfl

/-- It keeps them from member to member, too. -/
theorem examine_patterns (c : Capture) (directory : Path) (waiting : List String) (seen : Listing Seen) (walk : Walk) :
    (c.examine directory waiting seen walk).patterns = c.patterns := by
  unfold Capture.examine
  split
  · rfl
  · exact descend_patterns c _

/-- A capture keeps its patterns. -/
theorem resume_patterns {call : Call} {resume : Except CallError call.Result → Capture × List Notice}
    (hnext : c.next = .ask call resume) (r : Except CallError call.Result) : (resume r).1.patterns = c.patterns := by
  unfold next at hnext
  split at hnext
  · cases hnext
    unfold Capture.afterRoot
    split
    · rfl
    · rfl
    · split <;> rfl
  · cases hnext
    unfold Capture.afterList
    split
    · exact examine_patterns _ _ _ _ _
    · rfl
    · exact examine_patterns _ _ _ _ _
  · cases hnext
    unfold Capture.afterMember
    split
    · exact examine_patterns _ _ _ _ _
    · rfl
    · exact examine_patterns _ _ _ _ _
  · cases hnext

/-- A capture goes on covering the path with every answer that does not hide it. -/
theorem Covers.resume (h : c.Covers names) (hsound : c.Sound) {call : Call}
    {resume : Except CallError call.Result → Capture × List Notice} (hnext : c.next = .ask call resume)
    {r : Except CallError call.Result} (hanswered : Answered call r) (hr : Reveals c.root names call r) :
    (resume r).1.Covers names := by
  unfold Covers at h
  unfold Sound at hsound
  unfold next at hnext
  split at hnext
  · cases hnext
    exact Covers.afterRoot hr
  · rename_i directory walk hphase
    rw [hphase] at h hsound
    cases hnext
    exact Walk.Covers.afterList h hsound (fun listed heq => by rw [heq] at hanswered; exact hanswered) hr
  · rename_i directory name waiting seen walk hphase
    rw [hphase] at h hsound
    cases hnext
    exact h.1.afterMember hsound.1 hsound.2 h.2 hr
  · cases hnext

/-- A capture that has covered the path has it, unless a pattern leaves it out. -/
theorem Covers.stop (h : c.Covers names) {snapshot : Snapshot} (hnext : c.next = .stop (.ok snapshot)) :
    (snapshot.at? names).isSome = shown c.patterns c.root names := by
  unfold Covers at h
  unfold next at hnext
  split at hnext
  · cases hnext
  · cases hnext
  · cases hnext
  · rename_i outcome hphase
    cases hnext
    rw [hphase] at h
    exact h

end Capture

end DirWatch
