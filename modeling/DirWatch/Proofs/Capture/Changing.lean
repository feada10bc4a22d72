import DirWatch.Proofs.Capture.Recursion
import Mathlib.Data.Set.Finite.Basic

/-!
# Captures of a tree that changes

While a capture goes on the tree may change between any two of its questions, so nothing ties an answer to those before
it: a directory that was seen can be gone, or be a file, when it is to be listed. `System` are such answers. Whatever
they are, a capture that lists finitely many directories ends with a well-formed snapshot, in which every directory that
was listed has the children that were found in it at that moment (`snapshot_of_answers`).

`Grown` follows the walk: what was listed, and what is still to be listed. No directory comes up twice (`Grown.nodup`),
and when the listings are put together, the children of the directories still to be listed are held in exactly their
order (`Grown.build`).
-/

namespace DirWatch

/-- What a listing would record of an entry. -/
def Entry.seen (e : Entry) : Seen :=
  ⟨e.isDirectory, e.mtime⟩

/-- What a listing would record of entries. -/
def Entry.seenIn (l : Listing Entry) : Listing Seen :=
  l.map fun m => (m.1, m.2.seen)

namespace Capture

open Entry (seenIn)
open Snapshot (descend?)

/-- The answers to the questions of a capture, each by the number of its question. The tree may change between any two
of them. -/
abbrev System := Nat → (call : Call) → Except CallError call.Result

/-- Whatever happens to the tree, a question fails only because the system refuses it, and the members of a directory
have different names that can stand in it. -/
structure System.Genuine (os : System) : Prop where
  refuses : ∀ {n call e}, os n call = .error e → ∃ cause, e = .system cause
  answered : ∀ n call, Answered call (os n call)

section

variable (os : System)

/-- A capture that has been told the first `n` answers. -/
def told (c : Capture) : Nat → Capture
  | 0 => c
  | n + 1 =>
    match (told c n).next with
    | .stop _ => told c n
    | .ask call resume => (resume (os n call)).1

/-- What is seen of members that are looked at one after another, the first of them by the question of this number. -/
def seenFrom (directory : Path) : Nat → List String → Listing Seen
  | _, [] => []
  | n, name :: names =>
    match os n (.member (memberText (toString directory) name)) with
    | .ok info => (name, ⟨info.isDirectory, info.mtime⟩) :: seenFrom directory (n + 1) names
    | .error _ => seenFrom directory (n + 1) names

/-- The names to look at in a directory that is listed by the question of this number. -/
def shownBy (patterns : List String) (directory : Path) (n : Nat) : List String :=
  match os n (.list (toString directory)) with
  | .ok names => names.filter fun name => !Glob.excludes patterns name (memberText (toString directory) name)
  | .error _ => []

/-- What is found in a directory that is listed by the question of this number: nothing, if the listing fails. -/
def found (patterns : List String) (directory : Path) (n : Nat) : Listing Seen :=
  seenFrom os directory (n + 1) (shownBy os patterns directory n)

end

/-- The directory that a capture is about to list, if that is its next question. -/
def listing? (c : Capture) : Option Path :=
  match c.phase with
  | .list directory _ => some directory
  | _ => none

variable {os : System} {c c' : Capture} {root directory p : Path} {patterns : List String} {walk : Walk} {n : Nat}
  {listed found' : List (Path × Listing Seen)} {pending : List Path} {seen : Listing Seen} {l : Listing Entry}

/-! ## One answer after another -/

/-- One more answer is the answer to the next question. -/
theorem told_ask {call : Call} {resume : Except CallError call.Result → Capture × List Notice}
    (h : (c.told os n).next = .ask call resume) : c.told os (n + 1) = (resume (os n call)).1 := by
  rw [told, h]

/-- A capture that has stopped is told nothing more. -/
theorem told_stop {outcome : Except CaptureError Snapshot} (h : (c.told os n).next = .stop outcome) (m : Nat) :
    c.told os (n + m) = c.told os n := by
  induction m with
  | zero => rfl
  | succ m ih =>
    rw [Nat.add_succ, told, ih, h]

/-- Whatever it is told, a capture stays sound and one of the same root. -/
theorem sound_told (hos : os.Genuine) (h : c.Sound) (n : Nat) : (c.told os n).Sound ∧ (c.told os n).root = c.root := by
  induction n with
  | zero => exact ⟨h, rfl⟩
  | succ n ih =>
    cases hnext : (c.told os n).next with
    | stop outcome => rwa [told_stop hnext 1]
    | ask call resume =>
      rw [told_ask hnext]
      obtain ⟨hsound, hroot⟩ := ih.1.resume hnext (hos.answered n call)
      exact ⟨hsound, hroot.trans ih.2⟩

/-- The members of a directory are looked at one after another. -/
theorem told_examine (hos : os.Genuine) {names : List String}
    (h : c.told os n = c'.examine directory names seen walk) :
    c.told os (n + names.length) = c'.examine directory [] ((seenFrom os directory n names).reverse ++ seen) walk ∧
      ∀ m < names.length, (c.told os (n + m)).listing? = none := by
  induction names generalizing n seen with
  | nil => exact ⟨h, fun m hm => absurd hm (Nat.not_lt_zero m)⟩
  | cons name names ih =>
    have hnext : c.told os (n + 1) =
        (c'.afterMember directory name names seen walk (os n (.member (memberText (toString directory) name)))).1 := by
      rw [told, h]
      rfl
    have hnow : (c.told os n).listing? = none := by
      rw [h]
      rfl
    obtain ⟨seen', hexamine, hseen⟩ : ∃ seen', c.told os (n + 1) = c'.examine directory names seen' walk ∧
        (seenFrom os directory n (name :: names)).reverse ++ seen = (seenFrom os directory (n + 1) names).reverse ++ seen' := by
      rw [hnext, seenFrom]
      cases hanswer : os n (.member (memberText (toString directory) name)) with
      | error e =>
        obtain ⟨cause, rfl⟩ := hos.refuses hanswer
        exact ⟨seen, rfl, rfl⟩
      | ok info =>
        refine ⟨_, rfl, ?_⟩
        rw [List.reverse_cons, List.append_assoc, List.singleton_append]
    obtain ⟨hlast, hnone⟩ := ih hexamine
    have hshift : ∀ m, n + (m + 1) = n + 1 + m := fun m => by omega
    rw [hseen, List.length_cons, hshift]
    refine ⟨hlast, fun m hm => ?_⟩
    cases m with
    | zero => exact hnow
    | succ m =>
      rw [hshift]
      exact hnone m (Nat.lt_of_succ_lt_succ hm)

/-- A directory is listed, and then the names that it shows are looked at. -/
theorem told_descend (hos : os.Genuine) (h : c.told os n = c'.descend { walk with pending := directory :: pending }) :
    c.told os (n + 1 + (shownBy os c'.patterns directory n).length) = c'.descend { walk with
        pending := directoriesIn directory (found os c'.patterns directory n) ++ pending
        listed := (directory, found os c'.patterns directory n) :: walk.listed } ∧
      (c.told os n).listing? = some directory ∧
      ∀ m, n < m → m < n + 1 + (shownBy os c'.patterns directory n).length → (c.told os m).listing? = none := by
  have hnext : c.told os (n + 1) = c'.examine directory (shownBy os c'.patterns directory n) [] { walk with pending } := by
    have hafter : c.told os (n + 1) = (c'.afterList directory { walk with pending } (os n (.list (toString directory)))).1 := by
      rw [told, h]
      rfl
    rw [hafter, shownBy]
    cases hanswer : os n (.list (toString directory)) with
    | error e =>
      obtain ⟨cause, rfl⟩ := hos.refuses hanswer
      rfl
    | ok names => rfl
  obtain ⟨hlast, hnone⟩ := told_examine hos hnext
  refine ⟨?_, ?_, fun m hlow hhigh => ?_⟩
  · rw [hlast, List.append_nil, examine, List.reverse_reverse]
    rfl
  · rw [h]
    rfl
  · obtain ⟨k, rfl⟩ := Nat.exists_eq_add_of_le (Nat.succ_le_of_lt hlow)
    exact hnone k (by omega)

/-! ## The walk -/

/-- What a walk has listed, the latest first, and what it has still to list. -/
inductive Grown (root : Path) : List (Path × Listing Seen) → List Path → Prop
  | start : Grown root [] [root]
  | list {directory : Path} {pending : List Path} {listed : List (Path × Listing Seen)} {seen : Listing Seen}
      (h : Grown root listed (directory :: pending)) (hseen : Proper (Listing.names seen)) :
      Grown root ((directory, seen) :: listed) (directoriesIn directory seen ++ pending)

/-- A directory to be listed next was seen as one. -/
theorem mem_directoriesIn (h : p ∈ directoriesIn directory seen) :
    ∃ name m, (name, ⟨true, m⟩) ∈ seen ∧ p = directory.child name := by
  obtain ⟨⟨name, isDirectory, m⟩, hmem, rfl⟩ := List.mem_map.mp h
  obtain ⟨hmem, hdirectory⟩ := List.mem_filter.mp hmem
  cases hdirectory
  exact ⟨name, m, List.mem_reverse.mp hmem, rfl⟩

/-- Every directory that comes up is the root, or it was seen in one that was listed. -/
theorem Grown.origin (h : Grown root listed pending) (hp : p ∈ pending ++ listed.map Prod.fst) :
    p = root ∨ ∃ directory seen name m, (directory, seen) ∈ listed ∧ Proper (Listing.names seen) ∧
      (name, ⟨true, m⟩) ∈ seen ∧ p = directory.child name := by
  induction h with
  | start => exact Or.inl (by simpa using hp)
  | @list other pending listed seen h hseen ih =>
    rw [List.append_assoc, List.mem_append] at hp
    rcases hp with hp | hp
    · obtain ⟨name, m, hmem, rfl⟩ := mem_directoriesIn hp
      exact Or.inr ⟨other, seen, name, m, List.mem_cons_self, hseen, hmem, rfl⟩
    · exact (ih (List.perm_middle.mem_iff.mp hp)).imp_right fun ⟨directory, s, name, m, hmem, hrest⟩ =>
        ⟨directory, s, name, m, List.mem_cons_of_mem (other, seen) hmem, hrest⟩

/-- A directory that was seen stands one name below the one that it was seen in. -/
theorem child_of_seen {one : Seen} {name : String} (hseen : Proper (Listing.names seen)) (h : (name, one) ∈ seen)
    (directory : Path) :
    directory.child name = directory.down [name] :=
  Path.child_eq_down (hseen.1 name (Listing.mem_names.mpr ⟨_, h⟩)) directory

/-- All that a walk has listed, or has still to list, stands below the root. -/
theorem Grown.stands (h : Grown root listed pending) (hp : p ∈ pending ++ listed.map Prod.fst) :
    ∃ names, p = root.down names := by
  induction h generalizing p with
  | start =>
    refine ⟨[], ?_⟩
    rw [Path.down_nil]
    simpa using hp
  | @list other pending listed seen h hseen ih =>
    rw [List.append_assoc, List.mem_append] at hp
    rcases hp with hp | hp
    · obtain ⟨name, m, hmem, rfl⟩ := mem_directoriesIn hp
      obtain ⟨names, hnames⟩ := ih (p := other) List.mem_cons_self
      refine ⟨names ++ [name], ?_⟩
      rw [child_of_seen hseen hmem, hnames, Path.down_down]
    · exact ih (List.perm_middle.mem_iff.mp hp)

/-- It lists no directory twice. -/
theorem nodup_directoriesIn (directory : Path) (hseen : Proper (Listing.names seen)) :
    (directoriesIn directory seen).Nodup := by
  have hmembers : (seen.reverse.filter fun m => m.2.isDirectory).Nodup :=
    (List.nodup_reverse.mpr (List.Nodup.of_map _ hseen.2)).filter _
  refine hmembers.map_on fun a ha b hb heq => ?_
  have ha : a ∈ seen := List.mem_reverse.mp (List.mem_of_mem_filter ha)
  have hb : b ∈ seen := List.mem_reverse.mp (List.mem_of_mem_filter hb)
  rw [child_of_seen hseen ha, child_of_seen hseen hb, Path.down_inj] at heq
  exact List.inj_on_of_nodup_map hseen.2 ha hb (List.singleton_inj.mp heq)

/-- No directory comes up twice. -/
theorem Grown.nodup (h : Grown root listed pending) : (pending ++ listed.map Prod.fst).Nodup := by
  induction h with
  | start => simp
  | @list directory pending listed seen h hseen ih =>
    have hother : (pending ++ directory :: listed.map Prod.fst).Nodup := List.perm_middle.nodup_iff.mpr ih
    rw [List.map_cons, List.append_assoc]
    refine (nodup_directoriesIn directory hseen).append hother ?_
    intro p hp hagain
    obtain ⟨name, m, hmem, rfl⟩ := mem_directoriesIn hp
    obtain ⟨names, hnames⟩ := h.stands (p := directory) List.mem_cons_self
    have hpath : directory.child name = root.down (names ++ [name]) := by
      rw [child_of_seen hseen hmem, hnames, Path.down_down]
    rw [hpath] at hagain
    rcases h.origin (List.perm_middle.mem_iff.mp hagain) with hroot | ⟨earlier, seen', name', m', hlisted, hseen', hmem', heq⟩
    · -- the root is not below itself
      rw [← Path.down_nil root, Path.down_down, Path.down_inj] at hroot
      cases names <;> cases hroot
    · -- what was seen in an earlier directory stands below that one
      have hkey : earlier ∈ listed.map Prod.fst := List.mem_map.mpr ⟨_, hlisted, rfl⟩
      obtain ⟨names', hnames'⟩ := h.stands (List.mem_append_right _ hkey)
      rw [child_of_seen hseen' hmem', hnames', Path.down_down, Path.down_inj] at heq
      obtain ⟨rfl, -⟩ := List.append_inj' heq rfl
      rw [hnames', ← hnames] at hkey
      exact (List.nodup_cons.mp ih).1 (List.mem_append_right _ hkey)

/-! ## Putting the listings together -/

/-- The children of a directory are what some listing recorded of it, and so are those of every directory among them. -/
inductive Portrays (listed : List (Path × Listing Seen)) : Path → Listing Entry → Prop
  | intro {p : Path} {l : Listing Entry} (hseen : (p, seenIn l) ∈ listed)
      (hbelow : ∀ name e, (name, e) ∈ l → e.isDirectory = true → Portrays listed (p.child name) e.children) :
      Portrays listed p l

/-- A listing is put together from the children of its directories, if these are held in front, the last directory first. -/
theorem exists_buildListing {front : List (Path × Listing Entry)} (hproper : Proper (Listing.names seen))
    (hfront : front.map Prod.fst = directoriesIn p seen) (others : List (Path × Listing Entry)) :
    ∃ l, buildListing p seen (front ++ others) = .ok (l, others) ∧ seenIn l = seen ∧
      ∀ name e, (name, e) ∈ l → e.isDirectory = true → (p.child name, e.children) ∈ front := by
  induction seen generalizing front with
  | nil =>
    cases List.map_eq_nil_iff.mp hfront
    exact ⟨[], rfl, rfl, fun _ _ hmem => nomatch hmem⟩
  | cons first seen ih =>
    obtain ⟨name, isDirectory, m⟩ := first
    have hlater : Proper (Listing.names seen) := hproper.sublist (List.sublist_cons_self _ _)
    cases isDirectory with
    | false =>
      have hsame : directoriesIn p ((name, ⟨false, m⟩) :: seen) = directoriesIn p seen := by
        simp [directoriesIn]
      obtain ⟨l, hbuild, hseen, hbelow⟩ := ih hlater (hfront.trans hsame)
      refine ⟨(name, .file (p.child name) m) :: l, buildListing_file hbuild, congrArg (_ :: ·) hseen,
        fun other e hmem hdirectory => ?_⟩
      rcases List.mem_cons.mp hmem with heq | hmem
      · cases heq
        cases hdirectory
      · exact hbelow other e hmem hdirectory
    | true =>
      have hlast : directoriesIn p ((name, ⟨true, m⟩) :: seen) = directoriesIn p seen ++ [p.child name] := by
        simp [directoriesIn]
      obtain ⟨before, last, rfl, hbefore, hkey⟩ := List.map_eq_append_iff.mp (hfront.trans hlast)
      obtain ⟨⟨path, children⟩, rfl, rfl⟩ := List.map_eq_singleton_iff.mp hkey
      -- no other directory of the listing has the path
      have hother : ∀ q ∈ before, q.1 ≠ p.child name := by
        intro q hq heq
        have hq : q.1 ∈ directoriesIn p seen := hbefore ▸ List.mem_map_of_mem hq
        have hnodup := nodup_directoriesIn p hproper
        rw [hlast, List.nodup_append] at hnodup
        exact hnodup.2.2 _ hq _ (List.mem_singleton_self _) heq
      obtain ⟨l, hbuild, hseen, hbelow⟩ := ih hlater hbefore
      refine ⟨(name, .directory (p.child name) m children) :: l, buildListing_directory hbuild hother, congrArg (_ :: ·) hseen,
        fun other e hmem hdirectory => ?_⟩
      rcases List.mem_cons.mp hmem with heq | hmem
      · cases heq
        exact List.mem_append_right _ (List.mem_singleton_self _)
      · exact List.mem_append_left _ (hbelow other e hmem hdirectory)

/-- What a walk has listed is put together to the children of the root, if the children of what it has still to list are
held in that order. -/
theorem Grown.build {all : List (Path × Listing Seen)} (h : Grown root listed pending) (hall : listed ⊆ all)
    (held : List (Path × Listing Entry)) (hkeys : held.map Prod.fst = pending)
    (hheld : ∀ q ∈ held, Portrays all q.1 q.2) : ∃ l, build listed held = .ok [(root, l)] ∧ Portrays all root l := by
  induction h generalizing held with
  | start =>
    obtain ⟨⟨path, l⟩, rfl, rfl⟩ := List.map_eq_singleton_iff.mp hkeys
    exact ⟨l, rfl, hheld _ (List.mem_singleton_self _)⟩
  | @list directory pending listed seen h hseen ih =>
    obtain ⟨front, others, rfl, hfront, hothers⟩ := List.map_eq_append_iff.mp hkeys
    obtain ⟨l, hbuild, hsame, hbelow⟩ := exists_buildListing hseen hfront others
    have hportrays : Portrays all directory l := by
      refine Portrays.intro (hsame ▸ hall List.mem_cons_self) fun name e hmem hdirectory => ?_
      exact hheld _ (List.mem_append_left _ (hbelow name e hmem hdirectory))
    obtain ⟨top, htop, hroot⟩ := ih (fun q hq => hall (List.mem_cons_of_mem _ hq)) ((directory, l) :: others)
      (congrArg (directory :: ·) hothers) fun q hq => by
        rcases List.mem_cons.mp hq with rfl | hq
        · exact hportrays
        · exact hheld q (List.mem_append_right _ hq)
    refine ⟨top, ?_, hroot⟩
    rw [Capture.build, hbuild]
    exact htop

/-! ## What the snapshot shows -/

/-- Every directory below an entry has the children that were recorded of it. -/
theorem Portrays.descend {e d : Entry} {names : List String} (h : Portrays listed p e.children) (hwf : e.WellFormed)
    (hd : descend? e names = some d) (hdirectory : d.isDirectory = true) : Portrays listed (p.down names) d.children := by
  induction names generalizing e p with
  | nil =>
    cases hd
    rwa [Path.down_nil]
  | cons name names ih =>
    rw [Entry.descend?_cons] at hd
    obtain ⟨c, hc, hd⟩ := Option.bind_eq_some_iff.mp hd
    obtain ⟨hname, -, hcwf⟩ := hwf.child hc
    have hcdirectory : c.isDirectory = true := by
      cases names with
      | nil =>
        cases hd
        exact hdirectory
      | cons next names =>
        rw [Entry.descend?_cons] at hd
        obtain ⟨below, hbelow, -⟩ := Option.bind_eq_some_iff.mp hd
        exact hcwf.isDirectory_of_child hbelow
    cases h with
    | intro hseen hbelow =>
      have hchild := hbelow name c (Listing.mem_of_get? hc) hcdirectory
      rw [Path.child_eq_down hname] at hchild
      have hlast := ih hchild hcwf hd
      rwa [Path.down_down, List.singleton_append] at hlast

/-- Every directory that came up has an entry. -/
theorem Grown.descend {all : List (Path × Listing Seen)} (h : Grown root listed pending) (hall : listed ⊆ all)
    (honce : (all.map Prod.fst).Nodup) (tree : Entry) (htree : tree.isDirectory = true) (hwf : tree.WellFormed)
    (hportrays : Portrays all root tree.children) (hp : p ∈ pending ++ listed.map Prod.fst) :
    ∃ names e, p = root.down names ∧ descend? tree names = some e ∧ e.isDirectory = true := by
  induction h generalizing p with
  | start =>
    refine ⟨[], tree, ?_, rfl, htree⟩
    rw [Path.down_nil]
    simpa using hp
  | @list directory pending listed seen h hseen ih =>
    have hearlier : listed ⊆ all := fun q hq => hall (List.mem_cons_of_mem _ hq)
    rw [List.append_assoc, List.mem_append] at hp
    rcases hp with hp | hp
    · obtain ⟨name, m, hmem, rfl⟩ := mem_directoriesIn hp
      obtain ⟨names, e, rfl, he, hdirectory⟩ := ih hearlier (p := directory) List.mem_cons_self
      have hsame : seenIn e.children = seen := by
        cases hportrays.descend hwf he hdirectory with
        | intro hrecorded _ =>
          have heq := List.inj_on_of_nodup_map honce hrecorded (hall List.mem_cons_self) rfl
          exact congrArg Prod.snd heq
      obtain ⟨⟨other, c⟩, hc, heq⟩ := List.mem_map.mp (hsame ▸ hmem)
      obtain ⟨rfl, hkind⟩ := Prod.mk.injEq .. ▸ heq
      refine ⟨names ++ [other], c, ?_, ?_, congrArg Seen.isDirectory hkind⟩
      · rw [child_of_seen hseen hmem, Path.down_down]
      · have hchild : e.child? other = some c := Listing.get?_of_mem (hwf.descend he).1.nodup hc
        rw [Entry.descend?_append, he, Option.bind_some, Entry.descend?_cons, hchild]
        rfl
    · exact ih hearlier (List.perm_middle.mem_iff.mp hp)

/-! ## One listing after another -/

/-- The names that are seen are some of those that are looked at. -/
theorem names_seenFrom_sublist (os : System) (directory : Path) (n : Nat) (names : List String) :
    (Listing.names (seenFrom os directory n names)).Sublist names := by
  induction names generalizing n with
  | nil => exact List.Sublist.refl _
  | cons name names ih =>
    rw [seenFrom]
    split
    · exact (ih (n + 1)).cons_cons name
    · exact (ih (n + 1)).trans (List.sublist_cons_self _ _)

/-- Nothing is found but proper names. -/
theorem proper_found (hos : os.Genuine) (patterns : List String) (directory : Path) (n : Nat) :
    Proper (Listing.names (found os patterns directory n)) := by
  refine Proper.sublist ?_ (names_seenFrom_sublist os directory (n + 1) _)
  unfold shownBy
  split
  · rename_i names hlist
    have hproper : Answered _ (.ok names) := hlist ▸ hos.answered n (.list (toString directory))
    exact Proper.sublist hproper List.filter_sublist
  · exact ⟨List.forall_mem_nil _, List.nodup_nil⟩

/-- A capture is between two directories of its walk: what it has listed is what was found, each directory at the
question that listed it. -/
structure Walked (os : System) (c : Capture) (mtime : Int) (n : Nat) (walk : Walk) : Prop where
  now : c.told os n = c.descend walk
  grown : Grown c.root walk.listed walk.pending
  mtime : walk.mtime = mtime
  listed : ∀ d s, (d, s) ∈ walk.listed ↔ ∃ m < n, (c.told os m).listing? = some d ∧ s = found os c.patterns d m
  once : ∀ {d m m'}, m < n → m' < n → (c.told os m).listing? = some d → (c.told os m').listing? = some d → m = m'

/-- The walk of a root that is a directory when it is first looked at. -/
theorem walked_start {root : Path} {info : Info} (patterns : List String) (capturedAt : Int)
    (hanswer : os 0 (.stat (toString root)) = .ok info) (hdirectory : info.isDirectory = true) :
    Walked os { root, patterns, capturedAt } info.mtime 1 { mtime := info.mtime, pending := [root] } := by
  let c : Capture := { root, patterns, capturedAt }
  have hnow : c.told os 1 = c.descend { mtime := info.mtime, pending := [root] } := by
    have hnext : c.told os 1 = (c.afterRoot (os 0 (.stat (toString root)))).1 := rfl
    rw [hnext, hanswer]
    unfold afterRoot
    dsimp only
    rw [if_pos hdirectory]
    rfl
  have hnone : ∀ {m d}, m < 1 → (c.told os m).listing? ≠ some d := by
    intro m d hm hd
    cases Nat.lt_one_iff.mp hm
    cases hd
  refine ⟨hnow, Grown.start, rfl, fun d s => ⟨fun hmem => (nomatch hmem), ?_⟩, fun hm _ hd _ => absurd hd (hnone hm)⟩
  rintro ⟨m, hm, hd, -⟩
  exact absurd hd (hnone hm)

/-- One more directory is listed. -/
theorem Walked.list (hos : os.Genuine) {mtime : Int} (h : Walked os c mtime n walk)
    (hpending : walk.pending = directory :: pending) :
    Walked os c mtime (n + 1 + (shownBy os c.patterns directory n).length)
      { walk with
        pending := directoriesIn directory (found os c.patterns directory n) ++ pending
        listed := (directory, found os c.patterns directory n) :: walk.listed } := by
  have hgrown := h.grown
  rw [hpending] at hgrown
  have hnow : c.told os n = c.descend { walk with pending := directory :: pending } := by
    rw [h.now, ← hpending]
  obtain ⟨hlast, hlisting, hnone⟩ := told_descend hos hnow
  -- only the first of these questions lists a directory
  have hwhen : ∀ {d m}, m < n + 1 + (shownBy os c.patterns directory n).length → (c.told os m).listing? = some d →
      m < n ∨ m = n ∧ d = directory := by
    intro d m hm hd
    rcases Nat.lt_trichotomy m n with hlt | rfl | hgt
    · exact Or.inl hlt
    · rw [hlisting] at hd
      cases hd
      exact Or.inr ⟨rfl, rfl⟩
    · rw [hnone m hgt hm] at hd
      cases hd
  have hfresh : ∀ {m}, m < n → (c.told os m).listing? ≠ some directory := by
    intro m hm hd
    have hmem := (h.listed directory _).mpr ⟨m, hm, hd, rfl⟩
    exact (List.nodup_cons.mp hgrown.nodup).1 (List.mem_append_right _ (List.mem_map_of_mem hmem))
  refine ⟨hlast, Grown.list hgrown (proper_found hos c.patterns directory n), h.mtime, fun d s => ?_, fun hm hm' hd hd' => ?_⟩
  · rw [List.mem_cons]
    constructor
    · rintro (heq | hmem)
      · cases heq
        exact ⟨n, by omega, hlisting, rfl⟩
      · obtain ⟨m, hm, hrest⟩ := (h.listed d s).mp hmem
        exact ⟨m, by omega, hrest⟩
    · rintro ⟨m, hm, hd, rfl⟩
      rcases hwhen hm hd with hlt | ⟨rfl, rfl⟩
      · exact Or.inr ((h.listed d _).mpr ⟨m, hlt, hd, rfl⟩)
      · exact Or.inl rfl
  · rcases hwhen hm hd with hlt | ⟨rfl, rfl⟩
    · rcases hwhen hm' hd' with hlt' | ⟨rfl, rfl⟩
      · exact h.once hlt hlt' hd hd'
      · exact absurd hd (hfresh hlt)
    · rcases hwhen hm' hd' with hlt' | ⟨rfl, -⟩
      · exact absurd hd' (hfresh hlt')
      · rfl

/-- A walk that lists finitely many directories comes to its end. -/
theorem Walked.ends (hos : os.Genuine) {mtime : Int} (h : Walked os c mtime n walk) (all : Finset Path)
    (hall : ∀ m d, (c.told os m).listing? = some d → d ∈ all) :
    ∃ n walk, Walked os c mtime n walk ∧ walk.pending = [] := by
  induction hsize : all.card - walk.listed.length using Nat.strong_induction_on generalizing n walk with
  | _ size ih =>
    cases hpending : walk.pending with
    | nil => exact ⟨n, walk, h, hpending⟩
    | cons directory pending =>
      have hnext := h.list hos hpending
      have hkeys : (directory :: walk.listed.map Prod.fst).Nodup := hnext.grown.nodup.of_append_right
      have hsubset : (directory :: walk.listed.map Prod.fst).toFinset ⊆ all := by
        intro d hd
        obtain ⟨⟨d, s⟩, hmem, rfl⟩ := List.mem_map.mp (List.mem_toFinset.mp hd :
          d ∈ ((directory, found os c.patterns directory n) :: walk.listed).map Prod.fst)
        obtain ⟨m, -, hm, -⟩ := (hnext.listed d s).mp hmem
        exact hall m d hm
      have hcard := Finset.card_le_card hsubset
      rw [List.toFinset_card_of_nodup hkeys, List.length_cons, List.length_map] at hcard
      refine ih _ ?_ hnext rfl
      rw [← hsize, List.length_cons]
      omega

/-! ## The end -/

variable (os) in
/-- What the first question sees of a root, if it can be looked at. -/
def rootSeen? (root : Path) : Option Seen :=
  match os 0 (.stat (toString root)) with
  | .ok info => some ⟨info.isDirectory, info.mtime⟩
  | .error _ => none

variable (os c) in
/-- A snapshot that shows what the answers say, each directory at the time when it was listed. -/
structure Renders (snapshot : Snapshot) : Prop where
  root : snapshot.root = c.root
  capturedAt : snapshot.capturedAt = c.capturedAt
  wellFormed : snapshot.WellFormed
  /-- The root is recorded as it was first seen, or not at all. -/
  top : (snapshot.get? c.root).map Entry.seen = rootSeen? os c.root
  /-- A directory that was listed has the children that were found in it. -/
  listed : ∀ m d, (c.told os m).listing? = some d →
    ∃ e, snapshot.get? d = some e ∧ e.isDirectory = true ∧ seenIn e.children = found os c.patterns d m
  /-- Whatever is recorded as a directory was listed, and only once. -/
  once : ∀ d e, snapshot.get? d = some e → e.isDirectory = true → ∃! m, (c.told os m).listing? = some d

/-- A capture that has ended lists no more. -/
theorem listing?_of_stop {outcome : Except CaptureError Snapshot} (h : (c.told os n).next = .stop outcome) {m : Nat}
    (hm : n ≤ m) :
    (c.told os m).listing? = none := by
  obtain ⟨k, rfl⟩ := Nat.exists_eq_add_of_le hm
  rw [told_stop h k]
  unfold next at h
  unfold listing?
  split at h <;> cases h
  rename_i hphase
  rw [hphase]

/-- Only finitely many directories are listed by a capture that ends. -/
theorem finite_of_stop {outcome : Except CaptureError Snapshot} (h : (c.told os n).next = .stop outcome) :
    {d | ∃ m, (c.told os m).listing? = some d}.Finite := by
  refine (((Finset.range n).toList.filterMap fun m => (c.told os m).listing?).finite_toSet).subset ?_
  rintro d ⟨m, hm⟩
  refine List.mem_filterMap.mpr ⟨m, ?_, hm⟩
  rw [Finset.mem_toList, Finset.mem_range]
  by_contra hle
  rw [listing?_of_stop h (Nat.le_of_not_lt hle)] at hm
  cases hm

/-- A walk that has come to its end gives a snapshot. -/
theorem Walked.renders (hos : os.Genuine) {mtime : Int} (h : Walked os c mtime n walk) (hpending : walk.pending = [])
    (hsound : c.Sound) (hroot : rootSeen? os c.root = some ⟨true, mtime⟩) :
    ∃ snapshot, (c.told os n).next = .stop (.ok snapshot) ∧ Renders os c snapshot := by
  have hgrown := h.grown
  rw [hpending] at hgrown
  have hkeys : (walk.listed.map Prod.fst).Nodup := hgrown.nodup
  obtain ⟨l, hbuild, hportrays⟩ := hgrown.build (List.Subset.refl _) [] rfl (List.forall_mem_nil _)
  let tree : Entry := .directory c.root mtime l
  have hstop : (c.told os n).next = .stop (.ok { root := c.root, tree := some tree, capturedAt := c.capturedAt }) := by
    have hassemble :
      assemble c.root c.capturedAt walk = .ok { root := c.root, tree := some tree, capturedAt := c.capturedAt } := by
      rw [assemble, hbuild]
      dsimp only
      rw [take?, if_pos rfl, h.mtime]
    rw [h.now, Capture.descend, hpending]
    exact congrArg Next.stop hassemble
  obtain ⟨hwf, -⟩ := (sound_told hos hsound n).1.stop hstop
  have htree : tree.WellFormed := (hwf tree rfl).2
  have hsame : ∀ names, Snapshot.get? { root := c.root, tree := some tree, capturedAt := c.capturedAt } (c.root.down names) =
      descend? tree names := fun names => Snapshot.get?_down _ names
  have hbefore : ∀ {m d}, (c.told os m).listing? = some d → m < n := by
    intro m d hm
    by_contra hle
    rw [listing?_of_stop hstop (Nat.le_of_not_lt hle)] at hm
    cases hm
  have hrecorded : ∀ {names e}, descend? tree names = some e → e.isDirectory = true →
      (c.root.down names, seenIn e.children) ∈ walk.listed := by
    intro names e he hdirectory
    cases (show Portrays walk.listed c.root tree.children from hportrays).descend htree he hdirectory with
    | intro hrecorded _ => exact hrecorded
  refine ⟨_, hstop, rfl, rfl, hwf, ?_, fun m d hm => ?_, fun d e he hdirectory => ?_⟩
  · have htop := hsame []
    rw [Path.down_nil] at htop
    rw [htop, hroot]
    rfl
  · have hlisted := (h.listed d _).mpr ⟨m, hbefore hm, hm, rfl⟩
    obtain ⟨names, e, rfl, he, hdirectory⟩ := hgrown.descend (List.Subset.refl _) hkeys tree rfl htree hportrays
      (List.mem_map_of_mem hlisted)
    refine ⟨e, (hsame names).trans he, hdirectory, ?_⟩
    exact congrArg Prod.snd (List.inj_on_of_nodup_map hkeys (hrecorded he hdirectory) hlisted rfl)
  · obtain ⟨names, rfl, -⟩ := Snapshot.eq_down_of_get? he
    obtain ⟨m, -, hm, -⟩ := (h.listed _ _).mp (hrecorded ((hsame names).symm.trans he) hdirectory)
    exact ⟨m, hm, fun m' hm' => h.once (hbefore hm') (hbefore hm) hm' hm⟩

/-- A capture whose root is no directory, or is not there, ends at once. -/
theorem renders_leaf {snapshot : Snapshot} (hphase : c.phase = .root) (h : (c.told os 1).next = .stop (.ok snapshot))
    (hwf : snapshot.WellFormed) (hroot : snapshot.root = c.root) (hcapturedAt : snapshot.capturedAt = c.capturedAt)
    (htop : (snapshot.get? c.root).map Entry.seen = rootSeen? os c.root)
    (hfile : ∀ tree ∈ snapshot.tree, tree.kind = .file) : Renders os c snapshot := by
  have hnone : ∀ m, (c.told os m).listing? = none := by
    intro m
    cases m with
    | zero =>
      show c.listing? = none
      rw [listing?, hphase]
    | succ m => exact listing?_of_stop h (Nat.succ_le_succ (Nat.zero_le m))
  refine ⟨hroot, hcapturedAt, hwf, htop, fun m d hm => ?_, fun d e he hdirectory => ?_⟩
  · rw [hnone m] at hm
    cases hm
  · obtain ⟨names, -, he⟩ := Snapshot.eq_down_of_get? he
    obtain ⟨tree, htree, he⟩ := Option.bind_eq_some_iff.mp he
    have hfile := hfile tree htree
    cases names with
    | nil =>
      cases he
      rw [Entry.isDirectory, hfile] at hdirectory
      cases hdirectory
    | cons name names =>
      rw [(hwf tree htree).2.descend?_of_file hfile (List.cons_ne_nil name names)] at he
      cases he

/-- Whatever happens to a tree while it is captured, a capture that lists finitely many directories ends with a
well-formed snapshot, in which each directory has the children that were found in it when it was listed. -/
theorem snapshot_of_answers (hos : os.Genuine) (root : Path) (patterns : List String) (capturedAt : Int)
    (hfinite : {d | ∃ m, ((told os { root, patterns, capturedAt }) m).listing? = some d}.Finite) :
    ∃ n snapshot, ((told os { root, patterns, capturedAt }) n).next = .stop (.ok snapshot) ∧
      Renders os { root, patterns, capturedAt } snapshot := by
  let c : Capture := { root, patterns, capturedAt }
  have hnext : c.told os 1 = (c.afterRoot (os 0 (.stat (toString root)))).1 := rfl
  have hsound : c.Sound := sound_start root patterns capturedAt
  -- a root that cannot be looked at, or that is a file, is known after the first answer
  have hleaf : ∀ snapshot : Snapshot, (c.told os 1).next = .stop (.ok snapshot) → snapshot.root = root →
      snapshot.capturedAt = capturedAt → (snapshot.get? root).map Entry.seen = rootSeen? os root →
      (∀ tree ∈ snapshot.tree, tree.kind = .file) →
      ∃ n snapshot, (c.told os n).next = .stop (.ok snapshot) ∧ Renders os c snapshot := by
    intro snapshot hstop hroot hcapturedAt htop hfile
    have hwf := ((sound_told hos hsound 1).1.stop hstop).1
    exact ⟨1, snapshot, hstop, renders_leaf rfl hstop hwf hroot hcapturedAt htop hfile⟩
  cases hanswer : os 0 (.stat (toString root)) with
  | error e =>
    obtain ⟨cause, rfl⟩ := hos.refuses hanswer
    refine hleaf { root, capturedAt } ?_ rfl rfl ?_ fun _ htree => nomatch htree
    · rw [hnext, hanswer]
      rfl
    · rw [rootSeen?, hanswer]
      rfl
  | ok info =>
    have htop : rootSeen? os root = some ⟨info.isDirectory, info.mtime⟩ := by
      rw [rootSeen?, hanswer]
    by_cases hdirectory : info.isDirectory = true
    · have hwalked : Walked os c info.mtime 1 { mtime := info.mtime, pending := [root] } :=
        walked_start patterns capturedAt hanswer hdirectory
      obtain ⟨n, walk, hlast, hpending⟩ :=
        hwalked.ends hos hfinite.toFinset fun m d hm => hfinite.mem_toFinset.mpr ⟨m, hm⟩
      rw [hdirectory] at htop
      exact ⟨n, hlast.renders hos hpending hsound htop⟩
    · refine hleaf { root, tree := some (.file root info.mtime), capturedAt } ?_ rfl rfl ?_ ?_
      · rw [hnext, hanswer]
        unfold afterRoot
        dsimp only
        rw [if_neg hdirectory]
        rfl
      · rw [Bool.not_eq_true] at hdirectory
        rw [htop, hdirectory]
        have hself := Snapshot.get?_down { root, tree := some (.file root info.mtime), capturedAt } []
        rw [Path.down_nil] at hself
        rw [hself]
        rfl
      · rintro tree ⟨⟩
        rfl

/-- Answers of a tree that changes: of three members the second is gone before it is looked at, and the third, which was
seen as a directory, is a file when it is to be listed. The first still is a directory and holds one file. -/
def shifting : System
  | 0, .stat _ => .ok ⟨true, 1, none⟩
  | 1, .list _ => .ok ["a", "b", "c"]
  | 2, .member _ => .ok ⟨true, 2, none⟩
  | 4, .member _ => .ok ⟨true, 3, none⟩
  | 5, .list path => .error (.system ⟨.notDirectory, path⟩)
  | 6, .list _ => .ok ["x"]
  | 7, .member _ => .ok ⟨false, 4, none⟩
  | _, call => .error (.system ⟨.noEntry, call.path⟩)

/-- This system answers as one may. -/
theorem genuine_shifting : shifting.Genuine where
  refuses := by
    intro n call e h
    unfold shifting at h
    split at h <;> cases h <;> exact ⟨_, rfl⟩
  answered := by
    intro n call
    have hthree : Proper ["a", "b", "c"] := by decide
    have hone : Proper ["x"] := by decide
    unfold shifting
    split <;> first | exact answered_error _ _ | assumption | trivial

/-- The capture ends with a snapshot. It shows two directories, of which the one that became a file has no children, and
nothing of the member that was gone. -/
theorem snapshot_of_answers_shifting : ∃ n snapshot,
    ((told shifting { root := ⟨.root, ["w"]⟩, patterns := [], capturedAt := 9 }) n).next = .stop (.ok snapshot) ∧
      snapshot.WellFormed ∧
      (snapshot.get? ⟨.root, ["w"]⟩).map (fun e => seenIn e.children) = some [("a", ⟨true, 2⟩), ("c", ⟨true, 3⟩)] ∧
      (snapshot.get? ⟨.root, ["w", "a"]⟩).map (fun e => seenIn e.children) = some [("x", ⟨false, 4⟩)] ∧
      (snapshot.get? ⟨.root, ["w", "c"]⟩).map (fun e => seenIn e.children) = some [] := by
  let c : Capture := { root := ⟨.root, ["w"]⟩, patterns := [], capturedAt := 9 }
  have hfinite : {d | ∃ m, (c.told shifting m).listing? = some d}.Finite :=
    finite_of_stop (n := 8) rfl
  obtain ⟨n, snapshot, hstop, hrenders⟩ := snapshot_of_answers genuine_shifting ⟨.root, ["w"]⟩ [] 9 hfinite
  refine ⟨n, snapshot, hstop, hrenders.wellFormed, ?_, ?_, ?_⟩
  · obtain ⟨e, he, -, hchildren⟩ := hrenders.listed 1 _ rfl
    exact he ▸ congrArg some hchildren
  · obtain ⟨e, he, -, hchildren⟩ := hrenders.listed 6 ⟨.root, ["w", "a"]⟩ rfl
    exact he ▸ congrArg some hchildren
  · obtain ⟨e, he, -, hchildren⟩ := hrenders.listed 5 ⟨.root, ["w", "c"]⟩ rfl
    exact he ▸ congrArg some hchildren

end Capture

end DirWatch
