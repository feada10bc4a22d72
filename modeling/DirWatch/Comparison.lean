import DirWatch.Change

/-!
# Comparison of snapshots

`Snapshot.diff` compares a baseline with a newer snapshot of the same root, name by name below the root:

* a name that is only in the newer one is added. Its contents are left out of the next baseline, so the next comparison
  reports them, one level at a time;
* a name that is only in the older one is removed, with everything below it;
* a file that became a directory, or the other way round, is modified, and what was below it is removed;
* a file with another time is modified;
* a directory on both sides is compared in turn, and its own time does not matter.

The comparison descends into directories with a stack of frames. A frame holds the names still to compare in one
directory and the children kept so far; when no name is left, the directory joins the kept children of the frame below.
-/

namespace DirWatch

namespace Comparison

/-- How one name stands in the two directories compared. -/
inductive Side where
  | before (old : Entry)
  | after (new : Entry)
  | both (old new : Entry)

/-- Puts two listings in name order beside each other. -/
def align : Listing Entry → Listing Entry → Listing Side
  | [], new => new.map fun (name, e) => (name, .after e)
  | old, [] => old.map fun (name, e) => (name, .before e)
  | (m, b) :: old, (n, a) :: new =>
    if m < n then (m, .before b) :: align old ((n, a) :: new)
    else if n < m then (n, .after a) :: align ((m, b) :: old) new
    else (n, .both b a) :: align old new
termination_by old new => old.length + new.length

/-- The children of two entries beside each other. Without an older entry every child is new. -/
def sides (old : Option Entry) (new : Entry) : Listing Side :=
  align (Listing.sorted ((old.map Entry.children).getD [])) (Listing.sorted new.children)

/-- One directory under comparison. -/
structure Frame where
  /-- The name under which the directory is kept in the frame below. -/
  name : String
  /-- The newer entry of the directory. -/
  entry : Entry
  /-- The names still to compare. -/
  waiting : Listing Side
  /-- The children kept so far, the latest first. -/
  kept : Listing Entry

/-- A comparison under way: the directory in work, those around it, and the changes found, the latest first. -/
structure State where
  top : Frame
  below : List Frame
  found : List Change

/-- The removal of an entry and of everything below it, from the top down. -/
def removals (e : Entry) : List Change :=
  ⟨.removed, e.path⟩ :: e.walk.map fun d => ⟨.removed, d.path⟩

/-- The number of entries that a side still has to show. -/
def Side.weight : Side → Nat
  | before old => old.size
  | after new => new.size
  | both old new => old.size + new.size

def weightAll : Listing Side → Nat
  | [] => 0
  | (_, s) :: rest => s.weight + weightAll rest

/-- What a frame still has to do: each of its sides, and the return to the frame below. -/
def Frame.weight (f : Frame) : Nat :=
  1 + weightAll f.waiting

def weightBelow : List Frame → Nat
  | [] => 0
  | f :: fs => f.weight + weightBelow fs

def State.weight (s : State) : Nat :=
  s.top.weight + weightBelow s.below

/-- The new entries weigh as much as their trees are large. -/
theorem weightAll_after (new : Listing Entry) :
    weightAll (new.map fun (name, e) => (name, .after e)) = Entry.sizeAll new := by
  induction new with
  | nil => simp [weightAll, Entry.sizeAll]
  | cons p rest ih =>
    simp only [List.map_cons, weightAll, Entry.sizeAll, Side.weight]
    rw [ih]

/-- So do the old ones. -/
theorem weightAll_before (old : Listing Entry) :
    weightAll (old.map fun (name, e) => (name, .before e)) = Entry.sizeAll old := by
  induction old with
  | nil => simp [weightAll, Entry.sizeAll]
  | cons p rest ih =>
    simp only [List.map_cons, weightAll, Entry.sizeAll, Side.weight]
    rw [ih]

/-- Aligning two listings loses no entry. -/
theorem weightAll_align (old new : Listing Entry) :
    weightAll (align old new) = Entry.sizeAll old + Entry.sizeAll new := by
  fun_induction align old new with
  | case1 new => rw [weightAll_after]; simp [Entry.sizeAll]
  | case2 old => rw [weightAll_before]; simp [Entry.sizeAll]
  | case3 m b old n a new h ih => simp only [weightAll, Side.weight, Entry.sizeAll, ih]; omega
  | case4 m b old n a new h h' ih => simp only [weightAll, Side.weight, Entry.sizeAll, ih]; omega
  | case5 m b old n a new h h' ih => simp only [weightAll, Side.weight, Entry.sizeAll, ih]; omega

/-- Two directories beside each other weigh more than the names in them. -/
theorem weightAll_sides (old new : Entry) :
    weightAll (sides (some old) new) + 2 ≤ old.size + new.size := by
  have h₁ := Entry.sizeAll_sorted old.children
  have h₂ := Entry.sizeAll_sorted new.children
  rw [sides, weightAll_align, old.size_eq, new.size_eq]
  simp only [Option.map_some, Option.getD_some]
  omega

theorem size_pos (e : Entry) : 0 < e.size := by
  rw [e.size_eq]
  omega

/-- Runs a comparison to its end: the changes found, the latest first, and the entry to keep for the directory at the
bottom of the stack. -/
def finish : State → List Change × Entry
  | ⟨⟨name, entry, [], kept⟩, below, found⟩ =>
    let done := entry.withChildren kept.reverse
    match below with
    | [] => (found, done)
    | f :: fs => finish ⟨{ f with kept := (name, done) :: f.kept }, fs, found⟩
  | ⟨⟨name, entry, (_, .before old) :: waiting, kept⟩, below, found⟩ =>
    finish ⟨⟨name, entry, waiting, kept⟩, below, (removals old).reverse ++ found⟩
  | ⟨⟨name, entry, (n, .after new) :: waiting, kept⟩, below, found⟩ =>
    finish ⟨⟨name, entry, waiting, (n, new.withoutChildren) :: kept⟩, below, ⟨.added, new.path⟩ :: found⟩
  | ⟨⟨name, entry, (n, .both old new) :: waiting, kept⟩, below, found⟩ =>
    if old.kind ≠ new.kind then
      finish ⟨⟨name, entry, waiting, (n, new.withoutChildren) :: kept⟩, below,
        (old.walk.map fun d => ⟨.removed, d.path⟩).reverse ++ ⟨.modified, new.path⟩ :: found⟩
    else if new.isDirectory then
      finish ⟨⟨n, new, sides (some old) new, []⟩, ⟨name, entry, waiting, kept⟩ :: below, found⟩
    else if old.mtime ≠ new.mtime then
      finish ⟨⟨name, entry, waiting, (n, new) :: kept⟩, below, ⟨.modified, new.path⟩ :: found⟩
    else finish ⟨⟨name, entry, waiting, (n, new) :: kept⟩, below, found⟩
termination_by s => s.weight
decreasing_by
  · simp only [State.weight, Frame.weight, weightAll, weightBelow]; omega
  · have := size_pos old
    simp only [State.weight, Frame.weight, weightAll, Side.weight]; omega
  · have := size_pos new
    simp only [State.weight, Frame.weight, weightAll, Side.weight]; omega
  · have := size_pos new
    simp only [State.weight, Frame.weight, weightAll, Side.weight]; omega
  · have := weightAll_sides old new
    simp only [State.weight, Frame.weight, weightAll, Side.weight, weightBelow]; omega
  · have := size_pos new
    simp only [State.weight, Frame.weight, weightAll, Side.weight]; omega
  · have := size_pos new
    simp only [State.weight, Frame.weight, weightAll, Side.weight]; omega

/-- The changes below two entries of one path, and the newer entry as the next comparison should find it. -/
def run (old : Option Entry) (new : Entry) : List Change × Entry :=
  let (found, kept) := finish ⟨⟨"", new, sides old new, []⟩, [], []⟩
  (found.reverse, kept)

end Comparison

/-- Compares a baseline with a newer snapshot of the same root. Without a baseline, or when its root was missing,
everything is new. -/
def Snapshot.diff (old : Option Snapshot) (new : Snapshot) : Change.Report :=
  let before := old.bind (·.tree)
  match new.tree with
  | none =>
    { changes := match before with
        | none => []
        | some tree => tree.walk.map fun d => ⟨.removed, d.path⟩
      baseline := new }
  | some tree =>
    let (changes, kept) := Comparison.run before tree
    { changes, baseline := { new with tree := some kept } }

end DirWatch
