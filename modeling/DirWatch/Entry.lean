import DirWatch.Listing
import DirWatch.Path

/-!
# Entries

An entry records one file or directory at one instant: its path, its kind, the time of its last modification, and its
children by name. `Entry.walk` lists the descendants of an entry, parents before children and siblings in name order. It
keeps the entries still to visit in a list of its own, so that depth costs no more than breadth.
-/

namespace DirWatch

/-- What an entry records. Everything that is not a directory counts as a file. -/
inductive Kind where
  | file
  | directory
  deriving DecidableEq, Repr, Inhabited

/-- The word for a kind. -/
def Kind.text : Kind → String
  | .file => "file"
  | .directory => "directory"

/-- One object of a tree, with everything below it. -/
inductive Entry where
  | mk (path : Path) (kind : Kind) (mtime : Int) (children : List (String × Entry))
  deriving Inhabited

namespace Entry

def path : Entry → Path
  | mk path _ _ _ => path

def kind : Entry → Kind
  | mk _ kind _ _ => kind

/-- The time of the last modification, in nanoseconds. -/
def mtime : Entry → Int
  | mk _ _ mtime _ => mtime

def children : Entry → Listing Entry
  | mk _ _ _ children => children

/-- A file: it has no children. -/
def file (path : Path) (mtime : Int) : Entry :=
  mk path .file mtime []

def directory (path : Path) (mtime : Int) (children : Listing Entry) : Entry :=
  mk path .directory mtime children

def isDirectory (e : Entry) : Bool :=
  e.kind = .directory

def child? (e : Entry) (name : String) : Option Entry :=
  Listing.get? e.children name

/-- The same entry with other children. -/
def withChildren (e : Entry) (children : Listing Entry) : Entry :=
  mk e.path e.kind e.mtime children

/-- The same entry without children. -/
def withoutChildren (e : Entry) : Entry :=
  e.withChildren []

mutual

/-- The number of entries from here down, this one included. -/
def size : Entry → Nat
  | mk _ _ _ children => 1 + sizeAll children

/-- The number of entries in a listing and below it. -/
def sizeAll : List (String × Entry) → Nat
  | [] => 0
  | (_, e) :: rest => e.size + sizeAll rest

end

theorem size_eq (e : Entry) : e.size = 1 + sizeAll e.children := by
  cases e
  rfl

theorem sizeAll_append (l r : List (String × Entry)) : sizeAll (l ++ r) = sizeAll l + sizeAll r := by
  induction l with
  | nil => simp [sizeAll]
  | cons p rest ih => simp only [List.cons_append, sizeAll, ih]; omega

theorem sizeAll_insert (name : String) (e : Entry) (l : Listing Entry) :
    sizeAll (Listing.insert name e l) ≤ e.size + sizeAll l := by
  induction l with
  | nil => simp [Listing.insert, sizeAll]
  | cons p rest ih =>
    obtain ⟨other, f⟩ := p
    simp only [Listing.insert]
    split
    · simp [sizeAll]
    · split <;> simp only [sizeAll] at * <;> omega

/-- Sorting drops entries at most. -/
theorem sizeAll_sorted (l : Listing Entry) : sizeAll (Listing.sorted l) ≤ sizeAll l := by
  induction l with
  | nil => simp [Listing.sorted, sizeAll]
  | cons p rest ih =>
    obtain ⟨name, e⟩ := p
    have := sizeAll_insert name e (Listing.sorted rest)
    simp only [Listing.sorted, sizeAll]
    omega

/-- Lists the waiting entries and everything below them: the first one, then its children before the others. -/
def walkAll : Listing Entry → List Entry
  | [] => []
  | (_, e) :: waiting => e :: walkAll (Listing.sorted e.children ++ waiting)
termination_by waiting => sizeAll waiting
decreasing_by
  have := sizeAll_sorted e.children
  simp only [sizeAll, sizeAll_append, size_eq]
  omega

/-- Every descendant, depth first, children in name order. -/
def walk (e : Entry) : List Entry :=
  walkAll (Listing.sorted e.children)

end Entry

end DirWatch
