import DirWatch.Entry.Edit

/-!
# Snapshots

A snapshot is what one capture saw of a watched root: the entry of the root, or none if the root was not there. The root
is looked up by its own path and every other entry by the names that lead to it, whatever paths the entries carry.
-/

namespace DirWatch

/-- A capture of one root and of everything below it. -/
structure Snapshot where
  root : Path
  tree : Option Entry := none
  capturedAt : Int := 0
  deriving Inhabited

namespace Snapshot

/-- Whether the root existed. -/
def isPresent (s : Snapshot) : Bool :=
  s.tree.isSome

/-- Every descendant of the root, in walk order. -/
def entries (s : Snapshot) : List Entry :=
  match s.tree with
  | none => []
  | some tree => tree.walk

/-- The number of descendants of the root. -/
def size (s : Snapshot) : Nat :=
  s.entries.length

/-- Follows names downwards from an entry. -/
def descend? : Entry → List String → Option Entry
  | e, [] => some e
  | e, name :: names =>
    match e.child? name with
    | none => none
    | some child => descend? child names

/-- The entry recorded for a path. -/
def get? (s : Snapshot) (path : Path) : Option Entry :=
  match s.tree with
  | none => none
  | some tree =>
    match s.root.namesBelow? path with
    | none => none
    | some names => descend? tree names

def contains (s : Snapshot) (path : Path) : Bool :=
  (s.get? path).isSome

instance : BEq Snapshot :=
  ⟨fun s t => s.root == t.root && s.tree == t.tree && s.capturedAt == t.capturedAt⟩

end Snapshot

end DirWatch
