import DirWatch.Snapshot
import DirWatch.Value

/-!
# Changes and observers

A change says that one path was added, modified or removed. Changes are ordered by path and then by the word for what
happened. `Change.Report` is the outcome of one comparison: its changes in the order in which they are delivered, and the
snapshot that the next comparison starts from.

An observer is what changes are delivered to. One with a name acts in its calls as its script says, and a printer prints
what it receives under a title. A plain value can stand in the place of an observer, but a call of it fails. Two named
observers are the same when their keys are; a name serves as the key unless another is given.
-/

namespace DirWatch

/-- What happened to a path. -/
inductive ChangeKind where
  | added
  | modified
  | removed
  deriving DecidableEq, Repr, Inhabited

namespace ChangeKind

/-- The word for a kind of change. -/
def text : ChangeKind → String
  | added => "added"
  | modified => "modified"
  | removed => "removed"

/-- The kind of change that a word names. -/
def ofText? : String → Option ChangeKind
  | "added" => some added
  | "modified" => some modified
  | "removed" => some removed
  | _ => none

/-- The message for a value that names no kind of change. -/
def unknownMessage (v : Value) : String :=
  v.shown ++ " is not a valid ChangeType"

end ChangeKind

/-- A change of one path. -/
structure Change where
  kind : ChangeKind
  path : Path
  deriving DecidableEq, Repr, Inhabited

namespace Change

/-- The change as a line of text. -/
protected def toString (c : Change) : String :=
  c.kind.text ++ " " ++ toString c.path

instance : ToString Change := ⟨Change.toString⟩

instance : LT Change :=
  ⟨fun a b => a.path < b.path ∨ a.path = b.path ∧ a.kind.text < b.kind.text⟩

instance (a b : Change) : Decidable (a < b) :=
  inferInstanceAs (Decidable (a.path < b.path ∨ a.path = b.path ∧ a.kind.text < b.kind.text))

/-- Orders two changes by path and then by the word for their kind. -/
protected def compare (a b : Change) : Ordering :=
  if a < b then .lt else if b < a then .gt else .eq

/-- The changes in increasing order. -/
def sort (changes : List Change) : List Change :=
  changes.mergeSort fun a b => a.compare b != .gt

/-- The outcome of comparing two snapshots. -/
structure Report where
  changes : List Change
  baseline : Snapshot

/-- A list without the paths that stand beside an equal one. -/
def mergeEqual : List Path → List Path
  | p :: q :: rest => if p = q then mergeEqual (q :: rest) else p :: mergeEqual (q :: rest)
  | paths => paths

/-- The paths with a change of one kind, each once and in increasing order. -/
def Report.paths (r : Report) (kind : ChangeKind) : List Path :=
  mergeEqual (((r.changes.filter (·.kind = kind)).map (·.path)).mergeSort fun p q => p.compare q != .gt)

def Report.hasChanges (r : Report) : Bool :=
  !r.changes.isEmpty

end Change

/-- What takes deliveries. -/
inductive Observer where
  | named (name : String) (key : Value)
  /-- A printer with a number of its own. -/
  | printer (number : Nat) (title : String)
  | plain (v : Value)
  deriving Inhabited, Repr

namespace Observer

/-- The observer as messages show it. -/
def shown : Observer → String
  | named name _ => "<obs " ++ name ++ ">"
  | printer _ title => "<printer " ++ title ++ ">"
  | plain v => v.shown

/-- The name under which the calls of an observer are known. -/
def name : Observer → String
  | named name _ => name
  | printer _ title => title
  | plain v => v.shown

def isCallable : Observer → Bool
  | named _ _ | printer _ _ => true
  | plain _ => false

/-- Whether two observers count as one. -/
def sameAs : Observer → Observer → Bool
  | named _ a, named _ b => a.sameAs b
  | printer m _, printer n _ => m == n
  | plain v, plain w => v.sameAs w
  | _, _ => false

end Observer

end DirWatch
