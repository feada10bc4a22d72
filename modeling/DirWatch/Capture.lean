import DirWatch.Disk
import DirWatch.Glob
import DirWatch.Notice
import DirWatch.Snapshot

/-!
# Captures

A capture asks the operating system one question at a time and ends with a snapshot. It looks at the root; then it lists
one directory after another, the most recently found first, and looks at every member that no pattern excludes. A
directory that cannot be listed is left without children and a member that cannot be looked at is left out, so a tree
that changes meanwhile does no harm. When nothing is left to list, the entries are put together from the last listing
back to the first, each directory after everything below it.

A capture is a value. `Capture.next` says what it asks and how it goes on with the answer, so other things can happen
between two questions.
-/

namespace DirWatch

/-- What a listing records of a member. -/
structure Seen where
  isDirectory : Bool
  mtime : Int
  deriving DecidableEq, Repr, Inhabited

/-- Why a capture ends without a snapshot. -/
inductive CaptureError where
  | call (e : CallError)
  /-- A directory was recorded and never listed. -/
  | unlisted (directory : Path)
  deriving DecidableEq, Repr, Inhabited

namespace Capture

/-- The text of the path of a member, from the text of its directory. -/
def memberText (directory name : String) : String :=
  if directory.toList.getLast? = some '/' then directory ++ name else directory ++ "/" ++ name

/-- What a walk below a root has done and what it has still to do. -/
structure Walk where
  /-- The time of the root. -/
  mtime : Int
  /-- Directories still to list, the next one first. -/
  pending : List Path := []
  /-- Directories listed and what was seen in them, the latest first. -/
  listed : List (Path × Listing Seen) := []
  deriving Inhabited

inductive Phase where
  /-- The root is to be looked at. -/
  | root
  /-- A directory is to be listed. -/
  | list (directory : Path) (walk : Walk)
  /-- A member is to be looked at. The members seen so far come latest first. -/
  | member (directory : Path) (name : String) (waiting : List String) (seen : Listing Seen) (walk : Walk)
  | done (outcome : Except CaptureError Snapshot)
  deriving Inhabited

end Capture

/-- A capture under way. -/
structure Capture where
  root : Path
  patterns : List String
  capturedAt : Int
  phase : Capture.Phase := .root
  deriving Inhabited

namespace Capture

/-- Takes the children of a directory from those put together before. -/
def take? (directory : Path) : List (Path × Listing Entry) → Option (Listing Entry × List (Path × Listing Entry))
  | [] => none
  | (path, children) :: rest =>
    if path = directory then some (children, rest)
    else (take? directory rest).map fun (found, others) => (found, (path, children) :: others)

/-- The entries of one listing. The children of its directories are taken from those put together before. -/
def buildListing (directory : Path) :
    Listing Seen → List (Path × Listing Entry) → Except CaptureError (Listing Entry × List (Path × Listing Entry))
  | [], built => .ok ([], built)
  | (name, seen) :: rest, built =>
    let path := directory.child name
    if seen.isDirectory then
      match take? path built with
      | none => .error (.unlisted path)
      | some (children, built) =>
        (buildListing directory rest built).map fun (entries, built) =>
          ((name, .directory path seen.mtime children) :: entries, built)
    else
      (buildListing directory rest built).map fun (entries, built) => ((name, .file path seen.mtime) :: entries, built)

/-- Puts the listings together, from the latest to the first. -/
def build : List (Path × Listing Seen) → List (Path × Listing Entry) →
    Except CaptureError (List (Path × Listing Entry))
  | [], built => .ok built
  | (directory, seen) :: rest, built =>
    match buildListing directory seen built with
    | .error e => .error e
    | .ok (children, built) => build rest ((directory, children) :: built)

/-- The snapshot of a root that is a directory. -/
def assemble (root : Path) (capturedAt : Int) (walk : Walk) : Except CaptureError Snapshot :=
  match build walk.listed [] with
  | .error e => .error e
  | .ok built =>
    match take? root built with
    | none => .error (.unlisted root)
    | some (children, _) => .ok { root, tree := some (.directory root walk.mtime children), capturedAt }

/-- Ends a capture. -/
def finish (c : Capture) (outcome : Except CaptureError Snapshot) : Capture :=
  { c with phase := .done outcome }

/-- Goes on to the next directory, or to the end. -/
def descend (c : Capture) (walk : Walk) : Capture :=
  match walk.pending with
  | [] => c.finish (assemble c.root c.capturedAt walk)
  | directory :: pending => { c with phase := .list directory { walk with pending } }

/-- Goes on to the next member of a directory, or leaves the directory with what was seen, the latest first. The
directories among its members are listed before all others, the last of them first. -/
def examine (c : Capture) (directory : Path) (waiting : List String) (seen : Listing Seen) (walk : Walk) : Capture :=
  match waiting with
  | name :: waiting => { c with phase := .member directory name waiting seen walk }
  | [] =>
    let below := (seen.filter fun m => m.2.isDirectory).map fun m => directory.child m.1
    c.descend { walk with pending := below ++ walk.pending, listed := (directory, seen.reverse) :: walk.listed }

/-- Whether the patterns leave a member out. -/
def isExcluded (c : Capture) (directory : Path) (name : String) : Bool :=
  Glob.excludes c.patterns name (memberText (toString directory) name)

/-- What a capture does next. -/
inductive Next where
  /-- It asks a question; the answer gives the capture that goes on and what it reports. -/
  | ask (call : Call) (resume : Except CallError call.Result → Capture × List Notice)
  | stop (outcome : Except CaptureError Snapshot)

/-- Goes on after looking at the root. -/
def afterRoot (c : Capture) : Except CallError Info → Capture × List Notice
  | .error (.system e) =>
    (c.finish (.ok { root := c.root, capturedAt := c.capturedAt }), [.rootUnavailable c.root e])
  | .error e => (c.finish (.error (.call e)), [])
  | .ok info =>
    if info.isDirectory then ({ c with phase := .list c.root { mtime := info.mtime } }, [])
    else (c.finish (.ok { root := c.root, tree := some (.file c.root info.mtime), capturedAt := c.capturedAt }), [])

/-- Goes on after listing a directory. -/
def afterList (c : Capture) (directory : Path) (walk : Walk) : Except CallError (List String) → Capture × List Notice
  | .error (.system e) => (c.examine directory [] [] walk, [.directoryUnreadable directory e])
  | .error e => (c.finish (.error (.call e)), [])
  | .ok names => (c.examine directory (names.filter fun name => !c.isExcluded directory name) [] walk, [])

/-- Goes on after looking at a member. -/
def afterMember (c : Capture) (directory : Path) (name : String) (waiting : List String) (seen : Listing Seen)
    (walk : Walk) : Except CallError Info → Capture × List Notice
  | .error (.system _) => (c.examine directory waiting seen walk, [])
  | .error e => (c.finish (.error (.call e)), [])
  | .ok info => (c.examine directory waiting ((name, ⟨info.isDirectory, info.mtime⟩) :: seen) walk, [])

def next (c : Capture) : Next :=
  match c.phase with
  | .root => .ask (.stat (toString c.root)) c.afterRoot
  | .list directory walk => .ask (.list (toString directory)) (c.afterList directory walk)
  | .member directory name waiting seen walk =>
    .ask (.member (memberText (toString directory) name)) (c.afterMember directory name waiting seen walk)
  | .done outcome => .stop outcome

end Capture

end DirWatch
