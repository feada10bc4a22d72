import DirWatch.Listing
import DirWatch.OsError
import DirWatch.Text.Split

/-!
# A tree of files

`Disk` is a file system in memory: files, directories and symbolic links below one root, and a current directory. A text
is resolved component by component from the root or from the current directory. Links are followed everywhere but at the
end, and there too if the caller asks; a text that needs more than forty links fails. `Disk.answer` gives the result of
each call that the rest of the library makes.
-/

namespace DirWatch

/-- An object of a file system. -/
inductive Node where
  | file (mtime : Int)
  | directory (children : List (String × Node)) (mtime : Int)
  | link (target : String) (mtime : Int)
  deriving Inhabited

namespace Node

def mtime : Node → Int
  | file m => m
  | directory _ m => m
  | link _ m => m

def setMtime (m : Int) : Node → Node
  | file _ => file m
  | directory children _ => directory children m
  | link target _ => link target m

/-- Changes the object at the end of a list of names; nothing happens if there is none. -/
def modifyAt (f : Node → Node) : List String → Node → Node
  | [], node => f node
  | name :: names, directory children m =>
    directory (children.map fun child => if child.1 == name then (child.1, modifyAt f names child.2) else child) m
  | _ :: _, node => node

/-- Puts a child into a directory, in the place of the child of that name. -/
def putChild (name : String) (child : Node) : Node → Node
  | directory children m => directory (Listing.insert name child children) m
  | node => node

/-- Takes a child out of a directory. -/
def removeChild (name : String) : Node → Node
  | directory children m => directory (Listing.erase children name) m
  | node => node

end Node

/-- What a call tells about an object. -/
structure Info where
  isDirectory : Bool
  mtime : Int
  /-- The target, if the object is a link. -/
  target : Option String := none
  deriving DecidableEq, Repr, Inhabited

def Node.info : Node → Info
  | file m => { isDirectory := false, mtime := m }
  | directory _ m => { isDirectory := true, mtime := m }
  | link target m => { isDirectory := false, mtime := m, target := some target }

/-- A call on the text of a path. -/
inductive Call where
  /-- The object at a path, links followed. -/
  | stat (path : String)
  /-- The object at a path itself, a link at the end not followed. -/
  | lstat (path : String)
  /-- The names in a directory. -/
  | list (path : String)
  /-- The object itself behind a name of a listing. -/
  | member (path : String)
  deriving DecidableEq, Repr, Inhabited

namespace Call

def path : Call → String
  | stat p | lstat p | list p | member p => p

/-- What a call gives when it succeeds. -/
def Result : Call → Type
  | stat _ | lstat _ | member _ => Info
  | list _ => List String

end Call

/-- A file system with a current directory. -/
structure Disk where
  root : Node
  cwd : String := "/"
  deriving Inhabited

namespace Disk

/-- The most links that one text may lead through. -/
def maxLinks : Nat := 40

/-- The object at the end of a trail: a list of objects with their names, the deepest first, that leads down from the
root. -/
def trailEnd (root : Node) : List (String × Node) → Node
  | [] => root
  | (_, node) :: _ => node

/-- Follows components from the end of a trail to the end or to the first link that is to be followed, where `jump` goes on
with the target, the trail and the components left. Every component but a name at the end has to start from a directory. -/
def advance (root : Node) (last : Bool)
    (jump : List Char → List (String × Node) → List (List Char) → Except Errno (List (String × Node)))
    (trail : List (String × Node)) : List (List Char) → Except Errno (List (String × Node))
  | [] => .ok trail
  | part :: rest =>
    match trailEnd root trail with
    | .directory children _ =>
      if part = [] ∨ part = ['.'] then advance root last jump trail rest
      else if part = ['.', '.'] then advance root last jump trail.tail rest
      else
        let name := String.ofList part
        match Listing.get? children name with
        | none => .error .noEntry
        | some (.link target m) =>
          if rest = [] ∧ !last then .ok ((name, .link target m) :: trail) else jump target.toList trail rest
        | some child => advance root last jump ((name, child) :: trail) rest
    | _ => .error .notDirectory

/-- Follows components from the end of a trail, through no more than a number of links. -/
def follow (root : Node) (last : Bool) :
    Nat → List (String × Node) → List (List Char) → Except Errno (List (String × Node))
  | 0 => advance root last fun _ _ _ => .error .tooManyLinks
  | links + 1 => advance root last fun target trail rest =>
    match target with
    | [] => .error .noEntry
    | '/' :: target => follow root last links [] (Text.split '/' target ++ rest)
    | target => follow root last links trail (Text.split '/' target ++ rest)

/-- A text as seen from the root. -/
def absoluteText (d : Disk) (path : String) : String :=
  if path.toList.head? = some '/' then path
  else if d.cwd.toList.getLast? = some '/' then d.cwd ++ path
  else d.cwd ++ "/" ++ path

/-- The place and the object that a text leads to. -/
def locate (d : Disk) (last : Bool) (path : String) : Except OsError (List String × Node) :=
  if path.isEmpty then .error ⟨.noEntry, path⟩
  else
    match follow d.root last maxLinks [] (Text.split '/' (d.absoluteText path).toList) with
    | .error reason => .error ⟨reason, path⟩
    | .ok trail => .ok ((trail.map (·.1)).reverse, trailEnd d.root trail)

/-- The result of a call. -/
def answer (d : Disk) (call : Call) : Except CallError call.Result :=
  if call.path.toList.contains '\x00' then .error .nulCharacter
  else
    match call with
    | .stat path =>
      match d.locate true path with
      | .error e => .error (.system e)
      | .ok (_, node) => .ok node.info
    | .lstat path | .member path =>
      match d.locate false path with
      | .error e => .error (.system e)
      | .ok (_, node) => .ok node.info
    | .list path =>
      match d.locate true path with
      | .error e => .error (.system e)
      | .ok (_, .directory children _) => .ok (Listing.names (Listing.sorted children))
      | .ok _ => .error (.system ⟨.notDirectory, path⟩)

/-! ## Changing the tree -/

/-- The text before the last slash of a path, and the name after it. -/
def splitName (path : String) : String × String :=
  let s := path.toList
  let name := (s.reverse.takeWhile (· != '/')).reverse
  let head := s.take (s.length - name.length)
  let trimmed := (head.reverse.dropWhile (· = '/')).reverse
  (String.ofList (if trimmed.isEmpty then head else trimmed), String.ofList name)

/-- The place of the directory that holds a path. The directory itself may not be a link. -/
def parent (d : Disk) (path : String) : Except OsError (List String × Listing Node) :=
  let above := (splitName path).1
  match d.locate false (if above.isEmpty then d.cwd else above) with
  | .error e => .error e
  | .ok (place, .directory children _) => .ok (place, children)
  | .ok _ => .error ⟨.notDirectory, above⟩

/-- Creates or replaces the object at a path. -/
def put (d : Disk) (path : String) (node : Node) : Except OsError Disk :=
  match d.parent path with
  | .error e => .error e
  | .ok (place, _) => .ok { d with root := d.root.modifyAt (Node.putChild (splitName path).2 node) place }

/-- Removes the object at a path. -/
def remove (d : Disk) (path : String) : Except OsError Disk :=
  match d.parent path with
  | .error e => .error e
  | .ok (place, children) =>
    let name := (splitName path).2
    match Listing.get? children name with
    | none => .error ⟨.noEntry, path⟩
    | some _ => .ok { d with root := d.root.modifyAt (Node.removeChild name) place }

/-- Gives the object at a path another time. -/
def touch (d : Disk) (path : String) (mtime : Int) : Except OsError Disk :=
  match d.locate false path with
  | .error e => .error e
  | .ok (place, _) => .ok { d with root := d.root.modifyAt (Node.setMtime mtime) place }

end Disk

end DirWatch
