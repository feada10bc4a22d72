import DirWatch.Disk
import DirWatch.Path

/-!
# Canonical paths

A resolution turns a path into the absolute path, free of links and of the names `.` and `..`, that names the same place.
It visits the names from left to right and asks about each one: a link is replaced by its target, `..` drops the name
before it, and whatever cannot be looked at stands for itself. When a link leads back to itself, the rest stays as it is
written. At the end it asks for the object at the result once, because only a call on the whole path tells that the
links lead in a circle.

A resolution is a value like a capture: `Resolution.next` says what it asks and how it goes on.
-/

namespace DirWatch

/-- Why a resolution fails. -/
inductive ResolutionError where
  | call (e : CallError)
  /-- The links of the path lead in a circle. -/
  | linkLoop (path : Path)
  deriving DecidableEq, Repr, Inhabited

namespace Resolution

/-- The text of a path, the relative path without names being empty. -/
def plainText (p : Path) : String :=
  if p.anchor = .relative ∧ p.names = [] then "" else toString p

/-- A text seen from a directory: an absolute text stands for itself. -/
def joinText (directory text : String) : String :=
  if text.toList.head? = some '/' then text
  else if directory.isEmpty || directory.toList.getLast? = some '/' then directory ++ text
  else directory ++ "/" ++ text

/-- Adds a component to names read so far, the latest first: `..` drops the name before it, and at the root nothing. -/
def pushComponent (isAbsolute : Bool) (names : List String) (part : String) : List String :=
  if part = "" || part = "." then names
  else if part = ".." then
    match names with
    | [] => if isAbsolute then [] else [".."]
    | name :: rest => if name = ".." then ".." :: names else rest
  else part :: names

/-- The components of a text between its slashes, the empty ones too. -/
def components (s : List Char) : List String :=
  (Text.split '/' s).map String.ofList

/-- Reads a text and removes `..` together with the name before it. -/
def collapse (s : String) : Path :=
  let anchor := Anchor.ofChars s.toList
  ⟨anchor, ((components s.toList).foldl (pushComponent (anchor ≠ .relative)) []).reverse⟩

/-- The absolute path of a text seen from the current directory. -/
def absolute (cwd text : String) : Path :=
  collapse (joinText cwd text)

/-- The names of `path`, a name that follows it dropped by `..`. -/
def up (p : Path) : Path :=
  match p.names.getLast? with
  | none => if p.isAbsolute then p else ⟨p.anchor, [".."]⟩
  | some name => if name = ".." then ⟨p.anchor, p.names ++ [".."]⟩ else ⟨p.anchor, p.names.dropLast⟩

/-- The text of components still to visit. -/
def restText (rest : List String) : String :=
  "/".intercalate rest

/-- A link whose target is being resolved: its path, and the components after it. -/
structure Pending where
  link : Path
  rest : List String
  deriving Inhabited, Repr

inductive Phase where
  /-- The object named by one more component is to be looked at. -/
  | name (path : Path) (rest : List String) (outer : List Pending) (known : List (Path × Option Path))
  /-- The result is to be looked at. -/
  | check (path : Path)
  | done (outcome : Except ResolutionError Path)
  deriving Inhabited

/-- Goes on from the path resolved so far to the next component that names something, if there is one. -/
def skip (path : Path) : List String → Path × List String
  | [] => (path, [])
  | part :: rest =>
    if part = "" || part = "." then skip path rest
    else if part = ".." then skip (up path) rest
    else (path, part :: rest)

/-- Goes on to the next component that names something, out of the targets that are resolved, and at last to the result.
`known` holds the links met, with their resolution once it is known. -/
def visit (cwd : String) (path : Path) (rest : List String) (outer : List Pending)
    (known : List (Path × Option Path)) : Phase :=
  match skip path rest, outer with
  | (path, part :: rest), _ => .name ⟨path.anchor, path.names ++ [part]⟩ rest outer known
  | (path, []), [] => .check (absolute cwd (plainText path))
  | (path, []), p :: outer => visit cwd path p.rest outer ((p.link, some path) :: known)

/-- The result when a link leads back to itself: the components left over stay as they are. -/
def giveUp (cwd : String) (path : Path) (rest : List String) (outer : List Pending) : Phase :=
  .check (absolute cwd
    ((rest :: outer.map (·.rest)).foldl (fun text rest => joinText text (restText rest)) (plainText path)))

end Resolution

/-- A resolution under way. -/
structure Resolution where
  phase : Resolution.Phase
  deriving Inhabited

namespace Resolution

/-- The resolution of a path. -/
def start (cwd : String) (p : Path) : Resolution :=
  ⟨visit cwd ⟨if p.isAbsolute then .root else .relative, []⟩ p.names [] []⟩

/-- What a resolution does next. -/
inductive Next where
  | ask (call : Call) (resume : Except CallError call.Result → Resolution)
  | stop (outcome : Except ResolutionError Path)

/-- Goes on after looking at the object at `path`. -/
def afterName (cwd : String) (path : Path) (rest : List String) (outer : List Pending)
    (known : List (Path × Option Path)) : Except CallError Info → Resolution
  | .error (.system _) => ⟨visit cwd path rest outer known⟩
  | .error e => ⟨.done (.error (.call e))⟩
  | .ok info =>
    match info.target with
    | none => ⟨visit cwd path rest outer known⟩
    | some target =>
      match known.lookup path with
      | some (some resolved) => ⟨visit cwd resolved rest outer known⟩
      | some none => ⟨giveUp cwd path rest outer⟩
      | none =>
        let outer := ⟨path, rest⟩ :: outer
        let known := (path, none) :: known
        match target.toList with
        | '/' :: target => ⟨visit cwd ⟨.root, []⟩ (components target) outer known⟩
        | target => ⟨visit cwd ⟨path.anchor, path.names.dropLast⟩ (components target) outer known⟩

/-- Goes on after looking at the result: only a circle of links is an error. -/
def afterCheck (path : Path) : Except CallError Info → Resolution
  | .ok _ => ⟨.done (.ok path)⟩
  | .error (.system e) =>
    if e.reason = .tooManyLinks then ⟨.done (.error (.linkLoop path))⟩ else ⟨.done (.ok path)⟩
  | .error e => ⟨.done (.error (.call e))⟩

/-- What a resolution does next, given the current directory. -/
def next (cwd : String) (r : Resolution) : Next :=
  match r.phase with
  | .name path rest outer known => .ask (.lstat (toString path)) (afterName cwd path rest outer known)
  | .check path => .ask (.stat (toString path)) (afterCheck path)
  | .done outcome => .stop outcome

end Resolution

end DirWatch
