import DirWatch.Session.Attach

/-!
# Roots of a watcher

A root can be given as any value. It has to be a path, a `~` at its start stands for the home directory of a user, and it
is resolved to its canonical path before anything else is done with it. A root to be watched has to be a directory.
-/

namespace DirWatch.Session

/-- The path that a root stands for. -/
def pathOf (root : RootArgument) : Except Failure Path :=
  match root with
  | .path p => .ok p
  | .value (.text s) => .ok (Path.ofString s)
  | .value (.bytes _) => .error .bytesPath
  | .value v => .error (.notAPath v)

/-- A home directory without the slashes at its end. -/
def homeText (home : String) : String :=
  let trimmed := (home.toList.reverse.dropWhile (· = '/')).reverse
  if trimmed.isEmpty then "/" else String.ofList trimmed

/-- Replaces a `~` at the start of a path, and the name of a user behind it, by the home directory of that user. -/
def expandHome (homes : Homes) (p : Path) : Except Failure Path :=
  match p.anchor, p.names with
  | .relative, name :: names =>
    match name.toList with
    | '~' :: user =>
      if '\x00' ∈ user then .error .nulCharacter
      else
        match homes.find? (String.ofList user) with
        | none => .error .noHome
        | some home =>
          let home := homeText home
          if home.toList.head? = some '~' then .error .noHome
          else .ok (names.foldl Path.child (Path.ofString home))
    | _ => .ok p
  | _, _ => .ok p

/-- The path to resolve for a root. -/
def rootPath (s : Session) (root : RootArgument) : Except Failure Path := do
  expandHome s.homes (← pathOf root)

/-- Begins to resolve a path. -/
def beginResolution (s : Session) (p : Path) (purpose : ResolutionPurpose) : Session :=
  s.push (.resolving (.start s.disk.cwd p) purpose false)

/-- What a caller of `watch` is told when its root cannot be resolved. -/
def watchFailure (root : RootArgument) (f : Failure) : Failure :=
  match f with
  | .notAPath _ | .bytesPath | .system _ => .badRoot root f
  | f => f

/-- Whether a root is given as nothing at all. -/
def isEmptyRoot : RootArgument → Bool
  | .value .null => true
  | .value (.text "") => true
  | _ => false

/-- Whether the watcher is running, and if not, what a caller is told. -/
def requireRunning (s : Session) (operation : String) : Except Failure Unit :=
  if s.watcher.state = .running then .ok ()
  else .error (.notRunning operation s.watcher.name s.watcher.state)

/-- Begins to watch a root. -/
def beginWatch (s : Session) (root : RootArgument) (observer : Observer) (label : String) : Session :=
  match s.requireRunning "watch_path" with
  | .error f => s.fail f
  | .ok () =>
    if !observer.isCallable then s.fail (.notCallable observer)
    else if isEmptyRoot root then s.fail .emptyRoot
    else
      match s.rootPath root with
      | .error f => s.fail (watchFailure root f)
      | .ok p => s.beginResolution p (.watch root observer label)

/-- Begins to end the watch of a root by an observer. -/
def beginUnwatch (s : Session) (root : RootArgument) (observer : Observer) : Session :=
  match s.requireRunning "unwatch_path" with
  | .error f => s.fail f
  | .ok () =>
    match s.rootPath root with
    | .error f => s.fail f
    | .ok p => s.beginResolution p (.unwatch observer)

/-- Begins to count the observers of a root. -/
def beginCount (s : Session) (root : RootArgument) : Session :=
  match s.rootPath root with
  | .error f => s.fail f
  | .ok p => s.beginResolution p .count

/-- Goes on when a root has been resolved. -/
def resolved (s : Session) (purpose : ResolutionPurpose) (outcome : Except ResolutionError Path) : Session :=
  match purpose, outcome.mapError Failure.ofResolution with
  | .watch root _ _, .error f => s.fail (watchFailure root f)
  | _, .error f => s.fail f
  | .watch _ observer label, .ok path => s.push (.probing path observer label false)
  | .unwatch observer, .ok path =>
    let hs := s.table.attachments path observer
    ((s.cancelHandles hs).notice (.watchUnregistered s.watcher.name path hs.length)).done
  | .count, .ok path => s.reply (.ok (.count (s.table.observerCount path)))
  | .caller, .ok path => s.reply (.ok (.path path))

/-- Goes on when a root to be watched has been looked at. -/
def probed (s : Session) (path : Path) (observer : Observer) (label : String) : Except CallError Info → Session
  | .ok info =>
    if info.isDirectory then s.beginAttach path observer label .watch else s.fail (.noDirectory path)
  | .error (.system e) => if e.reason.meansAbsent then s.fail (.noDirectory path) else s.fail (.system e)
  | .error .nulCharacter => s.fail (.noDirectory path)
  | .error .injected => s.fail .injectedFault

end DirWatch.Session
