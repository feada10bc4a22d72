import DirWatch.Capture
import DirWatch.Resolution
import DirWatch.Settings

/-!
# Failures

Every way in which an operation of the watcher can end without a result, and what is said about it. A failure is either
an ordinary one, which whoever delivers changes or runs ticks survives, or it ends everything up to the outermost call
(`Failure.isFatal`).
-/

namespace DirWatch

/-- Where a watcher is in its life. -/
inductive WatcherState where
  | created
  | running
  | closed
  deriving DecidableEq, Repr, Inhabited

/-- The word for a state. -/
def WatcherState.text : WatcherState → String
  | created => "created"
  | running => "running"
  | closed => "closed"

/-- A root as a caller gives it: a path, or any value. -/
inductive RootArgument where
  | value (v : Value)
  | path (p : Path)
  deriving Inhabited, Repr

/-- The root as messages show it. -/
def RootArgument.shown : RootArgument → String
  | value v => v.shown
  | path p => "PosixPath(" ++ Text.quoted (toString p) ++ ")"

/-- An operation that can be made to fail. -/
inductive Operation where
  | stop
  | clear
  | registrations
  deriving DecidableEq, Repr, Inhabited

def Operation.text : Operation → String
  | stop => "stop"
  | clear => "clear"
  | registrations => "registrations"

/-- Why an operation failed. -/
inductive Failure where
  | system (e : OsError)
  | nulCharacter
  | injectedFault
  | injected (operation : Operation)
  | unlisted (directory : Path)
  | linkLoop (path : Path)
  | noHome
  | notAPath (v : Value)
  | bytesPath
  | notPositive (name : String) (v : Value)
  | notCallable (observer : Observer)
  | emptyRoot
  | badRoot (root : RootArgument) (cause : Failure)
  | noDirectory (path : Path)
  | notRunning (operation : String) (name : Value) (state : WatcherState)
  | isClosed (name : Value)
  | closedMeanwhile (name : Value)
  | poolShut
  | noWorkers
  | intervalTooLarge
  | observerBug
  | observerAbort
  | settings (e : Settings.Error)
  deriving Inhabited, Repr

namespace Failure

/-- A fatal failure passes through deliveries, polls and loops alike. -/
def isFatal : Failure → Bool
  | observerAbort => true
  | _ => false

/-- Whether the watcher itself reports the failure to its caller, about a wrong use. -/
def isUsage : Failure → Bool
  | notPositive .. | notCallable _ | emptyRoot | badRoot .. | noDirectory _ | notRunning .. | isClosed _
  | closedMeanwhile _ => true
  | _ => false

def message : Failure → String
  | system e => e.message
  | nulCharacter => "embedded null byte"
  | injectedFault => "injected fault"
  | injected operation => "injected " ++ operation.text
  | unlisted directory => (RootArgument.path directory).shown
  | linkLoop path => "Symlink loop from " ++ Text.quoted (toString path)
  | noHome => "Could not determine home directory."
  | notAPath v => "expected str, bytes or os.PathLike object, not " ++ v.typeName
  | bytesPath => "argument should be a str object or an os.PathLike object returning str, not <class 'bytes'>"
  | notPositive name v => name ++ " must be a positive integer, got " ++ v.shown
  | notCallable observer => "observer must be callable, got " ++ observer.shown
  | emptyRoot => "root path must not be empty"
  | badRoot root cause => "invalid root path " ++ root.shown ++ ": " ++ cause.message
  | noDirectory path => "root path is not an existing directory: " ++ toString path
  | notRunning operation name state =>
    operation ++ " requires a running watcher, " ++ name.shown ++ " is " ++ state.text
  | isClosed name => "watcher " ++ name.shown ++ " is closed"
  | closedMeanwhile name => "watcher " ++ name.shown ++ " closed during watch_path"
  | poolShut => "cannot schedule new futures after shutdown"
  | noWorkers => "max_workers must be greater than 0"
  | intervalTooLarge => "int too large to convert to float"
  | observerBug => "observer bug"
  | observerAbort => "observer abort"
  | settings e => e.message

def ofCall : CallError → Failure
  | .system e => system e
  | .nulCharacter => nulCharacter
  | .injected => injectedFault

def ofCapture : CaptureError → Failure
  | .call e => ofCall e
  | .unlisted directory => unlisted directory

def ofResolution : ResolutionError → Failure
  | .call e => ofCall e
  | .linkLoop path => linkLoop path

end Failure

end DirWatch
