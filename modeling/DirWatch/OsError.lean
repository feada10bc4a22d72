import DirWatch.Text.Quoted

/-!
# Errors of the operating system

A call on a path can fail for a reason that has a number, and the message names the path as it was given to the call. A
path with a NUL character never reaches the system, and a test can make a call fail in a way of its own.
-/

namespace DirWatch

/-- The reasons for which a call on a path fails. -/
inductive Errno where
  | noEntry
  | inputOutput
  | accessDenied
  | notDirectory
  | isDirectory
  | invalidArgument
  | tooManyLinks
  deriving DecidableEq, Repr, Inhabited

namespace Errno

/-- The number of a reason. -/
def number : Errno → Nat
  | noEntry => 2
  | inputOutput => 5
  | accessDenied => 13
  | notDirectory => 20
  | isDirectory => 21
  | invalidArgument => 22
  | tooManyLinks => 40

/-- What the system says about a reason. -/
def description : Errno → String
  | noEntry => "No such file or directory"
  | inputOutput => "Input/output error"
  | accessDenied => "Permission denied"
  | notDirectory => "Not a directory"
  | isDirectory => "Is a directory"
  | invalidArgument => "Invalid argument"
  | tooManyLinks => "Too many levels of symbolic links"

/-- Whether a path that fails for this reason is simply taken not to be a directory. -/
def meansAbsent : Errno → Bool
  | noEntry | notDirectory | tooManyLinks => true
  | _ => false

end Errno

/-- A failed call: the reason, and the path as it was given. -/
structure OsError where
  reason : Errno
  path : String
  deriving DecidableEq, Repr, Inhabited

def OsError.message (e : OsError) : String :=
  "[Errno " ++ toString e.reason.number ++ "] " ++ e.reason.description ++ ": " ++ Text.quoted e.path

/-- The ways in which a call on a path ends without a result. -/
inductive CallError where
  | system (e : OsError)
  /-- The path holds a NUL character. -/
  | nulCharacter
  /-- The call was made to fail as no call on a path does by itself. -/
  | injected
  deriving DecidableEq, Repr, Inhabited

end DirWatch
