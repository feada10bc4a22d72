import DirWatch.OsError

/-!
# Log files

Files that were opened for the log, one of which may be the current one. Every file ever opened keeps its place in the
list, so that a holder of its number can find out whether it is still open.

`LogFiles.use` makes the file of a name the current one. When it is the current one already nothing happens; otherwise the
current file is closed before the new one is opened, also when the latter fails.
-/

namespace DirWatch

/-- A file that was opened for the log. -/
structure LogFile where
  name : String
  isOpen : Bool := true
  deriving DecidableEq, Repr, Inhabited

/-- The number of a log file: its place in the order of opening. -/
abbrev LogFileId := Nat

structure LogFiles where
  /-- Every file ever opened, the oldest first. -/
  opened : List LogFile := []
  current : Option LogFileId := none
  deriving DecidableEq, Repr, Inhabited

namespace LogFiles

/-- Whether a file is open. -/
def isOpen (fs : LogFiles) (id : LogFileId) : Bool :=
  fs.opened[id]?.any (·.isOpen)

/-- The current file, with its number. -/
def currentFile? (fs : LogFiles) : Option (LogFileId × LogFile) :=
  fs.current.bind fun id => fs.opened[id]?.map (id, ·)

/-- The current file, if it is open and has a name. -/
def reusable? (fs : LogFiles) (name : String) : Option LogFileId :=
  match fs.currentFile? with
  | some (id, file) => if file.isOpen && file.name == name then some id else none
  | none => none

/-- Closes the current file, if there is one. -/
def close (fs : LogFiles) : LogFiles :=
  match fs.current with
  | none => fs
  | some id => { opened := fs.opened.modify id fun file => { file with isOpen := false }, current := none }

/-- Opens a file and makes it the current one. -/
def add (fs : LogFiles) (name : String) : LogFiles :=
  { opened := fs.opened ++ [{ name }], current := some fs.opened.length }

/-- Makes the file of a name the current one. The system may refuse to open it. -/
def use (fs : LogFiles) (name : String) (refusal : Option CallError) : Except CallError LogFileId × LogFiles :=
  match fs.reusable? name with
  | some id => (.ok id, fs)
  | none =>
    let fs := fs.close
    match refusal with
    | some e => (.error e, fs)
    | none => (.ok fs.opened.length, fs.add name)

end LogFiles

end DirWatch
