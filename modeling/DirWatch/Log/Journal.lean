import DirWatch.Log

/-!
# Journals

A journal is a log together with the folder in which its files are and the texts in them. Nothing but the folder itself
can hold a file. Its filters are made of numbers alone.
-/

namespace DirWatch

/-- An existing directory, with the texts of the files in it. -/
structure Folder where
  path : Path
  texts : Listing String := []
  deriving Inhabited

namespace Folder

/-- The name of the file that a path means. -/
def nameOf? (folder : Folder) (path : Path) : Option String :=
  match folder.path.namesBelow? path with
  | some [name] => if name = ".." then none else some name
  | _ => none

/-- Why a path cannot be opened for writing. -/
def reason? (folder : Folder) (path : Path) : Option Errno :=
  if path.names = [] then some .isDirectory
  else
    match folder.path.namesBelow? path with
    | some [] | some [".."] => some .isDirectory
    | some [_] => none
    | some (name :: _) => some (if (folder.texts.get? name).isSome then .notDirectory else .noEntry)
    | none => some .noEntry

/-- What the system says about opening a path for writing. -/
def refusal (folder : Folder) (path : Path) : Option CallError :=
  let text := toString path
  if text.toList.contains '\x00' then some .nulCharacter
  else (folder.reason? path).map fun reason => .system ⟨reason, text⟩

/-- Adds a text at the end of a file; a file that is not there is made. -/
def append (folder : Folder) (path : Path) (text : String) : Folder :=
  match folder.nameOf? path with
  | none => folder
  | some name => { folder with texts := folder.texts.insert name ((folder.texts.get? name).getD "" ++ text) }

/-- The text of a file. -/
def read? (folder : Folder) (path : Path) : Option String :=
  (folder.nameOf? path).bind folder.texts.get?

end Folder

structure Journal where
  log : Log := {}
  folder : Folder
  deriving Inhabited

namespace Journal

/-- Makes the files that were opened. -/
def settle (j : Journal) : Journal :=
  { j with folder := j.log.files.opened.foldl (fun folder file => folder.append (.ofString file.name) "") j.folder }

/-- The threshold of a filter, unless the level is the name of something else than a number. -/
def thresholdOf : Log.Filtering
  | .threshold t => .ok t
  | .format => .error .formatAsLevel
  | .styles => .error .stylesAsLevel

/-- Configures the log. -/
def configure (j : Journal) (env : Environment) : Except Log.Error Unit × Journal :=
  let (r, log) := j.log.configure thresholdOf env j.folder.refusal
  (r, { j with log }.settle)

/-- Forgets the settings, so that they are read anew. -/
def forgetSettings (j : Journal) : Journal :=
  { j with log := { j.log with settings := {} } }

def close (j : Journal) : Journal :=
  { j with log := j.log.close }

/-- Writes an entry, and gives the lines that go to the standard output. -/
def write (j : Journal) (env : Environment) (logger : Option String) (entry : LogEntry) (timestamp : String) :
    Except Log.Error (List String) × Journal :=
  match j.log.write env logger entry timestamp with
  | (.error e, log) => (.error e, { j with log })
  | (.ok none, log) => (.ok [], { j with log })
  | (.ok (some (.standardOutput, line)), log) => (.ok (Text.lines line), { j with log })
  | (.ok (some (.file id, line)), log) =>
    (.ok [], { log, folder := match log.files.opened[id]? with
        | some file => j.folder.append (.ofString file.name) (line ++ "\n")
        | none => j.folder })

end Journal

end DirWatch
