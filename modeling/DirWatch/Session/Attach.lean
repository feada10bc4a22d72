import DirWatch.Session.State

/-!
# Attaching and cancelling

An observer that comes first to a root waits for a capture of it, the baseline; what happens meanwhile counts, so the
table is asked again before the root is registered. An attachment made for a watcher is taken back if the watcher has
been closed in the meantime.
-/

namespace DirWatch.Session

/-- Cancels a handle and reports it. -/
def cancelHandle (s : Session) (h : HandleId) : Session :=
  let (table, cancellation) := s.table.cancel h
  let s := { s with table }
  match cancellation with
  | .idle => s
  | .detached root => s.notice (.observerDetached root)
  | .removed root => s.notices [.observerDetached root, .registrationRemoved root]

def cancelHandles (s : Session) (hs : List HandleId) : Session :=
  hs.foldl cancelHandle s

/-- Gives a handle a label and answers with it. -/
def labelled (s : Session) (label : String) (h : HandleId) (root : Path) : Session :=
  { s with labels := (label, h) :: s.labels.filter (·.1 != label) }.reply (.ok (.attached root (s.table.isActive h)))

/-- Attaches an observer to a registration and ends the attachment. -/
def join (s : Session) (id : RegistrationId) (root : Path) (observer : Observer) (label : String)
    (purpose : AttachPurpose) : Session :=
  let (table, h) := s.table.join id observer
  let s := { s with table }.notice (.observerAttached root observer)
  match purpose with
  | .caller => s.labelled label h root
  | .watch =>
    if s.watcher.state = .running then (s.notice (.watchRegistered s.watcher.name root)).labelled label h root
    else (s.cancelHandle h).fail (.closedMeanwhile s.watcher.name)

/-- Begins a capture. -/
def beginCapture (s : Session) (root : Path) : Session :=
  let clock := s.clock + 1
  { s with clock }.push (.capturing { root, patterns := s.patterns, capturedAt := clock } false)

/-- Begins an attachment. -/
def beginAttach (s : Session) (root : Path) (observer : Observer) (label : String) (purpose : AttachPurpose) :
    Session :=
  match s.table.find? root with
  | some id => s.join id root observer label purpose
  | none => (s.push (.attaching root observer label purpose)).beginCapture root

/-- Goes on with an attachment when the baseline has been captured. -/
def finishAttach (s : Session) (root : Path) (observer : Observer) (label : String) (purpose : AttachPurpose)
    (baseline : Snapshot) : Session :=
  match s.table.find? root with
  | some id => s.join id root observer label purpose
  | none =>
    let (table, id) := s.table.register root baseline
    ({ s with table }.notice (.registrationCreated root baseline.size)).join id root observer label purpose

end DirWatch.Session
