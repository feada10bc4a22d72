import DirWatch.Change

/-!
# Registrations

A registration watches one root for the observers attached to it. Each observer is attached through a handle of its own,
and a handle is cancelled once and for all. The table knows which registration currently watches which root: the first
observer of a root creates the registration, and with its last handle the root leaves the table. Handles and registrations
that have left are remembered, because others may still hold them.
-/

namespace DirWatch

/-- A registration, by its place among all that were ever made. -/
abbrev RegistrationId := Nat

/-- A handle, by its place among all that were ever made. -/
abbrev HandleId := Nat

/-- The attachment of one observer. -/
structure Handle where
  registration : RegistrationId
  observer : Observer
  active : Bool := true
  deriving Inhabited

/-- A watched root. -/
structure Registration where
  root : Path
  /-- The snapshot that the next poll is compared with. -/
  baseline : Snapshot
  /-- The handles, in the order in which they were attached. -/
  handles : List HandleId := []
  /-- Whether a poll is under way. -/
  polling : Bool := false
  deriving Inhabited

/-- The registrations and handles made so far, and the registrations in force by their roots. -/
structure Table where
  registrations : Array Registration := #[]
  handles : Array Handle := #[]
  current : List (Path × RegistrationId) := []
  deriving Inhabited

namespace Table

/-- The registration in force for a root. -/
def find? (t : Table) (root : Path) : Option RegistrationId :=
  t.current.lookup root

/-- The watched roots, in the order in which they were registered. -/
def roots (t : Table) : List Path :=
  t.current.map (·.1)

def modifyRegistration (t : Table) (id : RegistrationId) (f : Registration → Registration) : Table :=
  { t with registrations := t.registrations.modify id f }

def modifyHandle (t : Table) (id : HandleId) (f : Handle → Handle) : Table :=
  { t with handles := t.handles.modify id f }

/-- The handles of a registration. -/
def handlesOf (t : Table) (id : RegistrationId) : List HandleId :=
  match t.registrations[id]? with
  | some r => r.handles
  | none => []

def isActive (t : Table) (h : HandleId) : Bool :=
  match t.handles[h]? with
  | some handle => handle.active
  | none => false

/-- The number of observers attached to a root. -/
def observerCount (t : Table) (root : Path) : Nat :=
  match t.find? root with
  | some id => (t.handlesOf id).length
  | none => 0

/-- Puts a root with its baseline into the table. -/
def register (t : Table) (root : Path) (baseline : Snapshot) : Table × RegistrationId :=
  let id := t.registrations.size
  ({ t with registrations := t.registrations.push { root, baseline }, current := t.current ++ [(root, id)] }, id)

/-- Attaches an observer to a registration. -/
def join (t : Table) (id : RegistrationId) (observer : Observer) : Table × HandleId :=
  let h := t.handles.size
  ({ t.modifyRegistration id (fun r => { r with handles := r.handles ++ [h] }) with
      handles := t.handles.push { registration := id, observer } }, h)

/-- What cancelling a handle did. -/
inductive Cancellation where
  /-- The handle was cancelled before. -/
  | idle
  /-- The observer of a root is detached. -/
  | detached (root : Path)
  /-- The observer is detached, and it was the last of its root. -/
  | removed (root : Path)
  deriving DecidableEq, Repr

/-- Marks a handle as cancelled and takes it off the list of its registration. -/
def deactivate (t : Table) (h : HandleId) : Table :=
  match t.handles[h]? with
  | none => t
  | some handle =>
    (t.modifyHandle h fun handle => { handle with active := false }).modifyRegistration handle.registration
      fun r => { r with handles := r.handles.filter (· != h) }

/-- Cancels a handle. A registration in force that has no handle left leaves the table. -/
def cancel (t : Table) (h : HandleId) : Table × Cancellation :=
  match t.handles[h]? with
  | none => (t, .idle)
  | some handle =>
    if !handle.active then (t, .idle)
    else
      match t.registrations[handle.registration]? with
      | none => (t, .idle)
      | some r =>
        let t := t.deactivate h
        if (t.handlesOf handle.registration).isEmpty && t.find? r.root == some handle.registration then
          ({ t with current := t.current.filter (·.1 != r.root) }, .removed r.root)
        else (t, .detached r.root)

/-- Cancels handles one after another. -/
def cancelAll (t : Table) : List HandleId → Table × List Cancellation
  | [] => (t, [])
  | h :: hs =>
    let (t, c) := t.cancel h
    let (t, cs) := cancelAll t hs
    (t, c :: cs)

/-- The handles through which an observer is attached to a root. -/
def attachments (t : Table) (root : Path) (observer : Observer) : List HandleId :=
  match t.find? root with
  | none => []
  | some id => (t.handlesOf id).filter fun h =>
      match t.handles[h]? with
      | some handle => handle.observer.sameAs observer
      | none => false

/-- Cancels every handle of every root, and forgets the roots. -/
def clear (t : Table) : Table :=
  { (t.current.flatMap fun entry => t.handlesOf entry.2).foldl deactivate t with current := [] }

/-- Replaces the baseline of a registration. -/
def setBaseline (t : Table) (id : RegistrationId) (baseline : Snapshot) : Table :=
  t.modifyRegistration id fun r => { r with baseline }

/-- Records whether a poll of a registration is under way. -/
def setPolling (t : Table) (id : RegistrationId) (polling : Bool) : Table :=
  t.modifyRegistration id fun r => { r with polling }

end Table

end DirWatch
