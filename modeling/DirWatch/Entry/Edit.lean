import DirWatch.Entry
import DirWatch.Text.Quoted

/-!
# Equality and edits of entries

An entry is a value. Two entries are equal when they agree in all they record, whatever the order of their children. An edit
gives a new entry, unless it changes nothing, and an attempt to assign to a part of an entry is refused.
-/

namespace DirWatch.Entry

mutual

/-- Whether two entries agree in path, kind, time and, name by name, in their children. -/
def agrees : Entry → Entry → Bool
  | mk path kind mtime children, other =>
    path == other.path && kind == other.kind && mtime == other.mtime &&
      children.length == other.children.length && agreeAll children other.children

/-- Whether each entry of a listing agrees with the one at its name in another. -/
def agreeAll : List (String × Entry) → Listing Entry → Bool
  | [], _ => true
  | (name, e) :: rest, others =>
    (match Listing.get? others name with
      | some other => e.agrees other
      | none => false) && agreeAll rest others

end

instance : BEq Entry := ⟨agrees⟩

/-- A way to come from one entry to another. -/
inductive Edit where
  /-- The entry itself. -/
  | keep
  /-- The entry with other children. -/
  | replaceChildren (children : Listing Entry)
  /-- The entry without its children. -/
  | dropChildren
  /-- The child of a name, or the entry itself if there is none. -/
  | enter (name : String)

/-- The entry that an edit leads to, and whether it is the very entry it started from. -/
def edit (e : Entry) : Edit → Entry × Bool
  | .keep => (e, true)
  | .replaceChildren children => (e.withChildren children, false)
  | .dropChildren => if e.children.isEmpty then (e, true) else (e.withoutChildren, false)
  | .enter name =>
    match e.child? name with
    | some child => (child, false)
    | none => (e, true)

/-- Why an assignment is refused. -/
inductive Refusal where
  | frozenField (name : String)
  | frozenChildren
  deriving DecidableEq, Repr

/-- The refusal of an assignment to a part of an entry: the children are a mapping that cannot change, everything else is
a field. -/
def assign (part : String) : Refusal :=
  if part = "children" then .frozenChildren else .frozenField part

def Refusal.message : Refusal → String
  | frozenField name => "cannot assign to field " ++ Text.quoted name
  | frozenChildren => "'mappingproxy' object does not support item assignment"

end DirWatch.Entry
