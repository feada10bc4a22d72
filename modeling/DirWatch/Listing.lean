/-!
# Listings

A listing assigns a value to each of some names: the children of a directory, the fields of a record. It is kept as a
list of pairs. `Listing.sorted` puts it into the order in which everything here visits names, increasing by code point,
and keeps one value per name (the first). `Listing.Ordered` is the shape that `sorted` produces.
-/

namespace DirWatch

/-- Values by name. -/
abbrev Listing (α : Type u) := List (String × α)

namespace Listing

variable {α : Type u}

/-- The value at a name. -/
def get? (l : Listing α) (name : String) : Option α :=
  l.lookup name

/-- The names, in the order of the listing. -/
def names (l : Listing α) : List String :=
  l.map (·.1)

/-- Puts a value at a name of a listing in increasing order, replacing the value that stands there. -/
def insert (name : String) (a : α) : Listing α → Listing α
  | [] => [(name, a)]
  | (other, b) :: rest =>
    if name < other then (name, a) :: (other, b) :: rest
    else if other < name then (other, b) :: insert name a rest
    else (name, a) :: rest

/-- Removes a name. -/
def erase (l : Listing α) (name : String) : Listing α :=
  l.filter (·.1 != name)

/-- The listing in increasing order of names; of several values at one name the first is kept. -/
def sorted : Listing α → Listing α
  | [] => []
  | (name, a) :: rest => insert name a (sorted rest)

/-- The names increase strictly, so each occurs once. -/
def Ordered (l : Listing α) : Prop :=
  l.Pairwise fun p q => p.1 < q.1

end Listing

end DirWatch
