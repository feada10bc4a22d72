import DirWatch.Text.Split

/-!
# Paths

A path is an anchor (relative, `/`, or the separate root `//`) and a list of names. Reading a text drops empty names and
the name `.`, and keeps `..`; so a path is a list of names and not a place in a tree. Paths are ordered by their parts,
the anchor being the first part, and therefore `/a/b` comes before `/a.b`.
-/

namespace DirWatch

/-- Where a path starts. Exactly two leading slashes are a root of their own. -/
inductive Anchor where
  | relative
  | root
  | doubled
  deriving DecidableEq, Repr, Inhabited

namespace Anchor

/-- The text that stands before the names. -/
def text : Anchor → String
  | relative => ""
  | root => "/"
  | doubled => "//"

/-- The anchor of a text: three or more leading slashes are one. -/
def ofChars : List Char → Anchor
  | '/' :: '/' :: '/' :: _ => root
  | '/' :: '/' :: _ => doubled
  | '/' :: _ => root
  | _ => relative

end Anchor

/-- A path of names below an anchor. -/
structure Path where
  anchor : Anchor
  names : List String
  deriving DecidableEq, Repr, Inhabited

namespace Path

/-- The names of a text: what stands between its slashes, without the empty ones and `.`. -/
def namesOfChars (s : List Char) : List String :=
  ((Text.split '/' s).filter fun part => part != [] && part != ['.']).map String.ofList

/-- Reads a path. Every text is one; the empty text is the relative path without names. -/
def ofString (s : String) : Path :=
  ⟨Anchor.ofChars s.toList, namesOfChars s.toList⟩

/-- The text of a path. The relative path without names is `.`. -/
protected def toString (p : Path) : String :=
  if p.anchor = .relative ∧ p.names = [] then "."
  else p.anchor.text ++ "/".intercalate p.names

instance : ToString Path := ⟨Path.toString⟩

/-- Whether the path starts at a root. -/
def isAbsolute (p : Path) : Bool :=
  p.anchor ≠ .relative

/-- The anchor, if there is one, followed by the names. -/
def parts (p : Path) : List String :=
  match p.anchor with
  | .relative => p.names
  | anchor => anchor.text :: p.names

instance : LT Path := ⟨fun p q => p.parts < q.parts⟩

instance (p q : Path) : Decidable (p < q) := inferInstanceAs (Decidable (p.parts < q.parts))

/-- Orders two paths by their parts. -/
protected def compare (p q : Path) : Ordering :=
  if p < q then .lt else if q < p then .gt else .eq

instance : Ord Path := ⟨Path.compare⟩

/-- The path `q` seen from `p`: an absolute `q` stands for itself. -/
def join (p q : Path) : Path :=
  if q.isAbsolute then q else ⟨p.anchor, p.names ++ q.names⟩

/-- The path of a member of a directory. A name that is not a single component is read as a path first. -/
def child (p : Path) (name : String) : Path :=
  p.join (ofString name)

/-- The last name, or the empty text for a bare anchor. -/
def name (p : Path) : String :=
  p.names.getLast?.getD ""

/-- The names that lead from `root` to `p`, if `p` stands at or below `root` by its text. -/
def namesBelow? (root p : Path) : Option (List String) :=
  if root.anchor = p.anchor && root.names.isPrefixOf p.names then some (p.names.drop root.names.length) else none

/-- A name that can stand as one component of a path. -/
def IsName (s : String) : Prop :=
  s ≠ "" ∧ s ≠ "." ∧ '/' ∉ s.toList

end Path

end DirWatch
