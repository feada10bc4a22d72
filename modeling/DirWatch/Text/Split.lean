/-!
# Cutting text

`split` cuts a text at every occurrence of a separator, and `trim` takes the characters of a class off its ends. The classes
to be trimmed are the white space of Unicode, and the slightly larger one of the blank characters.
-/

namespace DirWatch.Text

/-- The pieces of a text between the separators; a text without a separator is one piece. -/
def split (sep : Char) : List Char → List (List Char)
  | [] => [[]]
  | c :: rest =>
    if c = sep then [] :: split sep rest
    else
      match split sep rest with
      | [] => [[c]]
      | piece :: pieces => (c :: piece) :: pieces

theorem split_ne_nil (sep : Char) (s : List Char) : split sep s ≠ [] := by
  cases s with
  | nil => simp [split]
  | cons c rest =>
    simp only [split]
    split
    · simp
    · split <;> simp

/-- The lines of a text: its pieces between line feeds. -/
def lines (s : String) : List String :=
  (split '\n' s.toList).map String.ofList

/-- White space as Unicode defines it. -/
def isWhiteSpace (c : Char) : Bool :=
  let n := c.toNat
  (0x9 ≤ n && n ≤ 0xd) || n = 0x20 || n = 0x85 || n = 0xa0 || n = 0x1680 || (0x2000 ≤ n && n ≤ 0x200a) ||
    n = 0x2028 || n = 0x2029 || n = 0x202f || n = 0x205f || n = 0x3000

/-- White space and the four information separators. -/
def isBlank (c : Char) : Bool :=
  isWhiteSpace c || (0x1c ≤ c.toNat && c.toNat ≤ 0x1f)

/-- A text without the characters of a class at its start. -/
def trimLeft (p : Char → Bool) (s : List Char) : List Char :=
  s.dropWhile p

/-- A text without the characters of a class at its end. -/
def trimRight (p : Char → Bool) (s : List Char) : List Char :=
  (s.reverse.dropWhile p).reverse

/-- A text without the characters of a class at either end. -/
def trim (p : Char → Bool) (s : List Char) : List Char :=
  trimRight p (trimLeft p s)

end DirWatch.Text
