/-!
# Glob patterns

A pattern is a sequence of tokens: `*` stands for any text, `?` for any one character, a class such as `[a-c]` for one
character of a set, and any other character for itself. Slashes and line feeds are ordinary characters, and a pattern
has to cover the whole text.

A class ends at the first `]` that is not its first member; without an end, the `[` is a character like any other. Inside
a class, hyphens that can stand between two members cut it into pieces, and two pieces are joined by a range from the
last character of the first to the first of the second. A range that runs backwards is dropped with both of its ends. A
`!` that then comes first negates the class.

`Glob.covers` decides a pattern from its end to its beginning: for every token it finds the positions of the text from
which the tokens from there on cover the rest.
-/

namespace DirWatch.Glob

/-- A member of a class. -/
inductive Member where
  | char (c : Char)
  | range (first last : Char)
  deriving DecidableEq, Repr

/-- A set of characters. -/
structure CharSet where
  negated : Bool
  members : List Member
  deriving DecidableEq, Repr

/-- One token of a pattern. -/
inductive Token where
  | anyText
  | anyChar
  | oneOf (set : CharSet)
  | char (c : Char)
  deriving DecidableEq, Repr

def Member.accepts : Member → Char → Bool
  | char d, c => d = c
  | range first last, c => first ≤ c && c ≤ last

def CharSet.accepts (s : CharSet) (c : Char) : Bool :=
  s.members.any (·.accepts c) != s.negated

/-- Whether a token covers exactly this character. -/
def Token.accepts : Token → Char → Bool
  | anyText, _ => false
  | anyChar, _ => true
  | oneOf set, c => set.accepts c
  | char d, c => d = c

/-! ## Reading classes -/

/-- Separates the inside of a class from the text after its closing bracket. -/
def classInside? (s : List Char) : Option (List Char × List Char) :=
  let (bang, s) := match s with
    | '!' :: rest => (['!'], rest)
    | s => ([], s)
  let (bracket, s) := match s with
    | ']' :: rest => ([']'], rest)
    | s => ([], s)
  match s.dropWhile (· != ']') with
  | [] => none
  | _ :: rest => some (bang ++ bracket ++ s.takeWhile (· != ']'), rest)

/-- Cuts the inside of a class at its range hyphens. The first `skip` characters cannot be such hyphens, nor can the two
characters after one. A hyphen that would end the class belongs to the last piece. -/
def pieces (skip : Nat) (s : List Char) : List (List Char) :=
  match (s.drop skip).findIdx? (· = '-') with
  | none => [s]
  | some i =>
    match _h : s.drop (skip + i + 1) with
    | [] => [s]
    | c :: rest => s.take (skip + i) :: pieces 2 (c :: rest)
termination_by s.length
decreasing_by
  have := congrArg List.length _h
  simp only [List.length_drop, List.length_cons] at *
  omega

/-- Joins a piece to the pieces after it. When the range between them runs backwards, both its ends go and the two
pieces become one. -/
def attach (piece : List Char) : List (List Char) → List (List Char)
  | [] => [piece]
  | next :: rest =>
    match piece.getLast?, next with
    | some last, first :: tail => if last > first then (piece.dropLast ++ tail) :: rest else piece :: next :: rest
    | _, _ => piece :: next :: rest

/-- The inside of a class after its hyphens have been told apart: members, and the dashes that make ranges. -/
inductive Symbol where
  | char (c : Char)
  | dash

/-- The pieces of a class in one row, with a dash between each two. -/
def symbols : List (List Char) → List Symbol
  | [] => []
  | [piece] => piece.map .char
  | piece :: rest => piece.map .char ++ .dash :: symbols rest

/-- The members that a row of symbols spells. A dash without a member on either side is a hyphen. -/
def spelled : List Symbol → List Member
  | .char a :: .dash :: .char b :: rest => .range a b :: spelled rest
  | .char c :: rest => .char c :: spelled rest
  | .dash :: rest => .char '-' :: spelled rest
  | [] => []

/-- Reads the inside of a class. -/
def CharSet.ofInside (s : List Char) : CharSet :=
  let skip := if s.head? = some '!' then 2 else 1
  match symbols ((pieces skip s).foldr attach []) with
  | .char '!' :: rest => ⟨true, spelled rest⟩
  | row => ⟨false, spelled row⟩

/-! ## Reading patterns -/

theorem length_lt_of_dropWhile {p : Char → Bool} {s rest : List Char} {c : Char}
    (h : s.dropWhile p = c :: rest) : rest.length < s.length := by
  have := (List.dropWhile_suffix (l := s) p).length_le
  rw [h, List.length_cons] at this
  omega

/-- What follows a class is shorter than the class and what follows it. -/
theorem length_lt_of_classInside? {s inside rest : List Char} (h : classInside? s = some (inside, rest)) :
    rest.length < s.length := by
  unfold classInside? at h
  split at h
  next bang s₁ h₁ =>
  have h₅ : s₁.length ≤ s.length := by
    split at h₁ <;> simp only [Prod.mk.injEq] at h₁ <;> simp [← h₁.2]
  split at h
  next bracket s₂ h₂ =>
  have h₄ : s₂.length ≤ s₁.length := by
    split at h₂ <;> simp only [Prod.mk.injEq] at h₂ <;> simp [← h₂.2]
  split at h
  · simp at h
  · next hr =>
    have h₃ := length_lt_of_dropWhile hr
    simp only [Option.some.injEq, Prod.mk.injEq] at h
    rw [← h.2]
    omega

/-- The tokens of a pattern. -/
def tokens (s : List Char) : List Token :=
  match s with
  | [] => []
  | '*' :: rest => .anyText :: tokens rest
  | '?' :: rest => .anyChar :: tokens rest
  | '[' :: rest =>
    match _h : classInside? rest with
    | none => .char '[' :: tokens rest
    | some (inside, rest') => .oneOf (CharSet.ofInside inside) :: tokens rest'
  | c :: rest => .char c :: tokens rest
termination_by s.length
decreasing_by
  all_goals simp_wf
  have := length_lt_of_classInside? _h
  omega

/-! ## Matching -/

/-- For a text, whether a list of tokens covers the text from each of its positions on, the end included: computed from
the answers for the tokens after the first. -/
def coversFrom (t : Token) : List Char → List Bool → List Bool
  | [], after =>
    match t with
    | .anyText => [after.headD false]
    | _ => [false]
  | c :: rest, after =>
    let answers := coversFrom t rest after.tail
    match t with
    | .anyText => (after.headD false || answers.headD false) :: answers
    | t => (t.accepts c && after.tail.headD false) :: answers

/-- For every position of a text, whether the tokens cover the text from there on. -/
def coverage : List Token → List Char → List Bool
  | [], s => s.map (fun _ => false) ++ [true]
  | t :: ts, s => coversFrom t s (coverage ts s)

/-- Whether the tokens cover a whole text. -/
def covers (ts : List Token) (s : List Char) : Bool :=
  (coverage ts s).headD false

/-- Whether a pattern covers a whole text. -/
def matchesText (pattern text : String) : Bool :=
  covers (tokens pattern.toList) text.toList

/-- Whether a list of patterns excludes an entry: some pattern is its name, or covers its name or the text of its path. -/
def excludes (patterns : List String) (name path : String) : Bool :=
  patterns.any fun pattern => pattern == name || matchesText pattern name || matchesText pattern path

end DirWatch.Glob
