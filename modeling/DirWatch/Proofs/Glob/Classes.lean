import DirWatch.Glob

/-!
# Classes from left to right

A class is read by cutting its inside at hyphens and joining the pieces again. It comes to this: from left to right, a
hyphen between two characters makes a range of them, and every other character is a member by itself (`parts`); ranges
that run backwards are dropped, and a `!` that stands first negates the class, also when it does so only because ranges
before it have been dropped (`CharSet.spelledBy`, `ofInside_eq`).
-/

namespace DirWatch.Glob

variable {c : Char} {s : List Char} {piece : List Char} {rest : List (List Char)}

/-- The parts of a class, from left to right. -/
def parts : List Char → List Member
  | first :: '-' :: last :: rest => .range first last :: parts rest
  | c :: rest => .char c :: parts rest
  | [] => []

/-- Whether a part is not a range that runs backwards. -/
def Member.isForward : Member → Bool
  | char _ => true
  | range first last => first ≤ last

/-- The class of some members: a `!` that stands first negates, also as the beginning of a range, of which then the
hyphen and the end are left. -/
def CharSet.ofMembers : List Member → CharSet
  | .char '!' :: members => ⟨true, members⟩
  | .range '!' last :: members => ⟨true, .char '-' :: .char last :: members⟩
  | members => ⟨false, members⟩

/-- The class with some inside. -/
def CharSet.spelledBy (inside : List Char) : CharSet :=
  match inside with
  | '!' :: rest => ⟨true, (parts rest).filter Member.isForward⟩
  | inside => .ofMembers ((parts inside).filter Member.isForward)

/-! ## Pieces -/

/-- A text without a hyphen is one piece. -/
theorem pieces_of_none {skip : Nat} (hfind : (s.drop skip).findIdx? (· = '-') = none) : pieces skip s = [s] := by
  rw [pieces, hfind]

/-- A hyphen at the end divides nothing. -/
theorem pieces_of_trailing {skip i : Nat} (hfind : (s.drop skip).findIdx? (· = '-') = some i)
    (hdrop : s.drop (skip + i + 1) = []) : pieces skip s = [s] := by
  rw [pieces, hfind]
  dsimp only
  split
  · rfl
  · rename_i hcons
    rw [hdrop] at hcons
    cases hcons

/-- Any other hyphen divides, and at least two characters stand between it and the next one that does. -/
theorem pieces_of_hyphen {skip i : Nat} {d : Char} {after : List Char} (hfind : (s.drop skip).findIdx? (· = '-') = some i)
    (hdrop : s.drop (skip + i + 1) = d :: after) : pieces skip s = s.take (skip + i) :: pieces 2 (d :: after) := by
  rw [pieces, hfind]
  dsimp only
  split
  · rename_i hnil
    rw [hdrop] at hnil
    cases hnil
  · rename_i hcons
    rw [hdrop] at hcons
    cases hcons
    rfl

/-- A character in front of a text goes to the first piece. -/
theorem pieces_succ_cons (skip : Nat) (c : Char) (s : List Char) :
    pieces (skip + 1) (c :: s) = (pieces skip s).modifyHead (c :: ·) := by
  cases hfind : (s.drop skip).findIdx? (· = '-') with
  | none =>
    rw [pieces_of_none hfind, pieces_of_none]
    · rfl
    · exact hfind
  | some i =>
    have hindex : skip + 1 + i = skip + i + 1 := by omega
    have hnext : ((c :: s).drop (skip + 1)).findIdx? (· = '-') = some i := hfind
    have hrest : (c :: s).drop (skip + 1 + i + 1) = s.drop (skip + i + 1) := by
      rw [hindex]
      rfl
    cases hdrop : s.drop (skip + i + 1) with
    | nil =>
      rw [pieces_of_trailing hfind hdrop, pieces_of_trailing hnext (hrest.trans hdrop)]
      rfl
    | cons d after =>
      rw [pieces_of_hyphen hfind hdrop, pieces_of_hyphen hnext (hrest.trans hdrop), hindex]
      rfl

/-- Where no hyphen comes second, it makes no difference to look for one from there on or after it. -/
theorem pieces_one_eq_two (h : ∀ d after, s ≠ '-' :: d :: after) : pieces 1 (c :: s) = pieces 2 (c :: s) := by
  cases s with
  | nil => rw [pieces_of_none, pieces_of_none] <;> rfl
  | cons d after =>
    by_cases hd : d = '-'
    · subst hd
      cases after with
      | nil =>
        rw [pieces_of_trailing (i := 0), pieces_of_none]
        · rfl
        · rfl
        · rfl
      | cons e after => exact absurd rfl (h e after)
    · have hnext : ((c :: d :: after).drop 1).findIdx? (· = '-') =
          (((c :: d :: after).drop 2).findIdx? (· = '-')).map (· + 1) := by
        change (d :: after).findIdx? (· = '-') = (after.findIdx? (· = '-')).map (· + 1)
        rw [List.findIdx?_cons, decide_eq_false hd]
        rfl
      cases hfind : ((c :: d :: after).drop 2).findIdx? (· = '-') with
      | none =>
        rw [hfind] at hnext
        rw [pieces_of_none hnext, pieces_of_none hfind]
      | some i =>
        rw [hfind] at hnext
        have hindex : 1 + (i + 1) = 2 + i := by omega
        cases hdrop : (c :: d :: after).drop (2 + i + 1) with
        | nil =>
          rw [pieces_of_trailing hnext, pieces_of_trailing hfind hdrop]
          rw [hindex]
          exact hdrop
        | cons e later =>
          rw [pieces_of_hyphen hnext (hindex ▸ hdrop), pieces_of_hyphen hfind hdrop, hindex]

/-- The first piece has a character, unless there is nothing to cut. -/
theorem pieces_one_cons (h : pieces 1 s = piece :: rest) : piece ≠ [] ∨ rest = [] := by
  cases hfind : (s.drop 1).findIdx? (· = '-') with
  | none =>
    rw [pieces_of_none hfind] at h
    cases h
    exact Or.inr rfl
  | some i =>
    cases hdrop : s.drop (1 + i + 1) with
    | nil =>
      rw [pieces_of_trailing hfind hdrop] at h
      cases h
      exact Or.inr rfl
    | cons d after =>
      rw [pieces_of_hyphen hfind hdrop] at h
      cases h
      left
      intro hnil
      rcases List.take_eq_nil_iff.mp hnil with hzero | hs
      · omega
      · rw [hs] at hdrop
        cases hdrop

/-! ## Joining the pieces -/

/-- The pieces of a class, joined where a range between them runs backwards. -/
def merged (skip : Nat) (s : List Char) : List (List Char) :=
  (pieces skip s).foldr attach []

/-- Attaching a piece leaves one. -/
theorem attach_ne_nil (piece : List Char) (rest : List (List Char)) : attach piece rest ≠ [] := by
  unfold attach
  split
  · exact List.cons_ne_nil _ _
  · split
    · split <;> exact List.cons_ne_nil _ _
    · exact List.cons_ne_nil _ _

/-- There is always a piece. -/
theorem pieces_ne_nil (skip : Nat) (s : List Char) : pieces skip s ≠ [] := by
  rw [pieces]
  split
  · exact List.cons_ne_nil _ _
  · split <;> exact List.cons_ne_nil _ _

theorem merged_ne_nil (skip : Nat) (s : List Char) : merged skip s ≠ [] := by
  obtain ⟨piece, rest, hpieces⟩ := List.exists_cons_of_ne_nil (pieces_ne_nil skip s)
  rw [merged, hpieces]
  exact attach_ne_nil _ _

/-- A character in front does not matter to how a piece is joined to the next. -/
theorem attach_cons (c : Char) (h : piece ≠ [] ∨ rest = []) :
    attach (c :: piece) rest = (attach piece rest).modifyHead (c :: ·) := by
  cases rest with
  | nil => rfl
  | cons next others =>
    obtain ⟨d, after, rfl⟩ := List.exists_cons_of_ne_nil (h.resolve_right (List.cons_ne_nil _ _))
    unfold attach
    rw [List.getLast?_cons_cons, List.dropLast_cons_cons]
    cases (d :: after).getLast? with
    | none => rfl
    | some last =>
      cases next with
      | nil => rfl
      | cons first tail =>
        dsimp only
        split <;> rfl

/-- A character that is skipped goes to the first piece. -/
theorem merged_succ_cons (c : Char) (s : List Char) : merged 2 (c :: s) = (merged 1 s).modifyHead (c :: ·) := by
  obtain ⟨piece, rest, hpieces⟩ := List.exists_cons_of_ne_nil (pieces_ne_nil 1 s)
  have hrest : piece ≠ [] ∨ rest.foldr attach [] = [] := (pieces_one_cons hpieces).imp_right fun hnil => by rw [hnil]; rfl
  rw [merged, pieces_succ_cons, merged, hpieces]
  exact attach_cons c hrest

/-! ## Members -/

/-- The symbols of a member. -/
def Member.row : Member → List Symbol
  | char c => [.char c]
  | range first last => [.char first, .dash, .char last]

/-- A character before the first piece is the first symbol. -/
theorem symbols_modifyHead (c : Char) {ps : List (List Char)} (h : ps ≠ []) :
    symbols (ps.modifyHead (c :: ·)) = .char c :: symbols ps := by
  obtain ⟨piece, rest, rfl⟩ := List.exists_cons_of_ne_nil h
  cases rest <;> rfl

/-- A piece of one character before others: it makes a range with the next one, which is dropped when it runs backwards. -/
theorem symbols_attach_single (first last : Char) {ps : List (List Char)} (h : ps ≠ []) :
    symbols (attach [first] (ps.modifyHead (last :: ·))) =
      (if first ≤ last then (Member.range first last).row else []) ++ symbols ps := by
  obtain ⟨next, rest, rfl⟩ := List.exists_cons_of_ne_nil h
  have hattach : attach [first] ((next :: rest).modifyHead (last :: ·)) =
      if first > last then next :: rest else [first] :: (last :: next) :: rest := rfl
  rw [hattach]
  by_cases hle : first ≤ last
  · rw [if_pos hle, if_neg (Char.not_lt.mpr hle)]
    exact congrArg (fun row => Symbol.char first :: .dash :: row) (symbols_modifyHead last (List.cons_ne_nil next rest))
  · rw [if_neg hle, if_pos (Char.not_le.mp hle)]
    rfl

/-- Without the bracket and the `!`, the symbols of a class are those of its members. -/
theorem symbols_merged (s : List Char) : symbols (merged 1 s) = ((parts s).filter Member.isForward).flatMap Member.row := by
  fun_induction parts s with
  | case1 first last rest ih =>
    have hpieces : pieces 1 (first :: '-' :: last :: rest) = [first] :: pieces 2 (last :: rest) :=
      pieces_of_hyphen (i := 0) rfl rfl
    have hmerged : merged 1 (first :: '-' :: last :: rest) = attach [first] (merged 2 (last :: rest)) := by
      rw [merged, hpieces]
      rfl
    have hforward : (Member.range first last).isForward = decide (first ≤ last) := rfl
    rw [hmerged, merged_succ_cons, symbols_attach_single _ _ (merged_ne_nil 1 rest), ih, List.filter_cons, hforward]
    by_cases hle : first ≤ last
    · rw [if_pos hle, if_pos (decide_eq_true hle), List.flatMap_cons]
    · rw [if_neg hle, if_neg (Bool.not_eq_true _ ▸ decide_eq_false hle)]
      rfl
  | case2 c rest hother ih =>
    have hpieces : pieces 1 (c :: rest) = pieces 2 (c :: rest) := pieces_one_eq_two fun d after heq => hother d after heq
    have hmerged : merged 1 (c :: rest) = merged 2 (c :: rest) := congrArg (List.foldr attach []) hpieces
    rw [hmerged, merged_succ_cons, symbols_modifyHead _ (merged_ne_nil 1 rest), ih]
    rfl
  | case3 =>
    have hpieces : pieces 1 [] = [[]] := pieces_of_none rfl
    rw [merged, hpieces]
    rfl

/-- A member that stands first begins with a character. -/
theorem spelled_char (c : Char) (members : List Member) :
    spelled (.char c :: members.flatMap Member.row) = .char c :: spelled (members.flatMap Member.row) := by
  cases members with
  | nil => rfl
  | cons m members => cases m <;> rfl

/-- The members that a row of members spells. -/
theorem spelled_flatMap (members : List Member) : spelled (members.flatMap Member.row) = members := by
  induction members with
  | nil => rfl
  | cons m members ih =>
    cases m with
    | char c => exact (spelled_char c members).trans (congrArg _ ih)
    | range first last => exact congrArg (Member.range first last :: ·) ih

/-- The class that a row of symbols spells. -/
def CharSet.ofRow : List Symbol → CharSet
  | .char '!' :: rest => ⟨true, spelled rest⟩
  | row => ⟨false, spelled row⟩

/-- A class is spelled by the symbols of its pieces. -/
theorem ofInside_eq_ofRow (inside : List Char) :
    CharSet.ofInside inside = .ofRow (symbols (merged (if inside.head? = some '!' then 2 else 1) inside)) := rfl

/-- A class that does not begin with `!` is not negated. -/
theorem ofRow_of_ne {first : Char} (hne : first ≠ '!') (row : List Symbol) :
    CharSet.ofRow (.char first :: row) = ⟨false, spelled (.char first :: row)⟩ := by
  unfold CharSet.ofRow
  split
  · rename_i heq
    cases heq
    exact absurd rfl hne
  · rfl

/-- A row of members spells their class. -/
theorem ofRow_flatMap (members : List Member) : CharSet.ofRow (members.flatMap Member.row) = .ofMembers members := by
  cases members with
  | nil => rfl
  | cons m members =>
    have hspelled := spelled_flatMap (m :: members)
    cases m with
    | char c =>
      by_cases hc : c = '!'
      · subst hc
        exact congrArg (CharSet.mk true) (spelled_flatMap members)
      · have hplain : CharSet.ofMembers (.char c :: members) = ⟨false, .char c :: members⟩ := by
          simp [CharSet.ofMembers, hc]
        rw [hplain]
        exact (ofRow_of_ne hc _).trans (congrArg (CharSet.mk false) hspelled)
    | range first last =>
      by_cases hfirst : first = '!'
      · subst hfirst
        have hlast := (spelled_char last members).trans (congrArg _ (spelled_flatMap members))
        exact congrArg (fun members => CharSet.mk true (.char '-' :: members)) hlast
      · have hplain : CharSet.ofMembers (.range first last :: members) = ⟨false, .range first last :: members⟩ := by
          simp [CharSet.ofMembers, hfirst]
        rw [hplain]
        exact (ofRow_of_ne hfirst _).trans (congrArg (CharSet.mk false) hspelled)

/-- Reading the inside of a class comes to going through its parts. -/
theorem ofInside_eq (inside : List Char) : CharSet.ofInside inside = CharSet.spelledBy inside := by
  unfold CharSet.spelledBy
  split
  · rename_i rest
    have hrow : symbols (merged 2 ('!' :: rest)) =
        .char '!' :: ((parts rest).filter Member.isForward).flatMap Member.row := by
      rw [merged_succ_cons, symbols_modifyHead _ (merged_ne_nil 1 rest), symbols_merged]
    change CharSet.ofRow (symbols (merged 2 ('!' :: rest))) = _
    rw [hrow]
    exact congrArg (CharSet.mk true) (spelled_flatMap _)
  · rename_i hother
    have hskip : inside.head? ≠ some '!' := by
      intro hhead
      obtain ⟨rest, rfl⟩ := List.head?_eq_some_iff.mp hhead
      exact hother rest rfl
    rw [ofInside_eq_ofRow, if_neg hskip, symbols_merged, ofRow_flatMap]

/-- Ranges may follow each other without a comma, and a hyphen that has no two characters to join is a member. -/
example : CharSet.spelledBy "]a-c-e-".toList = ⟨false, [.char ']', .range 'a' 'c', .char '-', .char 'e', .char '-']⟩ := by
  decide

/-- Without the range that runs backwards, the class begins with `!`. -/
example : CharSet.spelledBy "z-a!x".toList = ⟨true, [.char 'x']⟩ := by
  decide

end DirWatch.Glob
