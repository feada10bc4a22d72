import DirWatch.Proofs.Glob.Classes
import Mathlib.Data.List.Forall2
import Mathlib.Logic.ExistsUnique

/-!
# The language of a pattern

`Reads` says which sequence of tokens a pattern is, and `Splits` which texts such a sequence covers: those that can be
split along the tokens, so that each token stands for its part. Every pattern is read in one way, which is how `tokens`
reads it (`reads_iff`), and the matcher accepts what can be split, whatever a `*` has to stand for (`covers_iff`). So
patterns exclude the entries whose name is one of them or whose name or path is in the language of one (`excludes_iff`).
-/

namespace DirWatch.Glob

variable {c : Char} {s inside rest : List Char} {t : Token} {ts : List Token}

/-! ## Texts and tokens -/

/-- Whether a character is what a member of a class says. -/
def Member.Has : Member → Char → Prop
  | char d, c => c = d
  | range first last, c => first ≤ c ∧ c ≤ last

/-- Whether a character belongs to a class. -/
def CharSet.Has (set : CharSet) (c : Char) : Prop :=
  if set.negated then ∀ m ∈ set.members, ¬ m.Has c else ∃ m ∈ set.members, m.Has c

/-- The texts that a token stands for. -/
def Token.Stands : Token → List Char → Prop
  | anyText, _ => True
  | anyChar, part => ∃ c, part = [c]
  | oneOf set, part => ∃ c, part = [c] ∧ set.Has c
  | char d, part => part = [d]

/-- A text can be split so that each token stands for its part. -/
def Splits (ts : List Token) (s : List Char) : Prop :=
  ∃ parts, List.Forall₂ Token.Stands ts parts ∧ parts.flatten = s

/-- No tokens cover the empty text only. -/
theorem splits_nil_iff : Splits [] s ↔ s = [] := by
  constructor
  · rintro ⟨parts, hparts, rfl⟩
    cases hparts
    rfl
  · rintro rfl
    exact ⟨[], .nil, rfl⟩

/-- The first token stands for a first part, the others split the rest. -/
theorem splits_cons_iff : Splits (t :: ts) s ↔ ∃ part after, t.Stands part ∧ Splits ts after ∧ part ++ after = s := by
  constructor
  · rintro ⟨parts, hparts, rfl⟩
    cases hparts with
    | @cons _ part _ parts hstands hrest => exact ⟨part, parts.flatten, hstands, ⟨parts, hrest, rfl⟩, rfl⟩
  · rintro ⟨part, _, hstands, ⟨parts, hrest, rfl⟩, rfl⟩
    exact ⟨part :: parts, .cons hstands hrest, rfl⟩

/-- A member of a class accepts what it says. -/
theorem Member.accepts_iff (m : Member) (c : Char) : m.accepts c = true ↔ m.Has c := by
  cases m with
  | char d => rw [Member.accepts, Member.Has, decide_eq_true_iff, eq_comm]
  | range first last => simp [Member.accepts, Member.Has]

/-- So does the class. -/
theorem CharSet.accepts_iff (set : CharSet) (c : Char) : set.accepts c = true ↔ set.Has c := by
  have hany : set.members.any (·.accepts c) = true ↔ ∃ m ∈ set.members, m.Has c := by
    simp only [List.any_eq_true, Member.accepts_iff]
  unfold CharSet.accepts CharSet.Has
  cases set.negated with
  | false =>
    rw [Bool.bne_false, hany]
    rfl
  | true =>
    rw [Bool.bne_true, Bool.not_eq_true', ← Bool.not_eq_true, hany]
    simp

/-- Tokens other than `*` stand for single characters. -/
theorem stands_iff (ht : t ≠ .anyText) {part : List Char} : t.Stands part ↔ ∃ c, part = [c] ∧ t.accepts c = true := by
  cases t with
  | anyText => exact absurd rfl ht
  | anyChar => simp [Token.Stands, Token.accepts]
  | oneOf set => simp [Token.Stands, Token.accepts, CharSet.accepts_iff]
  | char d => simp [Token.Stands, Token.accepts]

/-! ## Splitting -/

/-- A `*` stands for the empty text, too. -/
theorem splits_anyText_nil (ts : List Token) : Splits (.anyText :: ts) [] ↔ Splits ts [] := by
  rw [splits_cons_iff]
  constructor
  · rintro ⟨part, after, -, h, heq⟩
    obtain ⟨rfl, rfl⟩ := List.append_eq_nil_iff.mp heq
    exact h
  · exact fun h => ⟨[], [], trivial, h, rfl⟩

/-- A `*` stands for nothing, or for one character and what a `*` stands for. -/
theorem splits_anyText_cons (ts : List Token) (c : Char) (s : List Char) :
    Splits (.anyText :: ts) (c :: s) ↔ Splits ts (c :: s) ∨ Splits (.anyText :: ts) s := by
  rw [splits_cons_iff, splits_cons_iff]
  constructor
  · rintro ⟨part, after, -, h, heq⟩
    cases part with
    | nil => exact Or.inl (heq ▸ h)
    | cons d part =>
      obtain ⟨rfl, rfl⟩ := List.cons_eq_cons.mp heq
      exact Or.inr ⟨part, after, trivial, h, rfl⟩
  · rintro (h | ⟨part, after, -, h, rfl⟩)
    · exact ⟨[], c :: s, trivial, h, rfl⟩
    · exact ⟨c :: part, after, trivial, h, rfl⟩

/-- Any other token stands for a character. -/
theorem not_splits_token_nil (ht : t ≠ .anyText) (ts : List Token) : ¬ Splits (t :: ts) [] := by
  rw [splits_cons_iff]
  rintro ⟨part, after, hstands, -, heq⟩
  obtain ⟨c, rfl, -⟩ := (stands_iff ht).mp hstands
  cases heq

/-- It stands for the first one, and the others split the rest. -/
theorem splits_token_cons (ht : t ≠ .anyText) (ts : List Token) (c : Char) (s : List Char) :
    Splits (t :: ts) (c :: s) ↔ t.accepts c = true ∧ Splits ts s := by
  rw [splits_cons_iff]
  constructor
  · rintro ⟨part, after, hstands, h, heq⟩
    obtain ⟨d, rfl, haccepts⟩ := (stands_iff ht).mp hstands
    cases heq
    exact ⟨haccepts, h⟩
  · rintro ⟨haccepts, h⟩
    exact ⟨[c], s, (stands_iff ht).mpr ⟨c, rfl, haccepts⟩, h, rfl⟩

/-! ## Matching -/

/-- The answers for the positions after the first are those for the rest of the text. -/
theorem tail_coverage (ts : List Token) (c : Char) (s : List Char) : (coverage ts (c :: s)).tail = coverage ts s := by
  induction ts with
  | nil => rfl
  | cons t ts ih =>
    have htail : (coversFrom t (c :: s) (coverage ts (c :: s))).tail = coversFrom t s (coverage ts (c :: s)).tail := by
      cases t <;> rfl
    rw [coverage, htail, ih, coverage]

/-- The matcher accepts the empty text at the end of the tokens. -/
theorem covers_nil (s : List Char) : covers [] s = s.isEmpty := by
  cases s <;> rfl

theorem covers_anyText_nil (ts : List Token) : covers (.anyText :: ts) [] = covers ts [] := rfl

/-- A `*` stands for nothing, or takes one more character. -/
theorem covers_anyText_cons (ts : List Token) (c : Char) (s : List Char) :
    covers (.anyText :: ts) (c :: s) = (covers ts (c :: s) || covers (.anyText :: ts) s) := by
  have hrest := tail_coverage ts c s
  change (_ || (coversFrom .anyText s (coverage ts (c :: s)).tail).headD false) = _
  rw [hrest]
  rfl

/-- At the end of the text it accepts a `*` only. -/
theorem covers_token_nil (ht : t ≠ .anyText) (ts : List Token) : covers (t :: ts) [] = false := by
  cases t with
  | anyText => exact absurd rfl ht
  | _ => rfl

/-- Elsewhere it compares a token with one character and goes on. -/
theorem covers_token_cons (ht : t ≠ .anyText) (ts : List Token) (c : Char) (s : List Char) :
    covers (t :: ts) (c :: s) = (t.accepts c && covers ts s) := by
  have hfirst : covers (t :: ts) (c :: s) = (t.accepts c && (coverage ts (c :: s)).tail.headD false) := by
    cases t with
    | anyText => exact absurd rfl ht
    | _ => rfl
  rw [hfirst, tail_coverage]
  rfl

/-- The matcher accepts just the texts that can be split along the tokens. -/
theorem covers_iff (ts : List Token) (s : List Char) : covers ts s = true ↔ Splits ts s := by
  induction ts generalizing s with
  | nil => rw [covers_nil, splits_nil_iff, List.isEmpty_iff]
  | cons t ts ih =>
    by_cases ht : t = .anyText
    · subst ht
      induction s with
      | nil => rw [covers_anyText_nil, splits_anyText_nil, ih]
      | cons c s ihs => rw [covers_anyText_cons, splits_anyText_cons, Bool.or_eq_true, ih, ihs]
    · cases s with
      | nil => exact iff_of_false (covers_token_nil ht ts ▸ Bool.false_ne_true) (not_splits_token_nil ht ts)
      | cons c s => rw [covers_token_cons ht, splits_token_cons ht, Bool.and_eq_true, ih]

/-! ## Reading -/

/-- The inside of a class: `]` does not occur in it unless it comes first, which it also does after a `!`. -/
inductive IsInside : List Char → Prop
  | plain (c : Char) (s : List Char) (hc : c ≠ '!') (hs : ']' ∉ s) : IsInside (c :: s)
  | negated (c : Char) (s : List Char) (hs : ']' ∉ s) : IsInside ('!' :: c :: s)

/-- A pattern is a sequence of tokens. -/
inductive Reads : List Char → List Token → Prop
  | nil : Reads [] []
  | anyText {s : List Char} {ts : List Token} (h : Reads s ts) : Reads ('*' :: s) (.anyText :: ts)
  | anyChar {s : List Char} {ts : List Token} (h : Reads s ts) : Reads ('?' :: s) (.anyChar :: ts)
  | oneOf {inside rest : List Char} {ts : List Token} (hinside : IsInside inside) (h : Reads rest ts) :
      Reads ('[' :: (inside ++ ']' :: rest)) (.oneOf (.spelledBy inside) :: ts)
  /-- A bracket that is not closed stands for itself. -/
  | unclosed {s : List Char} {ts : List Token} (hopen : ∀ inside rest, IsInside inside → s ≠ inside ++ ']' :: rest)
      (h : Reads s ts) : Reads ('[' :: s) (.char '[' :: ts)
  | char {c : Char} {s : List Char} {ts : List Token} (hc : c ≠ '*' ∧ c ≠ '?' ∧ c ≠ '[') (h : Reads s ts) :
      Reads (c :: s) (.char c :: ts)

/-- The inside of a class from its first member on, and the text after the class. -/
def closed? : List Char → Option (List Char × List Char)
  | [] => none
  | c :: s =>
    match s.dropWhile (· != ']') with
    | [] => none
    | _ :: rest => some (c :: s.takeWhile (· != ']'), rest)

/-- A class is closed by the first `]` that is not its first member. -/
theorem closed?_eq_some_iff : closed? s = some (inside, rest) ↔
    ∃ c after, inside = c :: after ∧ ']' ∉ after ∧ s = inside ++ ']' :: rest := by
  cases s with
  | nil => simp [closed?]
  | cons c s =>
    constructor
    · intro h
      rw [closed?] at h
      split at h
      · cases h
      · rename_i d after hdrop
        cases h
        have hhead := List.head?_dropWhile_not (· != ']') s
        rw [hdrop] at hhead
        obtain rfl : d = ']' := by simpa using hhead
        refine ⟨c, _, rfl, fun hmem => ?_, ?_⟩
        · have hpart := List.all_eq_true.mp List.all_takeWhile _ hmem
          simp at hpart
        · rw [List.cons_append, ← hdrop, List.takeWhile_append_dropWhile]
    · rintro ⟨d, after, rfl, hafter, heq⟩
      obtain ⟨rfl, rfl⟩ := List.cons_eq_cons.mp heq
      have hall : ∀ d ∈ after, (d != ']') = true := fun d hd => bne_iff_ne.mpr fun h => hafter (h ▸ hd)
      change closed? (c :: (after ++ ']' :: rest)) = _
      rw [closed?, List.dropWhile_append_of_pos hall, List.takeWhile_append_of_pos hall]
      simp

/-- A bracket that comes first is a member like any other. -/
theorem inside_after (bang s : List Char) :
    (let (bracket, s) := match s with
      | ']' :: rest => ([']'], rest)
      | s => ([], s)
    match s.dropWhile (· != ']') with
    | [] => none
    | _ :: rest => some (bang ++ bracket ++ s.takeWhile (· != ']'), rest)) = (closed? s).map fun p => (bang ++ p.1, p.2) := by
  split
  rename_i bracket after heq
  split at heq
  · cases heq
    rw [closed?]
    split <;> simp
  · rename_i hother
    cases heq
    cases s with
    | nil => rfl
    | cons c s =>
      have hc : (c != ']') = true := bne_iff_ne.mpr fun h => hother s (h ▸ rfl)
      rw [closed?, List.dropWhile_cons_of_pos (p := (· != ']')) hc, List.takeWhile_cons_of_pos (p := (· != ']')) hc]
      split <;> simp

/-- A `!` before the first member belongs to the inside. -/
theorem classInside?_bang (s : List Char) : classInside? ('!' :: s) = (closed? s).map fun p => ('!' :: p.1, p.2) :=
  inside_after ['!'] s

/-- Without it the class begins with its first member. -/
theorem classInside?_plain (h : ∀ s', s ≠ '!' :: s') : classInside? s = closed? s := by
  unfold classInside?
  split
  rename_i bang after heq
  split at heq
  · exact absurd rfl (h _)
  · cases heq
    refine (inside_after [] s).trans ?_
    cases closed? s <;> rfl

/-- A class is found just where a text begins with an inside and its `]`. -/
theorem classInside?_eq_some_iff : classInside? s = some (inside, rest) ↔ IsInside inside ∧ s = inside ++ ']' :: rest := by
  by_cases hbang : ∃ s', s = '!' :: s'
  · obtain ⟨s, rfl⟩ := hbang
    rw [classInside?_bang, Option.map_eq_some_iff]
    constructor
    · rintro ⟨⟨found, after⟩, hclosed, heq⟩
      cases heq
      obtain ⟨c, u, rfl, hu, rfl⟩ := closed?_eq_some_iff.mp hclosed
      exact ⟨.negated c u hu, rfl⟩
    · rintro ⟨hinside, heq⟩
      cases hinside with
      | plain c u hc hu =>
        cases heq
        exact absurd rfl hc
      | negated c u hu =>
        cases heq
        exact ⟨(c :: u, rest), closed?_eq_some_iff.mpr ⟨c, u, rfl, hu, rfl⟩, rfl⟩
  · have hplain : ∀ s', s ≠ '!' :: s' := fun s' heq => hbang ⟨s', heq⟩
    rw [classInside?_plain hplain, closed?_eq_some_iff]
    constructor
    · rintro ⟨c, u, rfl, hu, rfl⟩
      refine ⟨.plain c u (fun hc => ?_) hu, rfl⟩
      subst hc
      exact hplain _ rfl
    · rintro ⟨hinside, rfl⟩
      cases hinside with
      | plain c u hc hu => exact ⟨c, u, rfl, hu, rfl⟩
      | negated c u hu => exact absurd rfl (hplain _)

/-- A class that is closed is one token. -/
theorem tokens_oneOf (h : classInside? s = some (inside, rest)) :
    tokens ('[' :: s) = .oneOf (.ofInside inside) :: tokens rest := by
  rw [tokens]
  split
  · rename_i hnone
    rw [h] at hnone
    cases hnone
  · rename_i hsome
    rw [h] at hsome
    cases hsome
    rfl

/-- A bracket that is not closed is read as itself. -/
theorem tokens_unclosed (h : classInside? s = none) : tokens ('[' :: s) = .char '[' :: tokens s := by
  rw [tokens]
  split
  · rfl
  · rename_i hsome
    rw [h] at hsome
    cases hsome

/-- Every other character stands for itself. -/
theorem tokens_char (hc : c ≠ '*' ∧ c ≠ '?' ∧ c ≠ '[') (s : List Char) : tokens (c :: s) = .char c :: tokens s := by
  rw [tokens]
  · exact hc.1
  · exact hc.2.1
  · exact hc.2.2

/-- A pattern is read as its tokens, and in no other way. -/
theorem reads_iff : Reads s ts ↔ ts = tokens s := by
  constructor
  · intro h
    induction h with
    | nil => rw [tokens]
    | anyText _ ih => rw [tokens, ih]
    | anyChar _ ih => rw [tokens, ih]
    | oneOf hinside _ ih => rw [tokens_oneOf (classInside?_eq_some_iff.mpr ⟨hinside, rfl⟩), ofInside_eq, ih]
    | @unclosed s ts hopen _ ih =>
      have hnone : classInside? s = none := by
        refine Option.eq_none_iff_forall_ne_some.mpr fun found hsome => ?_
        obtain ⟨hinside, heq⟩ := classInside?_eq_some_iff.mp hsome
        exact hopen found.1 found.2 hinside heq
      rw [tokens_unclosed hnone, ih]
    | char hc _ ih => rw [tokens_char hc, ih]
  · rintro rfl
    fun_induction tokens s with
    | case1 => exact .nil
    | case2 rest ih => exact .anyText ih
    | case3 rest ih => exact .anyChar ih
    | case4 rest hclass ih =>
      refine .unclosed (fun inside after hinside heq => ?_) ih
      rw [classInside?_eq_some_iff.mpr ⟨hinside, heq⟩] at hclass
      cases hclass
    | case5 rest inside after hclass ih =>
      obtain ⟨hinside, rfl⟩ := classInside?_eq_some_iff.mp hclass
      rw [ofInside_eq]
      exact .oneOf hinside ih
    | case6 c rest hstar hmark hbracket ih => exact .char ⟨hstar, hmark, hbracket⟩ ih

/-! ## The decision -/

/-- The language of a pattern. -/
def InLanguage (pattern text : String) : Prop :=
  ∃ ts, Reads pattern.toList ts ∧ Splits ts text.toList

/-- A pattern matches the texts of its language. -/
theorem matchesText_iff (pattern text : String) : matchesText pattern text = true ↔ InLanguage pattern text := by
  rw [matchesText, covers_iff]
  constructor
  · exact fun h => ⟨_, reads_iff.mpr rfl, h⟩
  · rintro ⟨ts, hreads, h⟩
    rw [← reads_iff.mp hreads]
    exact h

/-- An entry is excluded if its name is one of the patterns, or its name or the text of its path is in the language of
one. Every pattern is read as one sequence of tokens, and the matcher accepts just the texts that can be split along it.
-/
theorem excludes_iff :
    (∀ patterns name path, excludes patterns name path = true ↔
      ∃ pattern ∈ patterns, pattern = name ∨ InLanguage pattern name ∨ InLanguage pattern path) ∧
    (∀ pattern, ∃! ts, Reads pattern ts) ∧
    (∀ pattern text, matchesText pattern text = true ↔ InLanguage pattern text) ∧
    ∀ ts s, covers ts s = true ↔ Splits ts s := by
  refine ⟨fun patterns name path => ?_, fun pattern => ?_, matchesText_iff, covers_iff⟩
  · simp only [excludes, List.any_eq_true, Bool.or_eq_true, beq_iff_eq, matchesText_iff, or_assoc]
  · exact ⟨tokens pattern, reads_iff.mpr rfl, fun ts hts => reads_iff.mp hts⟩

end DirWatch.Glob
