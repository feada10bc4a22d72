import DirWatch.Resolution
import DirWatch.Proofs.Disk.Descent

/-!
# Following a text by places

A place in a tree is the list of names that lead to it from the root. `Follows` says by recursion where the parts of a
text lead from a place: `..` drops the last name, a link leads to where its target leads, and then the parts behind it
go on from there. It bounds how many links are followed, one behind or within the other. Where the file system follows a
text, `Follows` leads to the same place (`follows_of_locate`). There is one such place at most (`Follows.unique`).
-/

namespace DirWatch

open Resolution (components)

/-- From where the first names lead to, the others lead on. -/
theorem Node.descend?_append (n : Node) (names more : List String) :
    n.descend? (names ++ more) = (n.descend? names).bind fun child => child.descend? more := by
  induction names generalizing n with
  | nil => rfl
  | cons name names ih =>
    cases n with
    | directory children m =>
      rw [List.cons_append, descend?, descend?]
      cases Listing.get? children name with
      | none => rfl
      | some child => exact ih child
    | _ => rfl

/-- What names lead to is a member of the directory that all but the last of them lead to. -/
theorem Node.descend?_concat {n child : Node} {names : List String} {name : String}
    (h : n.descend? (names ++ [name]) = some child) :
    ∃ children m, n.descend? names = some (.directory children m) ∧ Listing.get? children name = some child := by
  rw [descend?_append] at h
  obtain ⟨above, habove, h⟩ := Option.bind_eq_some_iff.mp h
  cases above with
  | directory children m =>
    rw [descend?] at h
    obtain ⟨found, hget, heq⟩ := Option.bind_eq_some_iff.mp h
    cases heq
    exact ⟨children, m, habove, hget⟩
  | _ => cases h

/-- The names that lead to a directory lead through directories. -/
theorem Node.descend?_prefix {n : Node} {above names : List String} {children : List (String × Node)} {m : Int}
    (h : n.descend? names = some (.directory children m)) (habove : above <+: names) :
    ∃ children m, n.descend? above = some (.directory children m) := by
  obtain ⟨more, rfl⟩ := habove
  rw [descend?_append] at h
  obtain ⟨middle, hmiddle, h⟩ := Option.bind_eq_some_iff.mp h
  cases middle with
  | directory others m => exact ⟨others, m, hmiddle⟩
  | _ => cases more <;> cases h

namespace Disk

/-- A part of a text that stands for a member of a directory. -/
structure IsMember (part : String) : Prop where
  nonempty : part ≠ ""
  not_dot : part ≠ "."
  not_up : part ≠ ".."

/-- Where the target of a link starts, seen from the directory of the link, and its parts. -/
def aim (place : List String) : List Char → List String × List String
  | '/' :: target => ([], components target)
  | target => (place, components target)

/-- A relative target starts at the directory of its link. -/
theorem aim_relative {target : List Char} (h : ∀ more, target ≠ '/' :: more) (place : List String) :
    aim place target = (place, components target) := by
  unfold aim
  split
  · exact absurd rfl (h _)
  · rfl

/-- No target starts at two dots. -/
theorem aim_upless {place : List String} (h : ".." ∉ place) (target : List Char) : ".." ∉ (aim place target).1 := by
  unfold aim
  split
  · exact List.not_mem_nil
  · exact h

/-- From a place in a tree, parts of a text lead to another one, through a number of links at most that follow one
another or stand in each other's targets. -/
inductive Follows (root : Node) : Nat → List String → List String → List String → Prop
  | nil {links place} : Follows root links place [] place
  | still {links place part rest found} (hpart : part = "" ∨ part = ".") (h : Follows root links place rest found) :
      Follows root links place (part :: rest) found
  | up {links place rest found} (h : Follows root links place.dropLast rest found) : Follows root links place (".." :: rest) found
  | member {links place part rest found child} (hpart : IsMember part) (hchild : root.descend? (place ++ [part]) = some child)
      (hreal : ∀ target m, child ≠ .link target m) (h : Follows root links (place ++ [part]) rest found) :
      Follows root links place (part :: rest) found
  | link {links place part rest found target m middle} (hpart : IsMember part)
      (hchild : root.descend? (place ++ [part]) = some (.link target m))
      (htarget : Follows root links (aim place target.toList).1 (aim place target.toList).2 middle)
      (h : Follows root links middle rest found) : Follows root (links + 1) place (part :: rest) found

namespace Follows

variable {root child : Node} {links links' : Nat} {place found other : List String} {part : String}
    {rest parts parts' : List String}

/-- A text that leads somewhere does so with more links allowed. -/
theorem mono (h : Follows root links place parts found) (hle : links ≤ links') : Follows root links' place parts found := by
  induction h generalizing links' with
  | nil => exact .nil
  | still hpart _ ih => exact .still hpart (ih hle)
  | up _ ih => exact .up (ih hle)
  | member hpart hchild hreal _ ih => exact .member hpart hchild hreal (ih hle)
  | link hpart hchild _ _ ihtarget ih =>
    obtain ⟨more, rfl⟩ := Nat.exists_eq_add_of_le' (Nat.one_le_of_lt hle)
    have hle := Nat.le_of_succ_le_succ hle
    exact .link hpart hchild (ihtarget hle) (ih hle)

/-- A part that leads nowhere else can be left out. -/
theorem of_still (h : Follows root links place (part :: rest) found) (hpart : part = "" ∨ part = ".") :
    Follows root links place rest found := by
  cases h with
  | still _ h => exact h
  | up => simp at hpart
  | member hmember => exact absurd hpart (not_or.mpr ⟨hmember.nonempty, hmember.not_dot⟩)
  | link hmember => exact absurd hpart (not_or.mpr ⟨hmember.nonempty, hmember.not_dot⟩)

/-- Two dots have led to the directory above. -/
theorem of_up (h : Follows root links place (".." :: rest) found) : Follows root links place.dropLast rest found := by
  cases h with
  | still hpart => simp at hpart
  | up h => exact h
  | member hmember => exact absurd rfl hmember.not_up
  | link hmember => exact absurd rfl hmember.not_up

/-- A name has led to an object that is no link, or to the target of a link. -/
theorem of_member (h : Follows root links place (part :: rest) found) (hpart : IsMember part) :
    (∃ child, root.descend? (place ++ [part]) = some child ∧ (∀ target m, child ≠ .link target m) ∧
      Follows root links (place ++ [part]) rest found) ∨
    ∃ fewer target m middle, links = fewer + 1 ∧ root.descend? (place ++ [part]) = some (.link target m) ∧
      Follows root fewer (aim place target.toList).1 (aim place target.toList).2 middle ∧
      Follows root fewer middle rest found := by
  cases h with
  | still hstill => exact absurd hstill (not_or.mpr ⟨hpart.nonempty, hpart.not_dot⟩)
  | up => exact absurd rfl hpart.not_up
  | member _ hchild hreal h => exact Or.inl ⟨_, hchild, hreal, h⟩
  | link _ hchild htarget h => exact Or.inr ⟨_, _, _, _, rfl, hchild, htarget, h⟩

/-- Parts lead to one place at most, however many links may be followed. -/
theorem unique (h : Follows root links place parts found) (h' : Follows root links' place parts other) : found = other := by
  induction h generalizing links' other with
  | nil =>
    cases h'
    rfl
  | still hpart _ ih => exact ih (h'.of_still hpart)
  | up _ ih => exact ih h'.of_up
  | member hpart hchild hreal _ ih =>
    rcases h'.of_member hpart with ⟨_, -, -, h'⟩ | ⟨_, target, m, _, rfl, hlink, -, -⟩
    · exact ih h'
    · rw [hchild] at hlink
      exact absurd (Option.some.inj hlink) (hreal target m)
  | @link _ _ _ _ _ target m _ hpart hchild _ _ ihtarget ih =>
    rcases h'.of_member hpart with ⟨_, hchild', hreal, -⟩ | ⟨_, _, _, _, rfl, hchild', htarget, h'⟩
    · rw [hchild] at hchild'
      exact absurd (Option.some.inj hchild').symm (hreal target m)
    · rw [hchild] at hchild'
      cases hchild'
      obtain rfl := ihtarget htarget
      exact ih h'

/-- Parts of a text lead to no place with the name `..` in it. -/
theorem upless (h : Follows root links place parts found) (hplace : ".." ∉ place) : ".." ∉ found := by
  induction h with
  | nil => exact hplace
  | still _ _ ih => exact ih hplace
  | up _ ih => exact ih fun hmem => hplace (List.dropLast_subset _ hmem)
  | member hpart _ _ _ ih => exact ih (by simpa [hplace] using hpart.not_up.symm)
  | link _ _ _ _ ihtarget ih => exact ih (ihtarget (aim_upless hplace _))

/-- Parts lead on from where the parts before them lead. -/
theorem split (h : Follows root links place (parts ++ parts') found) :
    ∃ middle, Follows root links place parts middle ∧ Follows root links middle parts' found := by
  induction parts generalizing links place with
  | nil => exact ⟨place, .nil, h⟩
  | cons part parts ih =>
    rw [List.cons_append] at h
    cases h with
    | still hpart h =>
      obtain ⟨middle, hfirst, hlater⟩ := ih h
      exact ⟨middle, .still hpart hfirst, hlater⟩
    | up h =>
      obtain ⟨middle, hfirst, hlater⟩ := ih h
      exact ⟨middle, .up hfirst, hlater⟩
    | member hpart hchild hreal h =>
      obtain ⟨middle, hfirst, hlater⟩ := ih h
      exact ⟨middle, .member hpart hchild hreal hfirst, hlater⟩
    | link hpart hchild htarget h =>
      obtain ⟨middle, hfirst, hlater⟩ := ih h
      exact ⟨middle, .link hpart hchild htarget hfirst, hlater.mono (Nat.le_succ _)⟩

/-- The parts that lead nowhere else do not matter. -/
theorem filter_iff {keep : String → Bool} (hkeep : ∀ part, keep part = true ↔ ¬(part = "" ∨ part = ".")) :
    Follows root links place (parts.filter keep) found ↔ Follows root links place parts found := by
  constructor
  · intro h
    induction parts generalizing links place with
    | nil => exact h
    | cons part parts ih =>
      by_cases hpart : part = "" ∨ part = "."
      · rw [List.filter_cons_of_neg (by rw [hkeep]; exact not_not.mpr hpart)] at h
        exact .still hpart (ih h)
      · rw [List.filter_cons_of_pos ((hkeep part).mpr hpart)] at h
        cases h with
        | still hstill => exact absurd hstill hpart
        | up h => exact .up (ih h)
        | member hmember hchild hreal h => exact .member hmember hchild hreal (ih h)
        | link hmember hchild htarget h => exact .link hmember hchild htarget (ih h)
  · intro h
    induction h with
    | nil => exact .nil
    | still hpart _ ih =>
      rw [List.filter_cons_of_neg (by rw [hkeep]; exact not_not.mpr hpart)]
      exact ih
    | up _ ih =>
      rw [List.filter_cons_of_pos ((hkeep _).mpr (by decide))]
      exact .up ih
    | member hpart hchild hreal _ ih =>
      rw [List.filter_cons_of_pos ((hkeep _).mpr (not_or.mpr ⟨hpart.nonempty, hpart.not_dot⟩))]
      exact .member hpart hchild hreal ih
    | link hpart hchild htarget _ _ ih =>
      rw [List.filter_cons_of_pos ((hkeep _).mpr (not_or.mpr ⟨hpart.nonempty, hpart.not_dot⟩))]
      exact .link hpart hchild htarget ih

/-- Names lead straight to a place, if there is no link on the way. -/
theorem straight {names : List String} (hnames : ∀ name ∈ names, IsMember name)
    (hreal : ∀ above, above <+: names → ∃ n, root.descend? (place ++ above) = some n ∧
      ∀ target m, n ≠ .link target m) :
    Follows root links place names (place ++ names) := by
  induction names generalizing place with
  | nil =>
    rw [List.append_nil]
    exact .nil
  | cons name names ih =>
    obtain ⟨hname, hlater⟩ := List.forall_mem_cons.mp hnames
    obtain ⟨child, hchild, hchildreal⟩ := hreal [name] ⟨names, rfl⟩
    rw [← List.singleton_append, ← List.append_assoc]
    refine .member hname hchild hchildreal (ih hlater fun above habove => ?_)
    rw [List.append_assoc]
    exact hreal ([name] ++ above) (List.prefix_append_right_inj [name] |>.mpr habove)

end Follows

/-! ## The walk of the file system -/

/-- The place at the end of a trail. -/
def placeOf (trail : List (String × Node)) : List String :=
  (trail.map (·.1)).reverse

/-- Each object of a trail is a member of the one before it, under its name. -/
inductive IsTrail (root : Node) : List (String × Node) → Prop
  | nil : IsTrail root []
  | cons {trail name child children m} (h : IsTrail root trail) (hend : trailEnd root trail = .directory children m)
      (hget : Listing.get? children name = some child) : IsTrail root ((name, child) :: trail)

variable {d : Disk} {root : Node} {links : Nat} {trail found : List (String × Node)}

/-- A trail that goes on to a member ends at its name. -/
theorem placeOf_cons (name : String) (child : Node) (trail : List (String × Node)) :
    placeOf ((name, child) :: trail) = placeOf trail ++ [name] := by
  simp [placeOf]

/-- One step back on the trail is one name less. -/
theorem placeOf_tail (trail : List (String × Node)) : placeOf trail.tail = (placeOf trail).dropLast := by
  cases trail with
  | nil => rfl
  | cons p trail =>
    obtain ⟨name, child⟩ := p
    rw [placeOf_cons, List.dropLast_concat, List.tail_cons]

/-- Without its last step a trail is still one. -/
theorem IsTrail.tail (h : IsTrail root trail) : IsTrail root trail.tail := by
  cases h with
  | nil => exact .nil
  | cons h _ _ => exact h

/-- The names of a trail lead to its end. -/
theorem IsTrail.descend? (h : IsTrail root trail) : root.descend? (placeOf trail) = some (trailEnd root trail) := by
  induction h with
  | nil => rfl
  | cons _ hend hget ih =>
    rw [placeOf_cons, Node.descend?_append, ih, hend]
    simp [Node.descend?, hget, trailEnd]

/-- A part that is neither empty nor made of dots is a name. -/
theorem isMember_of_part {part : List Char} (hstill : ¬IsStill part) (hup : part ≠ ['.', '.']) :
    IsMember (String.ofList part) := by
  have hchars : ∀ text : String, String.ofList part = text → part = text.toList := by
    rintro text rfl
    exact String.toList_ofList.symm
  exact ⟨fun h => hstill (Or.inl (hchars _ h)), fun h => hstill (Or.inr (hchars _ h)), fun h => hup (hchars _ h)⟩

/-- A part that leads nowhere is empty or a dot. -/
theorem still_of_part {part : List Char} (h : IsStill part) : String.ofList part = "" ∨ String.ofList part = "." :=
  h.imp (congrArg String.ofList) (congrArg String.ofList)

/-- Parts are followed to a place, if the targets of the links among them are. -/
theorem follows_of_jump {parts : List (List Char)}
    (hjump : ∀ {trail target parts found}, IsTrail root trail → jump root true links target trail parts = .ok found →
      IsTrail root found ∧ ∃ fewer middle, links = fewer + 1 ∧
        Follows root fewer (aim (placeOf trail) target).1 (aim (placeOf trail) target).2 middle ∧
          Follows root fewer middle (parts.map String.ofList) (placeOf found))
    (htrail : IsTrail root trail) (h : follow root true links trail parts = .ok found) :
    IsTrail root found ∧ Follows root links (placeOf trail) (parts.map String.ofList) (placeOf found) := by
  induction parts generalizing trail with
  | nil =>
    rw [follow_eq] at h
    cases h
    exact ⟨htrail, .nil⟩
  | cons part parts ih =>
    cases hend : trailEnd root trail with
    | directory children m =>
      by_cases hstill : IsStill part
      · rw [follow_skip hend hstill] at h
        obtain ⟨hfound, hfollows⟩ := ih htrail h
        exact ⟨hfound, .still (still_of_part hstill) hfollows⟩
      by_cases hup : part = ['.', '.']
      · subst hup
        rw [follow_up hend] at h
        obtain ⟨hfound, hfollows⟩ := ih htrail.tail h
        rw [placeOf_tail] at hfollows
        exact ⟨hfound, .up hfollows⟩
      have hpart := isMember_of_part hstill hup
      have hdescend : ∀ {child}, Listing.get? children (String.ofList part) = some child →
          IsTrail root ((String.ofList part, child) :: trail) ∧
            root.descend? (placeOf trail ++ [String.ofList part]) = some child := by
        intro child hget
        have hnext := htrail.cons hend hget
        exact ⟨hnext, placeOf_cons _ child trail ▸ hnext.descend?⟩
      rw [follow_name hend hstill hup] at h
      split at h
      · cases h
      · rename_i target m' hget
        rw [if_neg (by simp)] at h
        obtain ⟨hfound, fewer, middle, rfl, htarget, hfollows⟩ := hjump htrail h
        exact ⟨hfound, .link hpart (hdescend hget).2 htarget hfollows⟩
      · rename_i child hreal hget
        obtain ⟨hnext, hchild⟩ := hdescend hget
        obtain ⟨hfound, hfollows⟩ := ih hnext h
        rw [placeOf_cons] at hfollows
        exact ⟨hfound, .member hpart hchild hreal hfollows⟩
    | _ =>
      rw [follow_file (by simp [hend])] at h
      cases h

/-- Where the file system follows parts of a text, they lead to that place. -/
theorem follows_of_follow {parts : List (List Char)} (htrail : IsTrail root trail)
    (h : follow root true links trail parts = .ok found) :
    IsTrail root found ∧ Follows root links (placeOf trail) (parts.map String.ofList) (placeOf found) := by
  induction links generalizing trail parts found with
  | zero =>
    refine follows_of_jump (fun _ hjump => ?_) htrail h
    cases hjump
  | succ fewer ih =>
    refine follows_of_jump (fun {trail target parts found} htrail hjump => ?_) htrail h
    have hcut : ∀ {start : List (String × Node)} {target : List Char}, IsTrail root start →
        follow root true fewer start (Text.split '/' target ++ parts) = .ok found →
        IsTrail root found ∧ ∃ middle, Follows root fewer (placeOf start) (components target) middle ∧
          Follows root fewer middle (parts.map String.ofList) (placeOf found) := by
      intro start target hstart hfollow
      obtain ⟨hfound, hfollows⟩ := ih hstart hfollow
      rw [List.map_append] at hfollows
      exact ⟨hfound, hfollows.split⟩
    unfold jump at hjump
    dsimp only at hjump
    split at hjump
    · cases hjump
    · obtain ⟨hfound, middle, htarget, hlater⟩ := hcut .nil hjump
      exact ⟨hfound, fewer, middle, rfl, htarget, hlater⟩
    · rename_i hrelative
      obtain ⟨hfound, middle, htarget, hlater⟩ := hcut htrail hjump
      refine ⟨hfound, fewer, middle, rfl, ?_, hlater⟩
      rw [aim_relative hrelative]
      exact htarget

/-- The parts of an absolute text lead to the place at which the text is located. -/
theorem follows_of_locate {text : String} {place : List String} {n : Node} (habsolute : text.toList.head? = some '/')
    (h : d.locate true text = .ok (place, n)) :
    Follows d.root maxLinks [] (components text.toList) place ∧ d.root.descend? place = some n := by
  unfold locate absoluteText at h
  rw [if_pos habsolute] at h
  split at h
  · cases h
  · split at h
    · cases h
    · rename_i trail hfollow
      cases h
      obtain ⟨htrail, hfollows⟩ := follows_of_follow .nil hfollow
      exact ⟨hfollows, htrail.descend?⟩

end Disk

end DirWatch
