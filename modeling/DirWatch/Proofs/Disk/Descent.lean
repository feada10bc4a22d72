import DirWatch.Capture
import DirWatch.Proofs.Disk.Names

/-!
# Down a tree of files

A path that leads to a directory leads with one more name to the child of that name, unless the child is a link
(`Leads.down`). So what a capture is told below a root is what stands in the tree there: a listing has the names of the
children (`Leads.list`), and looking at a member shows the child itself (`Leads.member`).
-/

namespace DirWatch

/-- A text is split at each separator. -/
theorem Text.split_append (sep : Char) (a b : List Char) : split sep (a ++ sep :: b) = split sep a ++ split sep b := by
  induction a with
  | nil => simp [split]
  | cons c a ih =>
    rw [List.cons_append, split, split, ih]
    split
    · rfl
    · cases hsplit : split sep a with
      | nil => exact absurd hsplit (split_ne_nil sep a)
      | cons piece pieces => rfl

/-- The object that names lead to from an object, through directories only. -/
def Node.descend? (n : Node) : List String → Option Node
  | [] => some n
  | name :: names =>
    match n with
    | .directory children _ => (Listing.get? children name).bind fun child => child.descend? names
    | _ => none

/-- What has a name below it is a directory. -/
theorem Node.descend?_cons {n : Node} {name : String} {names : List String} (h : (n.descend? (name :: names)).isSome = true) :
    ∃ children m child, n = .directory children m ∧ Listing.get? children name = some child ∧
    (child.descend? names).isSome = true := by
  cases n with
  | directory children m =>
    rw [descend?] at h
    cases hget : Listing.get? children name with
    | none =>
      rw [hget] at h
      cases h
    | some child =>
      rw [hget] at h
      exact ⟨children, m, child, rfl, hget, h⟩
  | _ => cases h

/-- An object is smaller than the directory that it is a member of. -/
theorem Node.sizeOf_lt_of_mem {children : List (String × Node)} {m : Int} {name : String} {n : Node}
    (h : (name, n) ∈ children) : sizeOf n < sizeOf (Node.directory children m) := by
  have hlt := List.sizeOf_lt_of_mem h
  simp only [directory.sizeOf_spec, Prod.mk.sizeOf_spec] at hlt ⊢
  omega

namespace Disk

/-- Whether the path exists that names lead to from a root. Only the last of them may stand for something else than a
directory. -/
def holds (d : Disk) (root : Path) (names : List String) : Bool :=
  match d.locate true (toString root) with
  | .ok (_, n) => (n.descend? names).isSome
  | .error _ => false

variable {d : Disk} {root n child : Node} {last : Bool} {links : Nat} {trail found : List (String × Node)}
  {parts still : List (List Char)} {part : List Char} {name : String} {p : Path} {children : List (String × Node)} {m : Int}

/-- Parts of a text that lead from a directory to itself. -/
def IsStill (part : List Char) : Prop :=
  part = [] ∨ part = ['.']

/-- Goes on with the target of a link. -/
def jump (root : Node) (last : Bool) : Nat → List Char → List (String × Node) → List (List Char) →
    Except Errno (List (String × Node))
  | 0, _, _, _ => .error .tooManyLinks
  | links + 1, target, trail, rest =>
    match target with
    | [] => .error .noEntry
    | '/' :: target => follow root last links [] (Text.split '/' target ++ rest)
    | target => follow root last links trail (Text.split '/' target ++ rest)

/-- To follow the parts of a text is to go on from part to part, and to jump at a link. -/
theorem follow_eq (root : Node) (last : Bool) (links : Nat) :
    follow root last links = advance root last (jump root last links) := by
  cases links <;> rfl

section

variable (hend : trailEnd root trail = .directory children m)

include hend

/-- A part that leads nowhere is skipped. -/
theorem follow_skip (hpart : IsStill part) :
    follow root last links trail (part :: parts) = follow root last links trail parts := by
  simp only [follow_eq, advance, hend]
  exact if_pos hpart

/-- Two dots lead back on the trail. -/
theorem follow_up : follow root last links trail (['.', '.'] :: parts) = follow root last links trail.tail parts := by
  simp [follow_eq, advance, hend]

variable (hpart : ¬IsStill part) (hup : part ≠ ['.', '.'])

include hpart hup

/-- A name leads to the member of the directory. -/
theorem follow_name : follow root last links trail (part :: parts) =
    match Listing.get? children (String.ofList part) with
    | none => .error .noEntry
    | some (.link target m) =>
      if parts = [] ∧ !last then .ok ((String.ofList part, .link target m) :: trail)
      else jump root last links target.toList trail parts
    | some child => follow root last links ((String.ofList part, child) :: trail) parts := by
  rw [follow_eq, advance, hend]
  exact (if_neg hpart).trans (if_neg hup)

end

/-- There are no members where there is no directory. -/
theorem follow_file (hend : ∀ children m, trailEnd root trail ≠ .directory children m) (part : List Char)
    (rest : List (List Char)) :
    follow root last links trail (part :: rest) = .error .notDirectory := by
  rw [follow_eq, advance]
  cases h : trailEnd root trail with
  | directory children m => exact absurd h (hend children m)
  | _ => rfl

/-- Parts that lead nowhere leave the trail as it is. -/
theorem follow_still (hstill : ∀ part ∈ still, IsStill part) (h : follow root last links trail still = .ok found) :
    found = trail := by
  induction still with
  | nil =>
    rw [follow_eq] at h
    cases h
    rfl
  | cons part still ih =>
    have hlater : ∀ other ∈ still, IsStill other := fun other hother => hstill other (List.mem_cons_of_mem _ hother)
    cases hend : trailEnd root trail with
    | directory children m =>
      rw [follow_skip hend (hstill part List.mem_cons_self)] at h
      exact ih hlater h
    | _ =>
      rw [follow_file (by simp [hend])] at h
      cases h

/-- The parts up to the first link to be followed lead on as they did, if the links do. -/
theorem follow_extend_of (hstill : ∀ part ∈ still, IsStill part)
    (hjump : ∀ {target trail rest}, jump root true links target trail (rest ++ still) = .ok found →
      ∃ links', ∀ last part, jump root last links target trail (rest ++ [part]) = follow root last links' found [part])
    (h : follow root true links trail (parts ++ still) = .ok found) :
    ∃ links', ∀ last part, follow root last links trail (parts ++ [part]) = follow root last links' found [part] := by
  induction parts generalizing trail with
  | nil =>
    obtain rfl := follow_still hstill h
    exact ⟨links, fun _ _ => rfl⟩
  | cons one parts ih =>
    rw [List.cons_append] at h
    simp only [List.cons_append]
    cases hend : trailEnd root trail with
    | directory children m =>
      by_cases hone : IsStill one
      · rw [follow_skip hend hone] at h
        simpa only [follow_skip hend hone] using ih h
      · by_cases hup : one = ['.', '.']
        · subst hup
          rw [follow_up hend] at h
          simpa only [follow_up hend] using ih h
        · rw [follow_name hend hone hup] at h
          simp only [follow_name hend hone hup]
          split at h
          · cases h
          · have hgoes : ∀ {last : Bool} {part : List Char}, ¬(parts ++ [part] = [] ∧ (!last) = true) := by simp
            rw [if_neg (by simp)] at h
            simpa only [if_neg hgoes] using hjump h
          · exact ih h
    | _ =>
      rw [follow_file (by simp [hend])] at h
      cases h

/-- What leads to a trail leads with one more part wherever the part leads from there. Parts that lead nowhere may be
left out. -/
theorem follow_extend (hstill : ∀ part ∈ still, IsStill part)
    (h : follow root true links trail (parts ++ still) = .ok found) :
    ∃ links', ∀ last part, follow root last links trail (parts ++ [part]) = follow root last links' found [part] := by
  induction links generalizing trail parts with
  | zero =>
    refine follow_extend_of hstill ?_ h
    intro _ _ _ hj
    cases hj
  | succ links ih =>
    refine follow_extend_of hstill ?_ h
    intro target trail rest hj
    unfold jump at hj ⊢
    dsimp only at hj ⊢
    split at hj
    · cases hj
    · rw [← List.append_assoc] at hj
      simpa only [List.append_assoc] using ih hj
    · rename_i hnil hslash
      rw [← List.append_assoc] at hj
      obtain ⟨links', hlinks⟩ := ih hj
      refine ⟨links', fun last part => ?_⟩
      rw [← hlinks last part, List.append_assoc]

/-! ## Texts -/

/-- One text goes on from another with a name: they differ in the last part, apart from parts that lead nowhere. -/
def Continues (d : Disk) (above below name : String) : Prop :=
  below ≠ "" ∧ ∃ parts still, (∀ part ∈ still, IsStill part) ∧
    Text.split '/' (d.absoluteText above).toList = parts ++ still ∧
    Text.split '/' (d.absoluteText below).toList = parts ++ [name.toList]

variable {above below : String}

/-- What is added to a text is added to it as an absolute one. -/
theorem absoluteText_append (d : Disk) (h : above ≠ "") (below : String) :
    (d.absoluteText (above ++ below)).toList = (d.absoluteText above).toList ++ below.toList := by
  have hhead : (above ++ below).toList.head? = above.toList.head? := by
    rw [String.toList_append]
    refine List.head?_append_of_ne_nil _ ?_
    simpa using h
  unfold absoluteText
  rw [hhead]
  split
  · simp
  · split <;> simp

/-- A single component has no slash to be split at. -/
theorem split_name (h : Path.IsName name) : Text.split '/' name.toList = [name.toList] :=
  Text.split_of_notMem h.2.2

/-- The text of a directory goes on with a slash and a name. -/
theorem continues_slash (d : Disk) (hname : Path.IsName name) (h : above ≠ "") :
    Continues d above (above ++ "/" ++ name) name := by
  refine ⟨by simp [h], Text.split '/' (d.absoluteText above).toList, [], by simp, by simp, ?_⟩
  rw [String.append_assoc, absoluteText_append d h]
  simp [Text.split_append, split_name hname]

/-- A text that ends with a slash goes on without another. -/
theorem continues_joined (d : Disk) (hname : Path.IsName name) (h : above.toList.getLast? = some '/') :
    Continues d above (above ++ name) name := by
  obtain ⟨first, hfirst⟩ := List.getLast?_eq_some_iff.mp h
  have hne : above ≠ "" := by
    rintro rfl
    simp at h
  have habove : ∃ first, (d.absoluteText above).toList = first ++ ['/'] := by
    unfold absoluteText
    split
    · exact ⟨first, hfirst⟩
    · split
      · exact ⟨d.cwd.toList ++ first, by simp [hfirst]⟩
      · exact ⟨d.cwd.toList ++ '/' :: first, by simp [hfirst]⟩
  obtain ⟨first, hfirst⟩ := habove
  refine ⟨by simp [hne], Text.split '/' first, [[]], by simp [IsStill], ?_, ?_⟩
  · rw [hfirst, Text.split_append]
    rfl
  · rw [absoluteText_append d hne, hfirst, List.append_assoc, List.singleton_append, Text.split_append, split_name hname]

/-- The dot that stands for the current directory is left out below it. -/
theorem continues_dot (d : Disk) (hname : Path.IsName name) : Continues d "." name name := by
  have hslash : name.toList.head? ≠ some '/' := fun hhead => hname.2.2 (List.mem_of_head? hhead)
  refine ⟨hname.1, ?_⟩
  unfold absoluteText
  rw [if_neg hslash, if_neg (by decide)]
  split
  · rename_i hend
    obtain ⟨first, hfirst⟩ := List.getLast?_eq_some_iff.mp hend
    refine ⟨Text.split '/' first, [['.']], by simp [IsStill], ?_, ?_⟩
    · simp [hfirst, Text.split_append, Text.split]
    · simp [hfirst, Text.split_append, split_name hname]
  · refine ⟨Text.split '/' d.cwd.toList, [['.']], by simp [IsStill], ?_, ?_⟩
    · simp [Text.split_append, Text.split]
    · simp [Text.split_append, split_name hname]

/-- One more name comes after one more separator. -/
theorem intercalate_concat (sep : String) {names : List String} (h : names ≠ []) (name : String) :
    sep.intercalate (names ++ [name]) = sep.intercalate names ++ sep ++ name := by
  induction names with
  | nil => exact absurd rfl h
  | cons first names ih =>
    cases names with
    | nil => simp
    | cons second names =>
      have hrest := ih (List.cons_ne_nil _ _)
      rw [List.cons_append, List.cons_append, String.intercalate_cons_cons, ← List.cons_append, hrest,
        String.intercalate_cons_cons]
      simp [String.append_assoc]

theorem toString_down (anchor : Anchor) {names : List String} (h : names ≠ []) (name : String) :
    toString ((⟨anchor, names⟩ : Path).down [name]) = toString (⟨anchor, names⟩ : Path) ++ "/" ++ name := by
  simp [toString, Path.toString, Path.down, h, intercalate_concat, String.append_assoc]

/-- The path of a member goes on from the path of its directory. -/
theorem continues_child (d : Disk) (hname : Path.IsName name) (h : toString p ≠ "") :
    Continues d (toString p) (toString (p.child name)) name := by
  obtain ⟨anchor, names⟩ := p
  rw [Path.child_eq_down hname]
  by_cases hnames : names = []
  · subst hnames
    cases anchor with
    | relative =>
      have htext : toString ((⟨.relative, []⟩ : Path).down [name]) = name := by
        simp [toString, Path.toString, Path.down, Anchor.text]
      rw [htext]
      exact continues_dot d hname
    | root =>
      have htext : toString ((⟨.root, []⟩ : Path).down [name]) = toString (⟨.root, []⟩ : Path) ++ name := by
        simp [toString, Path.toString, Path.down, Anchor.text]
      rw [htext]
      exact continues_joined d hname (by decide)
    | doubled =>
      have htext : toString ((⟨.doubled, []⟩ : Path).down [name]) = toString (⟨.doubled, []⟩ : Path) ++ name := by
        simp [toString, Path.toString, Path.down, Anchor.text]
      rw [htext]
      exact continues_joined d hname (by decide)
  · rw [toString_down anchor hnames]
    exact continues_slash d hname h

/-- So does the text of a member in a listing. -/
theorem continues_memberText (d : Disk) (hname : Path.IsName name) (h : above ≠ "") :
    Continues d above (Capture.memberText above name) name := by
  unfold Capture.memberText
  split
  · rename_i hend
    exact continues_joined d hname hend
  · exact continues_slash d hname h

/-! ## Answers -/

/-- A path leads to an object. Links are followed. -/
def Leads (d : Disk) (p : Path) (n : Node) : Prop :=
  ∃ place, d.locate true (toString p) = .ok (place, n)

/-- What stands under a text stands at the end of its trail. -/
theorem locate_eq {path : String} {place : List String} (h : d.locate last path = .ok (place, n)) : path ≠ "" ∧
    ∃ trail, follow d.root last maxLinks [] (Text.split '/' (d.absoluteText path).toList) = .ok trail ∧
    trailEnd d.root trail = n := by
  unfold locate at h
  split at h
  · cases h
  · rename_i hne
    split at h
    · cases h
    · rename_i trail htrail
      cases h
      exact ⟨by simpa using hne, trail, htrail, rfl⟩

/-- A trail ends at what stands under the text. -/
theorem locate_of_follow {path : String} (hne : path ≠ "")
    (h : follow d.root last maxLinks [] (Text.split '/' (d.absoluteText path).toList) = .ok trail) :
    ∃ place, d.locate last path = .ok (place, trailEnd d.root trail) := by
  unfold locate
  rw [if_neg (by simpa using hne), h]
  exact ⟨_, rfl⟩

/-- From a directory a text goes on to the child of that name, if no link has to be followed. -/
theorem Continues.locate {place : List String} (h : Continues d above below name)
    (habove : d.locate true above = .ok (place, .directory children m)) (hname : Path.IsName name) (hup : name ≠ "..")
    (hget : Listing.get? children name = some child) (hreal : last = false ∨ ∀ target m, child ≠ .link target m) :
    ∃ place, d.locate last below = .ok (place, child) := by
  obtain ⟨hne, parts, still, hstill, hparts, hbelow⟩ := h
  obtain ⟨-, trail, htrail, hend⟩ := locate_eq habove
  rw [hparts] at htrail
  obtain ⟨links, hgoes⟩ := follow_extend hstill htrail
  have hpart : ¬IsStill name.toList := by
    rintro (hnil | hdot)
    · exact hname.1 (by simpa using hnil)
    · exact hname.2.1 (String.toList_inj.mp hdot)
  have hparent : name.toList ≠ ['.', '.'] := fun heq => hup (String.toList_inj.mp heq)
  have hlast : follow d.root last maxLinks [] (parts ++ [name.toList]) = .ok ((name, child) :: trail) := by
    rw [hgoes, follow_name hend hpart hparent, String.ofList_toList, hget]
    cases child with
    | link target m =>
      rcases hreal with rfl | hreal
      · rfl
      · exact absurd rfl (hreal target m)
    | _ =>
      rw [follow_eq]
      rfl
  rw [← hbelow] at hlast
  exact locate_of_follow hne hlast

section

variable (h : Leads d p (.directory children m)) (hname : Path.IsName name) (hup : name ≠ "..")
  (hget : Listing.get? children name = some child)

include h

/-- A directory lists its members in order, if its text is legible. -/
theorem Leads.list : d.answer (.list (toString p)) = .error .nulCharacter ∨
    d.answer (.list (toString p)) = .ok (Listing.names (Listing.sorted children)) := by
  obtain ⟨place, hlocate⟩ := h
  unfold answer
  split
  · exact Or.inl rfl
  · right
    dsimp only
    rw [hlocate]

include hname hup hget

/-- A path leads to a member by its name, unless the member is a link. -/
theorem Leads.down (hreal : ∀ target m, child ≠ .link target m) : Leads d (p.child name) child := by
  obtain ⟨place, hlocate⟩ := h
  exact (continues_child d hname (locate_eq hlocate).1).locate hlocate hname hup hget (Or.inr hreal)

/-- The answer about a member is about what stands there. -/
theorem Leads.member : d.answer (.member (Capture.memberText (toString p) name)) = .error .nulCharacter ∨
    d.answer (.member (Capture.memberText (toString p) name)) = .ok child.info := by
  obtain ⟨place, hlocate⟩ := h
  have hcontinues := continues_memberText d hname (locate_eq hlocate).1
  obtain ⟨place', hmember⟩ : ∃ place, d.locate false (Capture.memberText (toString p) name) = .ok (place, child) :=
    hcontinues.locate hlocate hname hup hget (Or.inl rfl)
  unfold answer
  split
  · exact Or.inl rfl
  · right
    dsimp only
    rw [hmember]

end

/-- The answer about a path is about what it leads to. -/
theorem Leads.stat (h : Leads d p n) : d.answer (.stat (toString p)) = .error .nulCharacter ∨
    d.answer (.stat (toString p)) = .ok n.info := by
  obtain ⟨place, hlocate⟩ := h
  unfold answer
  split
  · exact Or.inl rfl
  · right
    dsimp only
    rw [hlocate]

/-- If a path exists below a root, the root leads to an object that has it. -/
theorem leads_of_holds {names : List String} (h : d.holds p names = true) (hnamed : d.Named) :
    ∃ n, Leads d p n ∧ n.Named ∧ (n.descend? names).isSome = true := by
  unfold holds at h
  split at h
  · rename_i place n hlocate
    exact ⟨n, ⟨place, hlocate⟩, hnamed.locate hlocate, h⟩
  · cases h

/-- On the way down to an object stand directories, each with the next name. -/
theorem Leads.way (h : Leads d p n) (hn : n.Named) {above rest : List String} (hup : ".." ∉ above)
    (hsome : (n.descend? (above ++ name :: rest)).isSome = true) : Path.IsName name ∧ ∃ children m child,
      Leads d (p.down above) (.directory children m) ∧ Listing.get? children name = some child ∧
        (child.descend? rest).isSome = true := by
  induction above generalizing p n with
  | nil =>
    obtain ⟨children, m, child, rfl, hget, hrest⟩ := Node.descend?_cons hsome
    exact ⟨(hn.member (Listing.mem_of_get? hget)).1, children, m, child, by rwa [Path.down_nil], hget, hrest⟩
  | cons first above ih =>
    obtain ⟨children, m, child, rfl, hget, hrest⟩ := Node.descend?_cons hsome
    obtain ⟨hfirst, hchild⟩ := hn.member (Listing.mem_of_get? hget)
    have hreal : ∀ target m, child ≠ .link target m := by
      rintro target m rfl
      cases above <;> cases hrest
    have hdown := h.down hfirst (fun heq => hup (heq ▸ List.mem_cons_self)) hget hreal
    rw [Path.child_eq_down hfirst] at hdown
    obtain ⟨hname, children', m', child', hleads, hget', hlast⟩ :=
      ih hdown hchild (fun hmem => hup (List.mem_cons_of_mem _ hmem)) hrest
    exact ⟨hname, children', m', child', by rwa [Path.down_down] at hleads, hget', hlast⟩

end Disk

end DirWatch
