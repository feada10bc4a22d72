import DirWatch.Proofs.Disk.Descent
import Mathlib.Data.Set.Finite.List
import Mathlib.Data.Set.Finite.Lattice

/-!
# How long a path can be

A path that goes straight down from the root, without `..`, leads to something only if it is made of names of the tree
and is not too long: between two links every name leads one level down, and no text leads through more than a number of
links (`fits_follow`). So although links can lead in circles, only finitely many such paths lead anywhere
(`finite_found`).
-/

namespace DirWatch

/-- A path that goes straight down from the root. -/
def Path.Straight (p : Path) : Prop :=
  p.anchor = .root ∧ ∀ name ∈ p.names, IsName name ∧ name ≠ ".."

/-- A straight path is absolute. -/
theorem Path.Straight.isAbsolute {p : Path} (h : p.Straight) : p.isAbsolute = true := by
  rw [Path.isAbsolute, h.1]
  rfl

namespace Node

/-- The names that stand anywhere below an object. -/
def namesBelow (n : Node) : Set String :=
  {name | ∃ names, name ∈ names ∧ (n.descend? names).isSome = true}

variable {n : Node} {children : List (String × Node)} {m : Int} {name : String} {A : Set String} {size : Nat}

/-- There are finitely many names below an object. -/
theorem finite_namesBelow (n : Node) : n.namesBelow.Finite := by
  induction hsize : sizeOf n using Nat.strong_induction_on generalizing n with
  | _ size ih =>
    cases n with
    | directory children m =>
      have hmembers : (⋃ p ∈ {p | p ∈ children}, insert p.1 p.2.namesBelow).Finite :=
        Set.Finite.biUnion children.finite_toSet fun p hp =>
          (ih (sizeOf p.2) (hsize ▸ sizeOf_lt_of_mem hp) p.2 rfl).insert p.1
      refine hmembers.subset ?_
      rintro name ⟨names, hmem, hsome⟩
      cases names with
      | nil => cases hmem
      | cons first names =>
        obtain ⟨_, _, child, heq, hget, hrest⟩ := descend?_cons hsome
        cases heq
        refine Set.mem_biUnion (Listing.mem_of_get? hget) ?_
        rcases List.mem_cons.mp hmem with rfl | hmem
        · exact Set.mem_insert _ _
        · exact Set.mem_insert_of_mem _ ⟨names, hmem, hrest⟩
    | _ =>
      refine Set.finite_empty.subset ?_
      rintro name ⟨names, hmem, hsome⟩
      cases names with
      | nil => cases hmem
      | cons => cases hsome

/-- An object has only names of a set below it, and is not too large. -/
structure Within (A : Set String) (size : Nat) (n : Node) : Prop where
  names : n.namesBelow ⊆ A
  size : sizeOf n ≤ size

/-- A member has a name of the set and is within the same bounds. -/
theorem Within.child {below : Node} (h : (directory children m).Within A size) (hget : Listing.get? children name = some below) :
    name ∈ A ∧ below.Within A size := by
  have hdescend : ∀ names, (directory children m).descend? (name :: names) = below.descend? names := by
    intro names
    rw [descend?, hget]
    rfl
  refine ⟨h.names ⟨[name], List.mem_singleton_self _, by rw [hdescend]; rfl⟩, ?_, ?_⟩
  · rintro other ⟨names, hmem, hsome⟩
    exact h.names ⟨name :: names, List.mem_cons_of_mem _ hmem, (hdescend names).symm ▸ hsome⟩
  · exact (Nat.le_of_lt (sizeOf_lt_of_mem (Listing.mem_of_get? hget))).trans h.size

end Node

namespace Disk

open Node (Within)

variable {d : Disk} {root : Node} {last : Bool} {links size bound : Nat} {trail found : List (String × Node)} {part : List Char}
  {above own : List (List Char)} {A : Set String}

/-- Parts that each name something. -/
def Straight (own : List (List Char)) : Prop :=
  ∀ part ∈ own, ¬IsStill part ∧ part ≠ ['.', '.']

/-- Not too many parts, each with a name of a set. -/
structure Fits (A : Set String) (bound : Nat) (own : List (List Char)) : Prop where
  length : own.length ≤ bound
  names : ∀ part ∈ own, String.ofList part ∈ A

theorem Fits.nil : Fits A bound [] :=
  ⟨Nat.zero_le _, List.forall_mem_nil _⟩

/-- A name of the set makes one part more. -/
theorem Fits.cons (h : Fits A bound own) (hpart : String.ofList part ∈ A) : Fits A (bound + 1) (part :: own) :=
  ⟨Nat.succ_le_succ h.length, List.forall_mem_cons.mpr ⟨hpart, h.names⟩⟩

/-- Parts that are few enough are so for a larger bound. -/
theorem Fits.mono {bound' : Nat} (h : Fits A bound own) (hle : bound ≤ bound') : Fits A bound' own :=
  ⟨h.length.trans hle, h.names⟩

section

variable (hroot : root.Within A size)
  (hjump : ∀ {target trail above own found}, (∀ p ∈ trail, p.2.Within A size) → Straight own →
    jump root last links target trail (above ++ own) = .ok found → Fits A bound own)

include hroot hjump

/-- Each part leads one level down or to a link. -/
theorem fits_straight (htrail : ∀ p ∈ trail, p.2.Within A size) (hown : Straight own)
    (h : follow root last links trail own = .ok found) : Fits A (bound + sizeOf (trailEnd root trail)) own := by
  induction own generalizing trail with
  | nil => exact Fits.nil
  | cons part own ih =>
    obtain ⟨hpart, hrest⟩ := List.forall_mem_cons.mp hown
    cases hend : trailEnd root trail with
    | directory children m =>
      have hhere : (Node.directory children m).Within A size := hend ▸ inherited_trailEnd hroot htrail
      have hlarge : 1 ≤ sizeOf (Node.directory children m) := by
        rw [Node.directory.sizeOf_spec]
        omega
      rw [follow_name hend hpart.1 hpart.2] at h
      split at h
      · cases h
      · rename_i target m' hget
        have hname := (hhere.child hget).1
        split at h
        · rename_i hlast
          have hlater : Fits A bound own := by
            rw [hlast.1]
            exact Fits.nil
          exact (hlater.cons hname).mono (by omega)
        · rw [← List.nil_append own] at h
          exact ((hjump htrail hrest h).cons hname).mono (by omega)
      · rename_i child _ hget
        obtain ⟨hname, hchild⟩ := hhere.child hget
        have hsmaller : sizeOf child < sizeOf (Node.directory children m) := Node.sizeOf_lt_of_mem (Listing.mem_of_get? hget)
        have hlater : Fits A (bound + sizeOf child) own := ih (List.forall_mem_cons.mpr ⟨hchild, htrail⟩) hrest h
        exact (hlater.cons hname).mono (by omega)
    | _ =>
      rw [follow_file (by simp [hend])] at h
      cases h

/-- The parts that are left after a link fit, too. -/
theorem fits_of_jump (htrail : ∀ p ∈ trail, p.2.Within A size) (hown : Straight own)
    (h : follow root last links trail (above ++ own) = .ok found) : Fits A (bound + size) own := by
  induction above generalizing trail with
  | nil => exact (fits_straight hroot hjump htrail hown h).mono (Nat.add_le_add_left (inherited_trailEnd hroot htrail).size _)
  | cons part above ih =>
    rw [List.cons_append] at h
    cases hend : trailEnd root trail with
    | directory children m =>
      by_cases hstill : IsStill part
      · rw [follow_skip hend hstill] at h
        exact ih htrail h
      · by_cases hup : part = ['.', '.']
        · subst hup
          rw [follow_up hend] at h
          exact ih (fun p hp => htrail p (List.mem_of_mem_tail hp)) h
        · rw [follow_name hend hstill hup] at h
          split at h
          · cases h
          · split at h
            · rename_i hlast
              rw [(List.append_eq_nil_iff.mp hlast.1).2]
              exact Fits.nil
            · exact (hjump htrail hown h).mono (Nat.le_add_right _ _)
          · rename_i child _ hget
            have hhere : (Node.directory children m).Within A size := hend ▸ inherited_trailEnd hroot htrail
            exact ih (List.forall_mem_cons.mpr ⟨(hhere.child hget).2, htrail⟩) h
    | _ =>
      rw [follow_file (by simp [hend])] at h
      cases h

end

/-- What leads somewhere ends with no more parts that name something than the tree and the links to be followed allow. -/
theorem fits_follow (hroot : root.Within A size) (htrail : ∀ p ∈ trail, p.2.Within A size) (hown : Straight own)
    (h : follow root last links trail (above ++ own) = .ok found) : Fits A ((links + 1) * size) own := by
  induction links generalizing trail above own found with
  | zero =>
    have hfits : Fits A (0 + size) own := by
      refine fits_of_jump hroot ?_ htrail hown h
      intro _ _ _ _ _ _ _ hjump
      cases hjump
    exact hfits.mono (by omega)
  | succ links ih =>
    rw [Nat.succ_mul (links + 1)]
    refine fits_of_jump hroot ?_ htrail hown h
    intro target trail above own found htrail hown hjump
    unfold jump at hjump
    dsimp only at hjump
    split at hjump
    · cases hjump
    · rw [← List.append_assoc] at hjump
      exact ih (List.forall_mem_nil _) hown hjump
    · rw [← List.append_assoc] at hjump
      exact ih htrail hown hjump

/-! ## Texts -/

/-- Names without a slash are found again between the slashes. -/
theorem split_intercalate {names : List String} (hne : names ≠ []) (hnames : ∀ name ∈ names, '/' ∉ name.toList) :
    Text.split '/' ("/".intercalate names).toList = names.map String.toList := by
  induction names with
  | nil => exact absurd rfl hne
  | cons first names ih =>
    obtain ⟨hfirst, hlater⟩ := List.forall_mem_cons.mp hnames
    cases names with
    | nil => simpa using Text.split_of_notMem hfirst
    | cons second names =>
      have htext : ("/".intercalate (first :: second :: names)).toList =
          first.toList ++ '/' :: ("/".intercalate (second :: names)).toList := by
        rw [String.intercalate_cons_cons, String.toList_append, String.toList_append, List.append_assoc]
        rfl
      rw [htext, Text.split_append, Text.split_of_notMem hfirst, ih (List.cons_ne_nil _ _) hlater]
      rfl

/-- The text of an absolute path has the names as its parts, behind empty ones. -/
theorem split_absolute {p : Path} (habsolute : p.isAbsolute = true) (hnames : ∀ name ∈ p.names, '/' ∉ name.toList) :
    ∃ still, (∀ part ∈ still, part = []) ∧ Text.split '/' (toString p).toList = still ++ p.names.map String.toList := by
  obtain ⟨anchor, names⟩ := p
  by_cases hnil : names = []
  · subst hnil
    cases anchor with
    | relative => cases habsolute
    | root => exact ⟨[[], []], by simp, rfl⟩
    | doubled => exact ⟨[[], [], []], by simp, rfl⟩
  have htext : (toString (⟨anchor, names⟩ : Path)).toList = anchor.text.toList ++ ("/".intercalate names).toList := by
    simp [toString, Path.toString, hnil]
  have hslash : ∀ text, Text.split '/' ('/' :: text) = [] :: Text.split '/' text := fun text => by rw [Text.split, if_pos rfl]
  have hsplit := split_intercalate hnil hnames
  cases anchor with
  | relative => cases habsolute
  | root =>
    refine ⟨[[]], by simp, ?_⟩
    rw [htext]
    exact (hslash _).trans (congrArg ([] :: ·) hsplit)
  | doubled =>
    refine ⟨[[], []], by simp, ?_⟩
    rw [htext]
    exact (hslash _).trans (congrArg ([] :: ·) ((hslash _).trans (congrArg ([] :: ·) hsplit)))

/-- A path that goes straight down leads to something. -/
def Found (d : Disk) (p : Path) : Prop :=
  p.Straight ∧ ∃ place n, d.locate false (toString p) = .ok (place, n)

/-- What can be looked at stands somewhere. -/
theorem locate_of_lstat {text : String} {info : Info} (h : d.answer (.lstat text) = .ok info) :
    ∃ place n, d.locate false text = .ok (place, n) := by
  unfold answer at h
  split at h
  · cases h
  · dsimp only at h
    split at h
    · cases h
    · rename_i place n hlocate
      exact ⟨place, n, hlocate⟩

/-- Only finitely many paths that go straight down lead anywhere. -/
theorem finite_found (d : Disk) : {p | Found d p}.Finite := by
  have hnames : {names : List String | names.length ≤ (maxLinks + 1) * sizeOf d.root ∧
      ∀ name ∈ names, name ∈ d.root.namesBelow}.Finite := by
    have := d.root.finite_namesBelow.to_subtype
    refine ((List.finite_length_le d.root.namesBelow ((maxLinks + 1) * sizeOf d.root)).image (List.map Subtype.val)).subset ?_
    rintro names ⟨hlength, hmem⟩
    lift names to List d.root.namesBelow using hmem
    exact ⟨names, by simpa using hlength, rfl⟩
  refine (hnames.image (Path.mk .root)).subset ?_
  rintro p ⟨hp, place, n, hlocate⟩
  obtain ⟨-, trail, hfollow, -⟩ := locate_eq hlocate
  obtain ⟨still, -, hsplit⟩ := split_absolute hp.isAbsolute fun name hname => (hp.2 name hname).1.2.2
  have habsolute : d.absoluteText (toString p) = toString p := by
    unfold absoluteText
    rw [if_pos (Path.isAbsolute_toString hp.isAbsolute)]
  rw [habsolute, hsplit] at hfollow
  have hstraight : Straight (p.names.map String.toList) := by
    intro part hpart
    obtain ⟨name, hname, rfl⟩ := List.mem_map.mp hpart
    obtain ⟨⟨hne, hdot, -⟩, hup⟩ := hp.2 name hname
    refine ⟨?_, fun heq => hup (String.toList_inj.mp heq)⟩
    rintro (hnil | heq)
    · exact hne (by simpa using hnil)
    · exact hdot (String.toList_inj.mp heq)
  have hfits := fits_follow (A := d.root.namesBelow) ⟨Set.Subset.rfl, Nat.le_refl _⟩ (List.forall_mem_nil _) hstraight hfollow
  obtain ⟨anchor, names⟩ := p
  obtain ⟨rfl, -⟩ := hp
  refine ⟨names, ⟨by simpa using hfits.length, fun name hname => ?_⟩, rfl⟩
  simpa using hfits.names name.toList (List.mem_map_of_mem hname)

end Disk

end DirWatch
