import DirWatch.Path
import Mathlib.Data.String.Basic

/-!
# Paths below a path

`p.down names` is the path that a list of names leads to from `p`. A member of a directory stands one name below it, if its
name is a single component (`child_eq_down`). Different lists of names lead to different paths (`down_inj`), and in the same
order (`down_lt_down`).
-/

namespace DirWatch

/-- A text without the separator is one piece. -/
theorem Text.split_of_notMem {sep : Char} {s : List Char} (h : sep ∉ s) : split sep s = [s] := by
  induction s with
  | nil => rfl
  | cons c rest ih =>
    obtain ⟨hc, hrest⟩ := not_or.mp (fun hm => h (List.mem_cons.mpr hm))
    rw [split, if_neg (Ne.symm hc), ih hrest]

/-- No piece of a text has the separator in it. -/
theorem Text.notMem_of_mem_split {sep : Char} {s piece : List Char} (h : piece ∈ split sep s) : sep ∉ piece := by
  induction s generalizing piece with
  | nil =>
    obtain rfl := List.mem_singleton.mp h
    exact List.not_mem_nil
  | cons c rest ih =>
    rw [split] at h
    split at h
    · rcases List.mem_cons.mp h with rfl | h
      · exact List.not_mem_nil
      · exact ih h
    · rename_i hc
      split at h
      · obtain rfl := List.mem_singleton.mp h
        exact fun hmem => hc (List.mem_singleton.mp hmem).symm
      · rename_i first pieces hsplit
        have hfirst := ih (hsplit ▸ List.mem_cons_self)
        rcases List.mem_cons.mp h with rfl | h
        · exact fun hmem => (List.mem_cons.mp hmem).elim (fun heq => hc heq.symm) hfirst
        · exact ih (hsplit ▸ List.mem_cons_of_mem _ h)

namespace Path

/-- The path that names lead to from `p`. -/
def down (p : Path) (names : List String) : Path :=
  ⟨p.anchor, p.names ++ names⟩

@[simp] theorem down_nil (p : Path) : p.down [] = p := by
  simp [down]

@[simp] theorem down_down (p : Path) (names more : List String) : (p.down names).down more = p.down (names ++ more) := by
  simp [down]

/-- Different names lead to different paths. -/
theorem down_inj {p : Path} {a b : List String} : p.down a = p.down b ↔ a = b := by
  simp [down]

@[simp] theorem namesBelow?_down (p : Path) (names : List String) : p.namesBelow? (p.down names) = some names := by
  simp [namesBelow?, down, List.isPrefixOf_iff_prefix]

/-- A path that is found below another one is where the names lead to. -/
theorem eq_down_of_namesBelow? {root p : Path} {names : List String} (h : root.namesBelow? p = some names) :
    p = root.down names := by
  unfold namesBelow? at h
  split at h
  · rename_i hbelow
    cases h
    obtain ⟨hanchor, hprefix⟩ := Bool.and_eq_true_iff.mp hbelow
    obtain ⟨more, hnames⟩ := List.isPrefixOf_iff_prefix.mp hprefix
    obtain ⟨anchor, all⟩ := p
    subst hnames
    rw [List.drop_left, down, of_decide_eq_true hanchor]
  · cases h

/-- A path is as deep as the names to it. -/
theorem length_down (p : Path) (names : List String) : (p.down names).names.length = p.names.length + names.length := by
  simp [down]

/-- The text of an absolute path begins with a slash. -/
theorem isAbsolute_toString {p : Path} (h : p.isAbsolute = true) : (toString p).toList.head? = some '/' := by
  obtain ⟨anchor, names⟩ := p
  cases anchor with
  | relative => cases h
  | root => simp [toString, Path.toString, Anchor.text]
  | doubled => simp [toString, Path.toString, Anchor.text]

/-- A text that begins with a slash is read as an absolute path. -/
theorem isAbsolute_ofString {text : String} (h : text.toList.head? = some '/') : (ofString text).isAbsolute = true := by
  obtain ⟨rest, hrest⟩ := List.head?_eq_some_iff.mp h
  rw [ofString, isAbsolute, hrest]
  unfold Anchor.ofChars
  split <;> simp_all

/-- The names of a path that a text spells are single components. -/
theorem isName_ofString (text : String) : ∀ name ∈ (ofString text).names, IsName name := by
  intro name hmem
  obtain ⟨piece, hpiece, rfl⟩ := List.mem_map.mp hmem
  obtain ⟨hmem, hkept⟩ := List.mem_filter.mp hpiece
  rw [IsName, String.toList_ofList]
  refine ⟨?_, ?_, Text.notMem_of_mem_split hmem⟩
  · rintro heq
    have hnil : piece = [] := by rw [← String.toList_ofList (l := piece), heq]; rfl
    simp [hnil] at hkept
  · rintro heq
    have hdot : piece = ['.'] := by rw [← String.toList_ofList (l := piece), heq]; rfl
    simp [hdot] at hkept

/-! ## Members of a directory -/

instance (s : String) : Decidable (IsName s) :=
  inferInstanceAs (Decidable (s ≠ "" ∧ s ≠ "." ∧ '/' ∉ s.toList))

/-- A name that is a single component reads as itself. -/
theorem ofString_name {name : String} (h : IsName name) : ofString name = ⟨.relative, [name]⟩ := by
  obtain ⟨hne, hdot, hslash⟩ := h
  have hchars : name.toList ≠ [] := by
    intro hnil
    exact hne (String.toList_inj.mp (by simpa using hnil))
  have hdot' : name.toList ≠ ['.'] := by
    intro hd
    exact hdot (String.toList_inj.mp (by simpa using hd))
  have hanchor : Anchor.ofChars name.toList = .relative := by
    cases hl : name.toList with
    | nil => rfl
    | cons c rest =>
      have hc : c ≠ '/' := by
        rintro rfl
        exact hslash (by simp [hl])
      unfold Anchor.ofChars
      split <;> simp_all
  have hkeep : [name.toList].filter (fun part => part != [] && part != ['.']) = [name.toList] := by
    simp [hchars, hdot']
  rw [ofString, hanchor, namesOfChars, Text.split_of_notMem hslash, hkeep, List.map_singleton, String.ofList_toList]

/-- A single component leads to a child. -/
theorem child_eq_down {name : String} (h : IsName name) (p : Path) : p.child name = p.down [name] := by
  rw [child, ofString_name h]
  rfl

/-! ## Order -/

/-- From one path, names lead to places in the order of the names. -/
theorem down_lt_down (p : Path) {a b : List String} (h : a < b) : p.down a < p.down b := by
  have hnames : p.names ++ a < p.names ++ b := List.append_left_lt h
  change (p.down a).parts < (p.down b).parts
  cases hp : p.anchor with
  | relative => simpa only [parts, down, hp] using hnames
  | root => simpa only [parts, down, hp, List.cons_lt_cons_self] using hnames
  | doubled => simpa only [parts, down, hp, List.cons_lt_cons_self] using hnames

end Path

end DirWatch
