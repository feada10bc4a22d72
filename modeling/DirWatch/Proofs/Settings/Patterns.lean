import DirWatch.Proofs.Path
import DirWatch.Settings
import Mathlib.Data.List.DropRight

/-!
# Patterns in one text

A text spells a list of patterns if its items, the parts between the commas, are these patterns in this order, each with
any blanks around it, and any number of items of nothing but blanks (`Patterns.Spells`). Every text spells one list,
which is the one that `Patterns.ofText` reads (`ofText_eq_iff`). So patterns written with commas between them are read
back as they were, and neither blanks nor empty items matter (`patterns_recovered`).
-/

namespace DirWatch

namespace Text

variable {p : Char → Bool} {s left right : List Char}

/-! ## Splitting and trimming -/

/-- This is the splitting of lists at a separator. -/
theorem split_eq_splitOn (sep : Char) (s : List Char) : split sep s = s.splitOn sep := by
  induction s with
  | nil => rw [split, List.splitOn_nil]
  | cons c rest ih =>
    obtain ⟨first, pieces, hsplit⟩ := List.exists_cons_of_ne_nil (split_ne_nil sep rest)
    rw [split, List.splitOn_cons_eq_if_modifyHead, ← ih, hsplit]
    simp only [beq_iff_eq, List.modifyHead_cons]

/-- A text without the characters of a class at either end. -/
structure Trimmed (p : Char → Bool) (s : List Char) : Prop where
  first : ∀ c ∈ s.head?, p c = false
  last : ∀ c ∈ s.getLast?, p c = false

-- by `Option.all`, because a quantifier over characters can also be decided by going through all characters there are
instance (p : Char → Bool) (s : List Char) : Decidable (Trimmed p s) :=
  decidable_of_iff (s.head?.all (!p ·) = true ∧ s.getLast?.all (!p ·) = true) <| by
    simp only [Option.all_eq_true, Bool.not_eq_true']
    exact ⟨fun h => ⟨h.1, h.2⟩, fun h => ⟨h.first, h.last⟩⟩

/-- Trimming leaves no characters of the class at either end. -/
theorem trimmed_trim (p : Char → Bool) (s : List Char) : Trimmed p (trim p s) where
  first := by
    intro c hc
    obtain ⟨rest, hrest⟩ := List.rdropWhile_prefix p (s.dropWhile p)
    have hhead : (s.dropWhile p).head? = some c := by
      rw [← hrest, List.head?_append]
      exact Option.or_of_isSome (Option.isSome_of_eq_some hc) |>.trans hc
    have hfirst := List.head?_dropWhile_not p s
    rw [hhead] at hfirst
    exact hfirst
  last := by
    intro c hc
    have hne : (s.dropWhile p).rdropWhile p ≠ [] := by
      rintro hnil
      rw [trim, trimLeft, trimRight, ← List.rdropWhile, hnil] at hc
      cases hc
    have hlast := List.rdropWhile_last_not p (s.dropWhile p) hne
    rw [List.getLast_eq_iff_getLast?_eq_some hne |>.mpr hc] at hlast
    exact Bool.not_eq_true _ |>.mp hlast

/-- Trimming takes characters of the class only. -/
theorem exists_trim (p : Char → Bool) (s : List Char) :
    ∃ left right, s = left ++ trim p s ++ right ∧ (∀ c ∈ left, p c = true) ∧ ∀ c ∈ right, p c = true := by
  refine ⟨s.takeWhile p, (s.dropWhile p).rtakeWhile p, ?_, fun c hc => List.mem_takeWhile_imp hc,
    fun c hc => List.mem_rtakeWhile_imp hc⟩
  have htrim : trim p s ++ (s.dropWhile p).rtakeWhile p = s.dropWhile p := List.rdropWhile_append_rtakeWhile
  rw [List.append_assoc, htrim, List.takeWhile_append_dropWhile]

/-- Trimming takes all of a text that has no other characters. -/
theorem trim_of_forall (h : ∀ c ∈ s, p c = true) : trim p s = [] := by
  rw [trim, trimLeft, List.dropWhile_eq_nil_iff.mpr h]
  rfl

/-- Trimming takes all that surrounds a text with no characters of the class at its ends. -/
theorem trim_surrounded (h : Trimmed p s) (hleft : ∀ c ∈ left, p c = true) (hright : ∀ c ∈ right, p c = true) :
    trim p (left ++ s ++ right) = s := by
  cases s with
  | nil =>
    have hall : ∀ c ∈ left ++ right, p c = true := fun c hc => (List.mem_append.mp hc).elim (hleft c) (hright c)
    rw [List.append_nil, trim_of_forall hall]
  | cons first rest =>
    have hstart : (left ++ first :: rest ++ right).dropWhile p = first :: rest ++ right := by
      rw [List.append_assoc, List.dropWhile_append_of_pos hleft, List.cons_append,
        List.dropWhile_cons_of_neg (Bool.not_eq_true _ ▸ h.first first rfl)]
    have hend : (first :: rest ++ right).rdropWhile p = (first :: rest).rdropWhile p := by
      rw [List.rdropWhile, List.reverse_append,
        List.dropWhile_append_of_pos fun c hc => hright c (List.mem_reverse.mp hc), ← List.rdropWhile]
    rw [trim, trimLeft, hstart]
    refine hend.trans (List.rdropWhile_eq_self_iff.mpr fun hne => ?_)
    rw [h.last _ (List.getLast?_eq_some_getLast hne)]
    exact Bool.false_ne_true

end Text

namespace Patterns

open Text (isBlank trim)

/-! ## Items -/

/-- A text of nothing but blanks. -/
def IsBlank (s : String) : Prop :=
  ∀ c ∈ s.toList, isBlank c = true

instance (s : String) : Decidable (IsBlank s) :=
  decidable_of_iff (s.toList.all isBlank = true) List.all_eq_true

/-- What can be a pattern of a list: a text that is not empty, without commas, and without blanks at either end. -/
structure IsPattern (p : String) : Prop where
  nonempty : p ≠ ""
  whole : ',' ∉ p.toList
  trimmed : Text.Trimmed isBlank p.toList

instance (p : String) : Decidable (IsPattern p) :=
  decidable_of_iff (p ≠ "" ∧ ',' ∉ p.toList ∧ Text.Trimmed isBlank p.toList)
    ⟨fun h => ⟨h.1, h.2.1, h.2.2⟩, fun h => ⟨h.nonempty, h.whole, h.trimmed⟩⟩

/-- Items and the patterns in them: an item is blank, or it is a pattern with blanks around it. -/
inductive Items : List String → List String → Prop
  | nil : Items [] []
  | blank {item : String} {items patterns : List String} (h : IsBlank item) (hrest : Items items patterns) :
      Items (item :: items) patterns
  | pattern {left p right : String} {items patterns : List String} (hleft : IsBlank left) (hright : IsBlank right)
      (hrest : Items items patterns) : Items ((left ++ p ++ right) :: items) (p :: patterns)

/-- A text spells patterns if they are the patterns in its items, which have commas between them. -/
def Spells (text : String) (patterns : List String) : Prop :=
  ∃ items, Items items patterns ∧ text = ",".intercalate items

/-- The patterns that are read from items. -/
def read (items : List (List Char)) : List String :=
  ((items.map (trim isBlank)).filter (!·.isEmpty)).map String.ofList

variable {s text p : String} {items patterns : List String} {item : List Char} {rest : List (List Char)}

/-- An item of blanks is no pattern. -/
theorem read_cons_blank (h : trim isBlank item = []) (rest : List (List Char)) : read (item :: rest) = read rest := by
  simp [read, h]

/-- Any other item is one without the blanks around it. -/
theorem read_cons_pattern (h : trim isBlank item = p.toList) (hp : p ≠ "") (rest : List (List Char)) :
    read (item :: rest) = p :: read rest := by
  simp [read, h, hp]

/-! ## What is read is what is spelled -/

/-- Items are read as the patterns in them. -/
theorem Items.read_eq (h : Items items patterns) (hpatterns : ∀ p ∈ patterns, IsPattern p) :
    read (items.map String.toList) = patterns := by
  induction h with
  | nil => rfl
  | blank hblank _ ih => rw [List.map_cons, read_cons_blank (Text.trim_of_forall hblank), ih hpatterns]
  | @pattern left p right items patterns hleft hright _ ih =>
    obtain ⟨hp, hrest⟩ := List.forall_mem_cons.mp hpatterns
    have htrim : trim isBlank (left ++ p ++ right).toList = p.toList := by
      rw [String.toList_append, String.toList_append]
      exact Text.trim_surrounded hp.trimmed hleft hright
    rw [List.map_cons, read_cons_pattern htrim hp.nonempty, ih hrest]

/-- A comma is no blank. -/
theorem IsBlank.whole (h : IsBlank s) : ',' ∉ s.toList := by
  intro hmem
  have hcomma : isBlank ',' = false := by decide
  exact Bool.false_ne_true (hcomma ▸ h ',' hmem)

/-- No item has a comma in it. -/
theorem Items.whole (h : Items items patterns) (hpatterns : ∀ p ∈ patterns, IsPattern p) :
    ∀ item ∈ items, ',' ∉ item.toList := by
  induction h with
  | nil => exact List.forall_mem_nil _
  | blank hblank _ ih => exact List.forall_mem_cons.mpr ⟨hblank.whole, ih hpatterns⟩
  | pattern hleft hright _ ih =>
    obtain ⟨hp, hrest⟩ := List.forall_mem_cons.mp hpatterns
    refine List.forall_mem_cons.mpr ⟨?_, ih hrest⟩
    simp [hleft.whole, hp.whole, hright.whole]

/-- Every row of items has the patterns in it that are read from it. -/
theorem items_read (items : List (List Char)) : Items (items.map String.ofList) (read items) := by
  induction items with
  | nil => exact .nil
  | cons item rest ih =>
    obtain ⟨left, right, hitem, hleft, hright⟩ := Text.exists_trim isBlank item
    rw [List.map_cons]
    by_cases hnil : trim isBlank item = []
    · rw [read_cons_blank hnil]
      refine .blank (fun c hc => ?_) ih
      rw [String.toList_ofList, hitem, hnil, List.append_nil] at hc
      exact (List.mem_append.mp hc).elim (hleft c) (hright c)
    · have hp : String.ofList (trim isBlank item) ≠ "" := by simpa using hnil
      rw [read_cons_pattern (String.toList_ofList).symm hp]
      have hspelt : String.ofList item = String.ofList left ++ String.ofList (trim isBlank item) ++ String.ofList right := by
        rw [← String.ofList_append, ← String.ofList_append, ← hitem]
      rw [hspelt]
      exact .pattern (by simpa [IsBlank] using hleft) (by simpa [IsBlank] using hright) ih

/-- What is read from items without commas are patterns. -/
theorem isPattern_of_mem_read {items : List (List Char)} (hitems : ∀ item ∈ items, ',' ∉ item) (hp : p ∈ read items) :
    IsPattern p := by
  obtain ⟨trimmed, hmem, rfl⟩ := List.mem_map.mp hp
  obtain ⟨hmem, hne⟩ := List.mem_filter.mp hmem
  obtain ⟨item, hitem, rfl⟩ := List.mem_map.mp hmem
  obtain ⟨left, right, hwhole, -, -⟩ := Text.exists_trim isBlank item
  refine ⟨by simpa using hne, ?_, ?_⟩
  · rw [String.toList_ofList]
    intro hcomma
    apply hitems item hitem
    rw [hwhole]
    exact List.mem_append_left _ (List.mem_append_right _ hcomma)
  · rw [String.toList_ofList]
    exact Text.trimmed_trim isBlank item

/-- A text spells the patterns that are read from it. -/
theorem spells_ofText (s : String) : Spells s (ofText s) := by
  refine ⟨(Text.split ',' s.toList).map String.ofList, items_read _, String.toList_inj.mp ?_⟩
  rw [String.toList_intercalate, List.map_map, Text.split_eq_splitOn]
  simp

/-- Nothing else is read from a text than the patterns that it spells. -/
theorem Spells.ofText_eq (h : Spells text patterns) (hpatterns : ∀ p ∈ patterns, IsPattern p) : ofText text = patterns := by
  obtain ⟨items, hitems, rfl⟩ := h
  have hread : ofText (",".intercalate items) = read (items.map String.toList) := by
    rcases eq_or_ne items [] with rfl | hne
    · decide
    · have hwhole : ∀ item ∈ items.map String.toList, ',' ∉ item := List.forall_mem_map.mpr (hitems.whole hpatterns)
      have hsplit := List.splitOn_intercalate ',' hwhole (by simpa using hne)
      rw [← Text.split_eq_splitOn] at hsplit
      rw [← hsplit]
      simp [ofText, read]
  rw [hread, hitems.read_eq hpatterns]

/-- A text is read as the one list of patterns that it spells. -/
theorem ofText_eq_iff : ofText text = patterns ↔ (∀ p ∈ patterns, IsPattern p) ∧ Spells text patterns := by
  constructor
  · rintro rfl
    exact ⟨fun p hp => isPattern_of_mem_read (fun item hitem => Text.notMem_of_mem_split hitem) hp, spells_ofText text⟩
  · rintro ⟨hpatterns, hspells⟩
    exact hspells.ofText_eq hpatterns

/-- Patterns are spelled by themselves, with commas between them. -/
theorem spells_intercalate (patterns : List String) : Spells (",".intercalate patterns) patterns := by
  refine ⟨patterns, ?_, rfl⟩
  induction patterns with
  | nil => exact .nil
  | cons p patterns ih =>
    have hnone : IsBlank "" := by decide
    have hitems : Items (("" ++ p ++ "") :: patterns) (p :: patterns) := .pattern hnone hnone ih
    simpa using hitems

/-- What is read from a text are patterns, in the order in which the text has them, and it is read again from every text
that has the same patterns as its items, whatever blanks surround them and whatever blank items come between. Every list
of patterns is read so, and from its patterns with commas between them in particular. -/
theorem patterns_recovered :
    (∀ s, (∀ p ∈ ofText s, IsPattern p) ∧ Spells s (ofText s) ∧ ∀ text, Spells text (ofText s) →
      ofText text = ofText s) ∧
    ∀ patterns, (∀ p ∈ patterns, IsPattern p) →
      ofText (",".intercalate patterns) = patterns ∧ ∀ text, Spells text patterns → ofText text = patterns := by
  have hread : ∀ patterns, (∀ p ∈ patterns, IsPattern p) → ∀ text, Spells text patterns → ofText text = patterns :=
    fun patterns hpatterns text h => h.ofText_eq hpatterns
  refine ⟨fun s => ?_, fun patterns hpatterns => ⟨?_, hread patterns hpatterns⟩⟩
  · obtain ⟨hpatterns, hspells⟩ := ofText_eq_iff.mp (rfl : ofText s = ofText s)
    exact ⟨hpatterns, hspells, hread (ofText s) hpatterns⟩
  · exact hread patterns hpatterns _ (spells_intercalate patterns)

/-- Two patterns, one of them with a blank inside, among blank items of all kinds. -/
theorem patterns_recovered_ragged : (∀ p ∈ ["*.tmp", "[! ] b"], IsPattern p) ∧
    ofText "*.tmp,[! ] b" = ["*.tmp", "[! ] b"] ∧ Spells ", *.tmp\n,\t \u2003,,[! ] b" ["*.tmp", "[! ] b"] ∧
    ofText ", *.tmp\n,\t \u2003,,[! ] b" = ["*.tmp", "[! ] b"] := by
  have hpatterns : ∀ p ∈ ["*.tmp", "[! ] b"], IsPattern p := by decide
  have hitems : Items ["", " " ++ "*.tmp" ++ "\n", "\t \u2003", "", "" ++ "[! ] b" ++ ""] ["*.tmp", "[! ] b"] :=
    .blank (by decide) (.pattern (by decide) (by decide) (.blank (by decide) (.blank (by decide)
      (.pattern (by decide) (by decide) .nil))))
  have hspells : Spells ", *.tmp\n,\t \u2003,,[! ] b" ["*.tmp", "[! ] b"] := ⟨_, hitems, by decide⟩
  obtain ⟨-, hread⟩ := patterns_recovered
  obtain ⟨hjoined, hspelled⟩ := hread _ hpatterns
  exact ⟨hpatterns, hjoined, hspells, hspelled _ hspells⟩

end Patterns

end DirWatch
