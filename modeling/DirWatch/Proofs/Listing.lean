import DirWatch.Listing
import Mathlib.Data.List.Nodup
import Mathlib.Data.List.Perm.Subperm
import Mathlib.Data.String.Basic

/-!
# Listings in name order

Statements about `Listing.sorted` and `Listing.get?`: sorting keeps the value of every name (`get?_sorted`) and gives a
listing in strictly increasing order (`ordered_sorted`), in which membership is lookup (`Ordered.mem_iff`) and which its
lookups determine (`Ordered.ext`).
-/

namespace DirWatch.Listing

variable {α : Type u}

/-! ## Lookup -/

@[simp] theorem get?_nil (name : String) : get? ([] : Listing α) name = none := rfl

/-- The first of several values at a name counts. -/
theorem get?_cons (p : String × α) (l : Listing α) (name : String) :
    get? (p :: l) name = if name = p.1 then some p.2 else get? l name := by
  obtain ⟨other, a⟩ := p
  simp only [get?, List.lookup_cons]
  by_cases h : name = other
  · simp [h]
  · simp [h, beq_eq_false_iff_ne.mpr h]

/-- Only the name inserted changes its value. -/
theorem get?_insert (name : String) (a : α) (l : Listing α) (other : String) :
    get? (insert name a l) other = if other = name then some a else get? l other := by
  induction l with
  | nil => simp [insert, get?_cons]
  | cons p rest ih =>
    obtain ⟨m, b⟩ := p
    unfold insert
    split
    · rw [get?_cons]
    · split
      · rename_i hlt
        rw [get?_cons, ih, get?_cons]
        have hne : m ≠ name := ne_of_lt hlt
        by_cases h : other = m
        · simp [h, hne]
        · simp [h]
      · rename_i h1 h2
        have hm : name = m := le_antisymm (not_lt.mp h2) (not_lt.mp h1)
        subst hm
        rw [get?_cons, get?_cons]
        by_cases h : other = name <;> simp [h]

/-- Sorting keeps the value of every name. -/
@[simp] theorem get?_sorted (l : Listing α) (name : String) : get? (sorted l) name = get? l name := by
  induction l with
  | nil => rfl
  | cons p rest ih => rw [sorted, get?_insert, ih, get?_cons]

/-- What is looked up stands in the list, whatever the keys are. -/
theorem mem_of_lookup {κ : Type v} [BEq κ] [LawfulBEq κ] {l : List (κ × α)} {k : κ} {a : α} (h : l.lookup k = some a) :
    (k, a) ∈ l := by
  obtain ⟨before, after, rfl, -⟩ := List.lookup_eq_some_iff.mp h
  exact List.mem_append_right _ List.mem_cons_self

/-- A value that is found is one of the listing. -/
theorem mem_of_get? {l : Listing α} {name : String} {a : α} (h : get? l name = some a) : (name, a) ∈ l :=
  mem_of_lookup h

/-- A name is one that has a value. -/
theorem mem_names {l : Listing α} {name : String} : name ∈ names l ↔ ∃ a, (name, a) ∈ l := by
  simp [names]

/-- Nothing is found at other names. -/
theorem get?_eq_none {l : Listing α} {name : String} : get? l name = none ↔ name ∉ names l := by
  induction l with
  | nil => simp [names]
  | cons p rest ih =>
    rw [get?_cons, names, List.map_cons, List.mem_cons, not_or]
    by_cases h : name = p.1
    · simp [h]
    · rw [if_neg h, ih]
      exact ⟨fun h' => ⟨h, h'⟩, fun h' => h'.2⟩

/-- Where no name stands twice, membership is lookup. -/
theorem get?_of_mem {l : Listing α} (hl : (names l).Nodup) {name : String} {a : α} (h : (name, a) ∈ l) :
    get? l name = some a := by
  induction l with
  | nil => simp at h
  | cons p rest ih =>
    rw [names, List.map_cons, List.nodup_cons] at hl
    rw [get?_cons]
    rcases List.mem_cons.mp h with rfl | h
    · simp
    · have hne : name ≠ p.1 := by
        rintro rfl
        exact hl.1 (mem_names.mpr ⟨a, h⟩)
      rw [if_neg hne, ih hl.2 h]

/-- Where names are distinct, every value is found. -/
theorem mem_iff_get? {l : Listing α} (hl : (names l).Nodup) {name : String} {a : α} :
    (name, a) ∈ l ↔ get? l name = some a :=
  ⟨get?_of_mem hl, mem_of_get?⟩

/-- A listing without a repeated name is no longer than one that knows all its names. -/
theorem length_le_of_get? {β : Type v} {l : Listing α} {r : Listing β} (hl : (names l).Nodup)
    (h : ∀ name, get? r name = none → get? l name = none) : l.length ≤ r.length := by
  have hsub : names l ⊆ names r := by
    intro name hn
    by_contra hr
    exact get?_eq_none.mp (h name (get?_eq_none.mpr hr)) hn
  have := (List.subperm_of_subset hl hsub).length_le
  simpa [names] using this

/-! ## Order -/

/-- What an insertion leaves in a listing was there or is inserted. -/
theorem mem_insert {name : String} {a : α} {l : Listing α} {p : String × α} (h : p ∈ insert name a l) :
    p = (name, a) ∨ p ∈ l := by
  induction l with
  | nil =>
    rw [insert, List.mem_singleton] at h
    exact Or.inl h
  | cons q rest ih =>
    obtain ⟨m, b⟩ := q
    unfold insert at h
    split at h
    · exact List.mem_cons.mp h
    · split at h
      · rcases List.mem_cons.mp h with rfl | h
        · exact Or.inr List.mem_cons_self
        · exact (ih h).imp_right (List.mem_cons_of_mem _)
      · rcases List.mem_cons.mp h with rfl | h
        · exact Or.inl rfl
        · exact Or.inr (List.mem_cons_of_mem _ h)

/-- Sorting adds nothing. -/
theorem mem_of_mem_sorted {l : Listing α} {p : String × α} (h : p ∈ sorted l) : p ∈ l := by
  induction l with
  | nil => simp [sorted] at h
  | cons q rest ih =>
    rcases mem_insert h with rfl | h
    · exact List.mem_cons_self
    · exact List.mem_cons_of_mem _ (ih h)

theorem Ordered.nil : Ordered ([] : Listing α) := List.Pairwise.nil

/-- A listing is in order if its first name comes before the others, and these are. -/
theorem ordered_cons {p : String × α} {l : Listing α} :
    Ordered (p :: l) ↔ (∀ q ∈ l, p.1 < q.1) ∧ Ordered l :=
  List.pairwise_cons

/-- No name stands before the first one of a listing in increasing order. -/
theorem get?_of_lt_head {name : String} {p : String × α} {l : Listing α} (h : Ordered (p :: l))
    (hlt : name < p.1) : get? (p :: l) name = none := by
  rw [get?_eq_none, names, List.map_cons, List.mem_cons, not_or]
  refine ⟨ne_of_lt hlt, ?_⟩
  intro hmem
  obtain ⟨q, hq, hqn⟩ := List.mem_map.mp hmem
  have := (ordered_cons.mp h).1 q hq
  rw [hqn] at this
  exact lt_asymm hlt this

/-- Every name of a listing in increasing order comes after what comes before its first one. -/
theorem lt_of_mem_names {name other : String} {p : String × α} {l : Listing α}
    (h : Ordered (p :: l)) (hle : name ≤ p.1) (hmem : other ∈ names l) : name < other := by
  obtain ⟨q, hq, rfl⟩ := List.mem_map.mp hmem
  exact lt_of_le_of_lt hle ((ordered_cons.mp h).1 q hq)

/-- A value is put where the order has it. -/
theorem Ordered.insert {l : Listing α} (h : Ordered l) (name : String) (a : α) :
    Ordered (insert name a l) := by
  induction l with
  | nil => exact ordered_cons.mpr ⟨by simp, Ordered.nil⟩
  | cons p rest ih =>
    obtain ⟨m, b⟩ := p
    obtain ⟨hm, hr⟩ := ordered_cons.mp h
    unfold Listing.insert
    split
    · rename_i hlt
      refine ordered_cons.mpr ⟨?_, h⟩
      intro q hq
      rcases List.mem_cons.mp hq with rfl | hq
      · exact hlt
      · exact lt_trans hlt (hm q hq)
    · split
      · rename_i hlt
        refine ordered_cons.mpr ⟨?_, ih hr⟩
        intro q hq
        rcases mem_insert hq with rfl | hq
        · exact hlt
        · exact hm q hq
      · rename_i h1 h2
        have hmn : name = m := le_antisymm (not_lt.mp h2) (not_lt.mp h1)
        subst hmn
        exact ordered_cons.mpr ⟨hm, hr⟩

/-- Sorting puts the names in strictly increasing order. -/
theorem ordered_sorted (l : Listing α) : Ordered (sorted l) := by
  induction l with
  | nil => exact Ordered.nil
  | cons p rest ih => exact ih.insert _ _

/-- Names in order are distinct. -/
theorem Ordered.nodup {l : Listing α} (h : Ordered l) : (names l).Nodup :=
  List.pairwise_map.mpr (h.imp fun hlt => ne_of_lt hlt)

/-- In order, every value is found. -/
theorem Ordered.mem_iff {l : Listing α} (h : Ordered l) {name : String} {a : α} :
    (name, a) ∈ l ↔ get? l name = some a :=
  mem_iff_get? h.nodup

/-- The members of a sorted listing are the values that lookup finds. -/
theorem mem_sorted_iff {l : Listing α} {name : String} {a : α} : (name, a) ∈ sorted l ↔ get? l name = some a := by
  rw [(ordered_sorted l).mem_iff, get?_sorted]

/-- A listing in increasing order is determined by its lookups. -/
theorem Ordered.ext {l r : Listing α} (hl : Ordered l) (hr : Ordered r) (h : ∀ name, get? l name = get? r name) :
    l = r := by
  have hmem : ∀ p, p ∈ l ↔ p ∈ r := by
    rintro ⟨name, a⟩
    rw [hl.mem_iff, hr.mem_iff, h]
  have hasymm : ∀ p q : String × α, p ∈ l → q ∈ r → p.1 < q.1 → q.1 < p.1 → p = q := by
    intro p q _ _ hpq hqp
    exact absurd hpq (lt_asymm hqp)
  have hperm : l.Perm r := (List.perm_ext_iff_of_nodup (hl.nodup.of_map _) (hr.nodup.of_map _)).mpr hmem
  exact List.Perm.eq_of_pairwise hasymm hl hr hperm

end DirWatch.Listing
