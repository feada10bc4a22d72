import DirWatch.Proofs.Listing
import DirWatch.Snapshot

/-!
# Walking an entry

`Entry.walk` keeps the entries still to visit in one list. `walk_eq` says that this is the walk by recursion: each child in
name order, followed by its own walk. An entry is in the walk exactly when some names lead down to it (`mem_walk_iff`); this
holds of every tree, whatever paths its entries carry.
-/

namespace DirWatch

open Snapshot (descend?)

namespace Entry

@[simp] theorem path_mk (path : Path) (kind : Kind) (mtime : Int) (children : List (String × Entry)) :
    (mk path kind mtime children).path = path := rfl

@[simp] theorem kind_mk (path : Path) (kind : Kind) (mtime : Int) (children : List (String × Entry)) :
    (mk path kind mtime children).kind = kind := rfl

@[simp] theorem mtime_mk (path : Path) (kind : Kind) (mtime : Int) (children : List (String × Entry)) :
    (mk path kind mtime children).mtime = mtime := rfl

@[simp] theorem children_mk (path : Path) (kind : Kind) (mtime : Int) (children : List (String × Entry)) :
    (mk path kind mtime children).children = children := rfl

/-- A directory is an entry of that kind. -/
theorem isDirectory_iff {e : Entry} : e.isDirectory = true ↔ e.kind = .directory := by
  rw [Entry.isDirectory, decide_eq_true_iff]

/-- Everything else is a file. -/
theorem kind_eq_file {e : Entry} (h : ¬e.isDirectory = true) : e.kind = .file := by
  rw [isDirectory_iff] at h
  cases hk : e.kind with
  | file => rfl
  | directory => exact absurd hk h

/-- There are two kinds. -/
theorem kind_eq_directory {e : Entry} (h : e.kind ≠ .file) : e.kind = .directory := by
  cases hk : e.kind with
  | file => exact absurd hk h
  | directory => rfl

/-- A member is no larger than its listing. -/
theorem size_le_sizeAll {l : List (String × Entry)} {name : String} {e : Entry} (h : (name, e) ∈ l) :
    e.size ≤ sizeAll l := by
  induction l with
  | nil => simp at h
  | cons p rest ih =>
    obtain ⟨other, f⟩ := p
    rw [sizeAll]
    rcases List.mem_cons.mp h with heq | h
    · cases heq
      exact Nat.le_add_right _ _
    · have := ih h
      omega

/-- A child is smaller than its parent. -/
theorem size_lt_of_mem {e c : Entry} {name : String} (h : (name, c) ∈ e.children) : c.size < e.size := by
  have := size_le_sizeAll h
  rw [e.size_eq]
  omega

/-- Induction over a tree: a property of every entry that holds of an entry whose children have it. -/
@[elab_as_elim]
theorem childInduction {motive : Entry → Prop}
    (step : ∀ e, (∀ name c, (name, c) ∈ e.children → motive c) → motive e) (e : Entry) : motive e := by
  induction h : e.size using Nat.strongRecOn generalizing e with
  | ind n ih =>
    subst h
    exact step e fun name c hc => ih c.size (size_lt_of_mem hc) c rfl

/-- A child stands in the listing under its name. -/
theorem child?_mem {e c : Entry} {name : String} (h : e.child? name = some c) : (name, c) ∈ e.children :=
  Listing.mem_of_get? h

/-! ## The walk -/

@[simp] theorem walkAll_nil : walkAll [] = [] := by
  rw [walkAll]

/-- Listings are walked one after the other. -/
theorem walkAll_append (l r : Listing Entry) : walkAll (l ++ r) = walkAll l ++ walkAll r := by
  fun_induction walkAll l with
  | case1 => rfl
  | case2 name e waiting ih =>
    rw [List.cons_append, walkAll, ← List.append_assoc, ih, List.cons_append]

/-- Every member comes before what stands below it. -/
theorem walkAll_eq (l : Listing Entry) : walkAll l = l.flatMap fun p => p.2 :: p.2.walk := by
  induction l with
  | nil => simp
  | cons p rest ih =>
    obtain ⟨name, e⟩ := p
    rw [walkAll, walkAll_append, ih, List.flatMap_cons]
    rfl

/-- The walk visits the children in name order, each followed by its own walk. -/
theorem walk_eq (e : Entry) : e.walk = (Listing.sorted e.children).flatMap fun p => p.2 :: p.2.walk :=
  walkAll_eq _

/-! ## Following names -/

@[simp] theorem descend?_nil (e : Entry) : descend? e [] = some e := rfl

/-- The first name leads to a child, the others on from there. -/
theorem descend?_cons (e : Entry) (name : String) (names : List String) :
    descend? e (name :: names) = (e.child? name).bind fun c => descend? c names := by
  rw [descend?]
  cases e.child? name <;> rfl

/-- Names can be followed in two parts. -/
theorem descend?_append (e : Entry) (names more : List String) :
    descend? e (names ++ more) = (descend? e names).bind fun c => descend? c more := by
  induction names generalizing e with
  | nil => rfl
  | cons name names ih =>
    rw [List.cons_append, descend?_cons, descend?_cons]
    cases e.child? name with
    | none => rfl
    | some c => exact ih c

/-- What names lead to, if there is a tree at all. -/
def lookup? (tree : Option Entry) (names : List String) : Option Entry :=
  tree.bind fun e => descend? e names

@[simp] theorem lookup?_none (names : List String) : lookup? none names = none := rfl

@[simp] theorem lookup?_some (e : Entry) (names : List String) : lookup? (some e) names = descend? e names := rfl

/-- No names lead to the tree itself. -/
@[simp] theorem lookup?_nil (tree : Option Entry) : lookup? tree [] = tree := by
  cases tree <;> rfl

/-- The first name leads into the children of the tree, if there is one. -/
theorem lookup?_cons (tree : Option Entry) (name : String) (names : List String) :
    lookup? tree (name :: names) = lookup? (tree.bind fun e => e.child? name) names := by
  cases tree with
  | none => rfl
  | some e => exact descend?_cons e name names

/-- The walk of an entry is what some names lead down to. -/
theorem mem_walk_iff {e d : Entry} : d ∈ e.walk ↔ ∃ names, names ≠ [] ∧ descend? e names = some d := by
  induction e using childInduction generalizing d with
  | step e ih =>
    rw [walk_eq, List.mem_flatMap]
    constructor
    · rintro ⟨⟨name, c⟩, hc, hd⟩
      have hget := Listing.mem_sorted_iff.mp hc
      rcases List.mem_cons.mp hd with rfl | hd
      · exact ⟨[name], by simp, by rw [descend?_cons, child?, hget]; rfl⟩
      · obtain ⟨names, -, hnames⟩ := (ih name c (Listing.mem_of_get? hget)).mp hd
        exact ⟨name :: names, by simp, by rw [descend?_cons, child?, hget]; exact hnames⟩
    · rintro ⟨names, hne, hnames⟩
      cases names with
      | nil => exact absurd rfl hne
      | cons name names =>
        rw [descend?_cons] at hnames
        cases hget : e.child? name with
        | none => simp [hget] at hnames
        | some c =>
          rw [hget, Option.bind_some] at hnames
          refine ⟨(name, c), Listing.mem_sorted_iff.mpr hget, ?_⟩
          cases names with
          | nil =>
            cases hnames
            exact List.mem_cons_self
          | cons m ms =>
            exact List.mem_cons_of_mem _ ((ih name c (child?_mem hget)).mpr ⟨m :: ms, by simp, hnames⟩)

end Entry

end DirWatch
