import DirWatch.Proofs.Entry.Walk
import DirWatch.Proofs.Path
import Mathlib.Data.Finset.Image

/-!
# Well-formed trees

In a well-formed tree the path of an entry is the path of its directory and its name, names are single components and no two
siblings share one, and a file has no children. The names that lead down to an entry then say where it stands
(`WellFormed.descend`), so the paths of a snapshot are the lists of names that lead somewhere (`Snapshot.mem_paths_iff`).

`Entry.stamp` is what an entry records of itself. Two trees with the same stamp at every list of names agree
(`agrees_of_stamps`), whatever paths their entries carry, as long as no two siblings share a name.
-/

namespace DirWatch

open Snapshot (descend?)

namespace Entry

mutual

/-- The entry and everything below it stands where its path says, under names that are single components and differ from
those of its siblings, and only directories have children. -/
def WellFormed : Entry → Prop
  | mk path kind _ children => (kind = .file → children = []) ∧ (Listing.names children).Nodup ∧
      WellFormedBelow path children

/-- Every member of a listing is well-formed and stands in the directory at `above`. -/
def WellFormedBelow (above : Path) : List (String × Entry) → Prop
  | [] => True
  | (name, e) :: rest => (Path.IsName name ∧ e.path = above.child name ∧ e.WellFormed) ∧ WellFormedBelow above rest

end

/-- A listing is well-formed if each member is. -/
theorem wellFormedBelow_iff {above : Path} {l : List (String × Entry)} :
    WellFormedBelow above l ↔ ∀ name e, (name, e) ∈ l → Path.IsName name ∧ e.path = above.child name ∧
    e.WellFormed := by
  induction l with
  | nil => simp [WellFormedBelow]
  | cons p rest ih =>
    obtain ⟨m, f⟩ := p
    rw [WellFormedBelow, ih]
    constructor
    · rintro ⟨hf, hrest⟩ name e he
      rcases List.mem_cons.mp he with heq | he
      · cases heq
        exact hf
      · exact hrest name e he
    · intro h
      exact ⟨h m f List.mem_cons_self, fun name e he => h name e (List.mem_cons_of_mem _ he)⟩

/-- Well-formedness in terms of the children. -/
theorem wellFormed_iff {e : Entry} : e.WellFormed ↔
    (e.kind = .file → e.children = []) ∧ (Listing.names e.children).Nodup ∧
      ∀ name c, (name, c) ∈ e.children → Path.IsName name ∧ c.path = e.path.child name ∧ c.WellFormed := by
  cases e
  rw [WellFormed, wellFormedBelow_iff]
  rfl

/-- No two children of a well-formed entry share a name. -/
theorem WellFormed.nodup {e : Entry} (h : e.WellFormed) : (Listing.names e.children).Nodup :=
  (wellFormed_iff.mp h).2.1

/-- A child stands in the directory under its name, and is well-formed itself. -/
theorem WellFormed.child {e c : Entry} {name : String} (h : e.WellFormed) (hc : e.child? name = some c) :
    Path.IsName name ∧ c.path = e.path.down [name] ∧ c.WellFormed := by
  obtain ⟨hname, hpath, hwf⟩ := (wellFormed_iff.mp h).2.2 name c (child?_mem hc)
  exact ⟨hname, by rw [hpath, Path.child_eq_down hname], hwf⟩

/-- Only a directory has a child. -/
theorem WellFormed.isDirectory_of_child {e c : Entry} {name : String} (h : e.WellFormed) (hc : e.child? name = some c) :
    e.isDirectory = true := by
  rw [isDirectory, decide_eq_true_iff]
  cases hk : e.kind with
  | directory => rfl
  | file =>
    have hnil := (wellFormed_iff.mp h).1 hk
    rw [child?, hnil] at hc
    simp at hc

/-- Names lead from a well-formed entry to well-formed entries at the paths that the names spell. -/
theorem WellFormed.descend {e d : Entry} {names : List String} (h : e.WellFormed) (hd : descend? e names = some d) :
    d.WellFormed ∧ d.path = e.path.down names := by
  induction names generalizing e with
  | nil =>
    cases hd
    exact ⟨h, (Path.down_nil _).symm⟩
  | cons name names ih =>
    rw [descend?_cons] at hd
    obtain ⟨c, hc, hd⟩ := Option.bind_eq_some_iff.mp hd
    obtain ⟨-, hpath, hwf⟩ := h.child hc
    obtain ⟨hdwf, hdpath⟩ := ih hwf hd
    exact ⟨hdwf, by rw [hdpath, hpath, Path.down_down, List.singleton_append]⟩

/-- What stands below an entry stands in a directory. -/
theorem WellFormed.parent {e d : Entry} {names : List String} (h : e.WellFormed) (hne : names ≠ [])
    (hd : descend? e names = some d) : ∃ a, descend? e names.dropLast = some a ∧ a.isDirectory = true := by
  rcases List.eq_nil_or_concat names with rfl | ⟨above, name, rfl⟩
  · exact absurd rfl hne
  · rw [List.concat_eq_append, descend?_append] at hd
    obtain ⟨a, ha, hd⟩ := Option.bind_eq_some_iff.mp hd
    rw [descend?_cons] at hd
    obtain ⟨c, hc, -⟩ := Option.bind_eq_some_iff.mp hd
    refine ⟨a, by rw [List.concat_eq_append, List.dropLast_concat]; exact ha, ?_⟩
    exact (h.descend ha).1.isDirectory_of_child hc

/-- Nothing is below a file. -/
theorem WellFormed.descend?_of_file {e : Entry} (h : e.WellFormed) (hfile : e.kind = .file) {names : List String}
    (hne : names ≠ []) :
    descend? e names = none := by
  cases names with
  | nil => exact absurd rfl hne
  | cons name names =>
    rw [descend?_cons, child?, (wellFormed_iff.mp h).1 hfile]
    rfl

/-- Without children nothing can be out of place. -/
theorem WellFormed.withoutChildren {e : Entry} : e.withoutChildren.WellFormed :=
  wellFormed_iff.mpr ⟨fun _ => rfl, List.nodup_nil, by simp [Entry.withoutChildren, withChildren]⟩

/-- The paths of the walk are the paths that names lead to. -/
theorem WellFormed.mem_walk_paths {e : Entry} (h : e.WellFormed) {p : Path} :
    p ∈ e.walk.map Entry.path ↔ ∃ names, names ≠ [] ∧ p = e.path.down names ∧ (descend? e names).isSome := by
  rw [List.mem_map]
  constructor
  · rintro ⟨d, hd, rfl⟩
    obtain ⟨names, hne, hnames⟩ := mem_walk_iff.mp hd
    exact ⟨names, hne, (h.descend hnames).2, by rw [hnames]; rfl⟩
  · rintro ⟨names, hne, rfl, hsome⟩
    obtain ⟨d, hd⟩ := Option.isSome_iff_exists.mp hsome
    exact ⟨d, mem_walk_iff.mpr ⟨names, hne, hd⟩, (h.descend hd).2⟩

mutual

/-- Whether an entry is well-formed can be computed. -/
def decideWellFormed : (e : Entry) → Decidable e.WellFormed
  | mk path kind _ children =>
    have : Decidable (children = []) := decidable_of_iff (children.isEmpty = true) List.isEmpty_iff
    have := decideWellFormedBelow path children
    inferInstanceAs
      (Decidable ((kind = .file → children = []) ∧ (Listing.names children).Nodup ∧ WellFormedBelow path children))

def decideWellFormedBelow (above : Path) : (l : List (String × Entry)) → Decidable (WellFormedBelow above l)
  | [] => .isTrue trivial
  | (name, e) :: rest =>
    have := decideWellFormed e
    have := decideWellFormedBelow above rest
    inferInstanceAs
      (Decidable ((Path.IsName name ∧ e.path = above.child name ∧ e.WellFormed) ∧ WellFormedBelow above rest))

end

instance (e : Entry) : Decidable e.WellFormed := e.decideWellFormed

/-! ## Distinct names -/

mutual

/-- No two siblings share a name, here and everywhere below. -/
def Distinct : Entry → Prop
  | mk _ _ _ children => (Listing.names children).Nodup ∧ DistinctBelow children

/-- Every member of a listing has distinct names below it. -/
def DistinctBelow : List (String × Entry) → Prop
  | [] => True
  | (_, e) :: rest => e.Distinct ∧ DistinctBelow rest

end

/-- A listing has distinct names below it if each member has. -/
theorem distinctBelow_iff {l : List (String × Entry)} : DistinctBelow l ↔ ∀ name e, (name, e) ∈ l → e.Distinct := by
  induction l with
  | nil => simp [DistinctBelow]
  | cons p rest ih =>
    obtain ⟨m, f⟩ := p
    rw [DistinctBelow, ih]
    constructor
    · rintro ⟨hf, hrest⟩ name e he
      rcases List.mem_cons.mp he with heq | he
      · cases heq
        exact hf
      · exact hrest name e he
    · intro h
      exact ⟨h m f List.mem_cons_self, fun name e he => h name e (List.mem_cons_of_mem _ he)⟩

/-- Distinct names in terms of the children. -/
theorem distinct_iff {e : Entry} :
    e.Distinct ↔ (Listing.names e.children).Nodup ∧ ∀ name c, (name, c) ∈ e.children → c.Distinct := by
  cases e
  rw [Distinct, distinctBelow_iff]
  rfl

/-- No two children of an entry with distinct names share one. -/
theorem Distinct.nodup {e : Entry} (h : e.Distinct) : (Listing.names e.children).Nodup :=
  (distinct_iff.mp h).1

/-- A child has distinct names, too. -/
theorem Distinct.child {e c : Entry} {name : String} (h : e.Distinct) (hc : e.child? name = some c) : c.Distinct :=
  (distinct_iff.mp h).2 name c (child?_mem hc)

/-- In a well-formed tree no two siblings share a name. -/
theorem WellFormed.distinct {e : Entry} (h : e.WellFormed) : e.Distinct := by
  induction e using childInduction with
  | step e ih =>
    obtain ⟨-, hnodup, hchildren⟩ := wellFormed_iff.mp h
    exact distinct_iff.mpr ⟨hnodup, fun name c hc => ih name c hc (hchildren name c hc).2.2⟩

mutual

/-- Whether the names are distinct can be computed. -/
def decideDistinct : (e : Entry) → Decidable e.Distinct
  | mk _ _ _ children =>
    have := decideDistinctBelow children
    inferInstanceAs (Decidable ((Listing.names children).Nodup ∧ DistinctBelow children))

def decideDistinctBelow : (l : List (String × Entry)) → Decidable (DistinctBelow l)
  | [] => .isTrue trivial
  | (_, e) :: rest =>
    have := decideDistinct e
    have := decideDistinctBelow rest
    inferInstanceAs (Decidable (e.Distinct ∧ DistinctBelow rest))

end

instance (e : Entry) : Decidable e.Distinct := e.decideDistinct

/-! ## Stamps -/

/-- What an entry records of itself: its path, its kind and its time. -/
def stamp (e : Entry) : Path × Kind × Int :=
  (e.path, e.kind, e.mtime)

/-- A stamp is the path, the kind and the time. -/
theorem stamp_eq_iff {e f : Entry} : e.stamp = f.stamp ↔ e.path = f.path ∧ e.kind = f.kind ∧ e.mtime = f.mtime := by
  simp [stamp]

@[simp] theorem stamp_withChildren (e : Entry) (l : Listing Entry) : (e.withChildren l).stamp = e.stamp := rfl

@[simp] theorem stamp_withoutChildren (e : Entry) : e.withoutChildren.stamp = e.stamp := rfl

/-- Listings agree if each member of the first has one in the second to agree with. -/
theorem agreeAll_iff {l : List (String × Entry)} {r : Listing Entry} :
    agreeAll l r = true ↔ ∀ name e, (name, e) ∈ l → ∃ f, Listing.get? r name = some f ∧ e.agrees f = true := by
  induction l with
  | nil => simp [agreeAll]
  | cons p rest ih =>
    obtain ⟨m, g⟩ := p
    rw [agreeAll, Bool.and_eq_true, ih]
    constructor
    · rintro ⟨hm, hrest⟩ name e he
      rcases List.mem_cons.mp he with heq | he
      · cases heq
        cases hget : Listing.get? r m with
        | none => simp [hget] at hm
        | some f => exact ⟨f, rfl, by simpa [hget] using hm⟩
      · exact hrest name e he
    · intro h
      refine ⟨?_, fun name e he => h name e (List.mem_cons_of_mem _ he)⟩
      obtain ⟨f, hf, hagree⟩ := h m g List.mem_cons_self
      simpa [hf] using hagree

/-- Trees of distinct names with the same stamps agree. -/
theorem agrees_of_stamps {e f : Entry} (he : e.Distinct) (hf : f.Distinct)
    (h : ∀ names, (descend? e names).map stamp = (descend? f names).map stamp) : e.agrees f = true := by
  induction e using childInduction generalizing f with
  | step e ih =>
    have hchild : ∀ name, (e.child? name).map stamp = (f.child? name).map stamp := by
      intro name
      have := h [name]
      rw [descend?_cons, descend?_cons] at this
      simpa using this
    have hroot : e.stamp = f.stamp := by simpa using h []
    have hnone : ∀ name, Listing.get? e.children name = none ↔ Listing.get? f.children name = none := by
      intro name
      have := congrArg Option.isNone (hchild name)
      rw [Option.isNone_map, Option.isNone_map] at this
      rw [← Option.isNone_iff_eq_none, ← Option.isNone_iff_eq_none]
      exact Bool.eq_iff_iff.mp this
    have hlen : e.children.length = f.children.length :=
      Nat.le_antisymm (Listing.length_le_of_get? he.nodup fun name => (hnone name).mpr)
        (Listing.length_le_of_get? hf.nodup fun name => (hnone name).mp)
    have hall : agreeAll e.children f.children = true := by
      rw [agreeAll_iff]
      intro name c hc
      have hget : e.child? name = some c := Listing.get?_of_mem he.nodup hc
      obtain ⟨d, hd⟩ : ∃ d, f.child? name = some d := by
        cases hd : f.child? name with
        | none => simp [child?, (hnone name).mpr hd] at hget
        | some d => exact ⟨d, rfl⟩
      refine ⟨d, hd, ih name c hc (he.child hget) (hf.child hd) ?_⟩
      intro names
      have := h (name :: names)
      rwa [descend?_cons, descend?_cons, hget, hd] at this
    obtain ⟨path, kind, mtime, children⟩ := e
    obtain ⟨hpath, hkind, hmtime⟩ := stamp_eq_iff.mp hroot
    simp only [path_mk, kind_mk, mtime_mk, children_mk] at hpath hkind hmtime hlen hall
    rw [agrees, hall, hpath, hkind, hmtime]
    simp [hlen]

end Entry

/-! ## Snapshots -/

namespace Snapshot

/-- The tree of a snapshot is well-formed and stands at its root. -/
def WellFormed (s : Snapshot) : Prop :=
  ∀ tree ∈ s.tree, tree.path = s.root ∧ tree.WellFormed

instance (s : Snapshot) : Decidable s.WellFormed :=
  match h : s.tree with
  | none => .isTrue (by simp [WellFormed, h])
  | some tree => decidable_of_iff (tree.path = s.root ∧ tree.WellFormed) (by simp [WellFormed, h])

/-- The entry that names lead to from the root. -/
def at? (s : Snapshot) (names : List String) : Option Entry :=
  Entry.lookup? s.tree names

/-- A path is looked up by the names that lead to it. -/
theorem get?_down (s : Snapshot) (names : List String) : s.get? (s.root.down names) = s.at? names := by
  rw [get?, at?]
  cases s.tree with
  | none => rfl
  | some tree => simp [Entry.lookup?_some]

/-- What is looked up stands below the root. -/
theorem eq_down_of_get? {s : Snapshot} {p : Path} {e : Entry} (h : s.get? p = some e) :
    ∃ names, p = s.root.down names ∧ s.at? names = some e := by
  unfold get? at h
  split at h
  · cases h
  · rename_i tree htree
    split at h
    · cases h
    · rename_i names hnames
      exact ⟨names, Path.eq_down_of_namesBelow? hnames, by rw [at?, htree]; exact h⟩

/-- The paths below the root. -/
def paths (s : Snapshot) : Finset Path :=
  (s.entries.map Entry.path).toFinset

/-- No two siblings of the tree share a name. -/
def Distinct (s : Snapshot) : Prop :=
  ∀ tree ∈ s.tree, tree.Distinct

instance (s : Snapshot) : Decidable s.Distinct :=
  match h : s.tree with
  | none => .isTrue (by simp [Distinct, h])
  | some tree => decidable_of_iff tree.Distinct (by simp [Distinct, h])

/-- So no two siblings share a name in a well-formed snapshot. -/
theorem WellFormed.distinct {s : Snapshot} (h : s.WellFormed) : s.Distinct :=
  fun tree htree => (h tree htree).2.distinct

/-- Snapshots of distinct names with the same stamps have trees that agree. -/
theorem tree_beq {s t : Snapshot} (hs : s.Distinct) (ht : t.Distinct)
    (h : ∀ names, (s.at? names).map Entry.stamp = (t.at? names).map Entry.stamp) : (s.tree == t.tree) = true := by
  unfold at? at h
  cases hstree : s.tree with
  | none =>
    cases httree : t.tree with
    | none => rfl
    | some b =>
      have := h []
      simp [hstree, httree] at this
  | some a =>
    cases httree : t.tree with
    | none =>
      have := h []
      simp [hstree, httree] at this
    | some b =>
      rw [hstree, httree] at h
      exact Entry.agrees_of_stamps (hs a hstree) (ht b httree) h

/-- A path is below the root of a well-formed snapshot exactly when its names lead to an entry. -/
theorem mem_paths_iff {s : Snapshot} (h : s.WellFormed) {p : Path} :
    p ∈ s.paths ↔ ∃ names, names ≠ [] ∧ p = s.root.down names ∧ (s.at? names).isSome := by
  unfold paths entries at?
  cases htree : s.tree with
  | none => simp
  | some tree =>
    obtain ⟨hpath, hwf⟩ := h tree htree
    rw [List.mem_toFinset, hwf.mem_walk_paths, hpath]
    rfl

/-- A path is below the root if the names to it lead somewhere. -/
theorem down_mem_paths {s : Snapshot} (h : s.WellFormed) {names : List String} (hne : names ≠ []) :
    s.root.down names ∈ s.paths ↔ (s.at? names).isSome := by
  rw [mem_paths_iff h]
  constructor
  · rintro ⟨other, -, heq, hsome⟩
    rwa [Path.down_inj.mp heq]
  · intro hsome
    exact ⟨names, hne, rfl, hsome⟩

end Snapshot

end DirWatch
