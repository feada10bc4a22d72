import DirWatch.Proofs.Comparison.Order

/-!
# Comparisons path by path

`mem_diff_iff` and `stamp_baseline` speak of the names that lead down from the root. Here the same is said of paths, as
those who look up a path in a snapshot see it: `diff_exact` tells for every path below the root whether a comparison
reports it, as what, and whether the next baseline has it.
-/

namespace DirWatch

namespace Path

/-- The directory that a path stands in. -/
def parent (p : Path) : Path :=
  ⟨p.anchor, p.names.dropLast⟩

/-- A path strictly below another one. -/
def Below (root p : Path) : Prop :=
  ∃ names, names ≠ [] ∧ p = root.down names

/-- A path stands in the directory that all but the last of its names lead to. -/
theorem parent_down (p : Path) {names : List String} (hne : names ≠ []) : (p.down names).parent = p.down names.dropLast := by
  rw [parent, down, down, List.dropLast_append_of_ne_nil hne]

/-- Names lead below. -/
theorem below_down (p : Path) {names : List String} (hne : names ≠ []) : Below p (p.down names) :=
  ⟨names, hne, rfl⟩

end Path

namespace Snapshot

open Comparison (known Differs)
open Entry (lookup? stamp)

variable {old : Option Snapshot} {new : Snapshot}

/-- The entry that an older snapshot has for a path, if there is one. -/
def before? (old : Option Snapshot) (p : Path) : Option Entry :=
  old.bind (·.get? p)

/-- A place whose directory an older snapshot knows: the root itself, or a directory in it. -/
def Open (old : Option Snapshot) (root p : Path) : Prop :=
  p.parent = root ∨ ∃ d, before? old p.parent = some d ∧ d.kind = .directory

/-- The older snapshot has a path where the names of the newer root lead in its tree. -/
theorem Comparable.before?_down (h : Comparable old new) (names : List String) :
    before? old (new.root.down names) = lookup? (old.bind (·.tree)) names := by
  cases old with
  | none => rfl
  | some s =>
    obtain ⟨-, hroot⟩ := h.old_wellFormed s rfl
    rw [before?, Option.bind_some, Option.bind_some, ← hroot, get?_down, at?]

/-- The directories that are known by their names are those that are known by their paths. -/
theorem Comparable.open_down (h : Comparable old new) {names : List String} (hne : names ≠ []) :
    Open old new.root (new.root.down names) ↔ known (old.bind (·.tree)) names.dropLast = true := by
  have hroot : new.root.down names.dropLast = new.root ↔ names.dropLast = [] := by
    rw [← Path.down_inj (p := new.root), Path.down_nil]
  rw [Open, Path.parent_down _ hne, hroot, h.before?_down, known, Bool.or_eq_true, List.isEmpty_iff, Option.any_eq_true]
  refine or_congr Iff.rfl (exists_congr fun d => and_congr Iff.rfl ?_)
  exact Entry.isDirectory_iff.symm

/-- The change that is reported of a place below the root. -/
theorem Comparable.mem_diff_down (h : Comparable old new) {names : List String} (hne : names ≠ []) (kind : ChangeKind) :
    ⟨kind, new.root.down names⟩ ∈ (diff old new).changes ↔ Differs (old.bind (·.tree)) new.tree names kind := by
  rw [mem_diff_iff h]
  constructor
  · rintro ⟨other, -, hpath, hdiff⟩
    rwa [Path.down_inj.mp hpath]
  · exact fun hdiff => ⟨names, hne, rfl, hdiff⟩

/-- What a comparison says of the paths below a root: which are removed, added and modified. -/
structure Classifies (old : Option Snapshot) (new : Snapshot) (changes : List Change) : Prop where
  /-- Gone are the paths that only the older snapshot has. -/
  removed : ∀ p, Path.Below new.root p → (⟨.removed, p⟩ ∈ changes ↔ (before? old p).isSome ∧ new.get? p = none)
  /-- New are the paths that only the newer one has, where the older one knows the directory. -/
  added : ∀ p, Path.Below new.root p →
    (⟨.added, p⟩ ∈ changes ↔ (new.get? p).isSome ∧ before? old p = none ∧ Open old new.root p)
  /-- Changed are the paths that both have as different kinds, or as files of different times. -/
  modified : ∀ p, Path.Below new.root p →
    (⟨.modified, p⟩ ∈ changes ↔ ∃ b a, before? old p = some b ∧ new.get? p = some a ∧
    (b.kind ≠ a.kind ∨ b.kind = .file ∧ a.kind = .file ∧ b.mtime ≠ a.mtime))
  /-- Nothing else is reported, and of no path twice. -/
  below : ∀ c ∈ changes, Path.Below new.root c.path
  once : (changes.map (·.path)).Nodup

/-- What the next baseline is made of. -/
structure Keeps (old : Option Snapshot) (new baseline : Snapshot) : Prop where
  root : baseline.root = new.root
  capturedAt : baseline.capturedAt = new.capturedAt
  /-- The root is recorded as it is. -/
  top : (baseline.get? new.root).map stamp = (new.get? new.root).map stamp
  /-- The paths of the newer snapshot are there, where the older one knows the directory. -/
  contains : ∀ p, Path.Below new.root p → (baseline.contains p = true ↔ new.contains p = true ∧ Open old new.root p)
  /-- They have their kinds and times. -/
  records : ∀ p e, Path.Below new.root p → baseline.get? p = some e →
    e.path = p ∧ ∃ a, new.get? p = some a ∧ e.kind = a.kind ∧ e.mtime = a.mtime

/-- A comparison of snapshots of one root reports just these changes. -/
theorem Comparable.classifies (h : Comparable old new) : Classifies old new (diff old new).changes where
  removed := by
    rintro p ⟨names, hne, rfl⟩
    rw [h.mem_diff_down hne, Differs, h.before?_down, get?_down]
    rfl
  added := by
    rintro p ⟨names, hne, rfl⟩
    rw [h.mem_diff_down hne, Differs, h.before?_down, get?_down, h.open_down hne]
    exact and_left_comm
  modified := by
    rintro p ⟨names, hne, rfl⟩
    rw [h.mem_diff_down hne, Differs, h.before?_down, get?_down]
    refine exists_congr fun b => exists_congr fun a => and_congr Iff.rfl (and_congr Iff.rfl ?_)
    by_cases hkind : b.kind = a.kind
    · simp [hkind]
    · simp [hkind]
  below := by
    intro c hc
    obtain ⟨names, hne, hpath, -⟩ := (mem_diff_iff h).mp hc
    exact ⟨names, hne, hpath⟩
  once := nodup_diff h

/-- The entries of the next baseline, as they are looked up. -/
theorem get?_baseline (old : Option Snapshot) (new : Snapshot) (names : List String) :
    (diff old new).baseline.get? (new.root.down names) = (diff old new).baseline.at? names := by
  rw [← root_baseline old new, get?_down]

/-- The baseline that it leaves is made of just this. -/
theorem Comparable.keeps (h : Comparable old new) : Keeps old new (diff old new).baseline where
  root := root_baseline old new
  capturedAt := by
    unfold diff
    cases new.tree <;> rfl
  top := by
    have hstamp := stamp_baseline h []
    rw [← get?_down new, ← get?_baseline, Path.down_nil] at hstamp
    exact hstamp
  contains := by
    rintro p ⟨names, hne, rfl⟩
    rw [contains, contains, get?_baseline, get?_down, isSome_baseline h, h.open_down hne]
    exact and_comm
  records := by
    rintro p e ⟨names, hne, rfl⟩ he
    have hstamp := stamp_baseline h names
    rw [get?_baseline] at he
    rw [he] at hstamp
    split at hstamp
    · obtain ⟨a, ha, heq⟩ := Option.map_eq_some_iff.mp hstamp.symm
      obtain ⟨hpath, hkind, hmtime⟩ := Entry.stamp_eq_iff.mp heq
      obtain ⟨tree, htree, hdown⟩ := Option.bind_eq_some_iff.mp ha
      obtain ⟨hroot, hwf⟩ := h.new_wellFormed tree htree
      refine ⟨?_, a, by rw [get?_down, ha], hkind.symm, hmtime.symm⟩
      rw [← hpath, (hwf.descend hdown).2, hroot]
    · cases hstamp

/-- A comparison of two well-formed snapshots of one root reports exactly what differs, path by path, and keeps of the
newer one exactly what stands in a directory that the older one knows. -/
theorem diff_exact (h : Comparable old new) :
    Classifies old new (diff old new).changes ∧ Keeps old new (diff old new).baseline :=
  ⟨h.classifies, h.keeps⟩

/-- A root with a directory that holds a file, and two files. -/
def furnished : Snapshot :=
  let root : Path := ⟨.root, ["w"]⟩
  { root, tree := some (.directory root 1 [("a", .directory (root.down ["a"]) 1 [("x", .file (root.down ["a", "x"]) 1)]),
      ("f", .file (root.down ["f"]) 1), ("g", .file (root.down ["g"]) 1)]) }

/-- The same root with a file in place of the directory, a file of another time, and a new directory that holds a file. -/
def refurnished : Snapshot :=
  let root : Path := ⟨.root, ["w"]⟩
  { root, tree := some (.directory root 2 [("n", .directory (root.down ["n"]) 2 [("y", .file (root.down ["n", "y"]) 2)]),
      ("a", .file (root.down ["a"]) 2), ("g", .file (root.down ["g"]) 2)]) }

/-- The directory is modified and its file removed; of the two files one is removed and one modified; and the new
directory is added without its file, which the next baseline lacks. -/
theorem diff_exact_refurnished : Comparable (some furnished) refurnished ∧
    (∀ c ∈ [⟨.modified, ⟨.root, ["w", "a"]⟩⟩, ⟨.removed, ⟨.root, ["w", "a", "x"]⟩⟩,
      ⟨.removed, ⟨.root, ["w", "f"]⟩⟩, ⟨.modified, ⟨.root, ["w", "g"]⟩⟩,
      ⟨.added, ⟨.root, ["w", "n"]⟩⟩], c ∈ (diff (some furnished) refurnished).changes) ∧
    ⟨.added, ⟨.root, ["w", "n", "y"]⟩⟩ ∉ (diff (some furnished) refurnished).changes ∧
    (diff (some furnished) refurnished).baseline.contains ⟨.root, ["w", "n", "y"]⟩ = false := by
  have h : Comparable (some furnished) refurnished := ⟨by rintro s ⟨⟩; decide, by decide⟩
  obtain ⟨hclassifies, hkeeps⟩ := diff_exact h
  have hbelow : ∀ names, names ≠ [] → Path.Below refurnished.root ⟨.root, "w" :: names⟩ :=
    fun names hne => Path.below_down refurnished.root hne
  have hshut : ¬Open (some furnished) refurnished.root ⟨.root, ["w", "n", "y"]⟩ := by
    rintro (hroot | ⟨d, hd, -⟩)
    · cases hroot
    · cases hd
  refine ⟨h, ?_, ?_, ?_⟩
  · rintro c hc
    simp only [List.mem_cons, List.not_mem_nil, or_false] at hc
    obtain rfl | rfl | rfl | rfl | rfl := hc
    · exact (hclassifies.modified _ (hbelow ["a"] (by decide))).mpr ⟨_, _, rfl, rfl, Or.inl (by decide)⟩
    · exact (hclassifies.removed _ (hbelow ["a", "x"] (by decide))).mpr ⟨rfl, rfl⟩
    · exact (hclassifies.removed _ (hbelow ["f"] (by decide))).mpr ⟨rfl, rfl⟩
    · exact (hclassifies.modified _ (hbelow ["g"] (by decide))).mpr ⟨_, _, rfl, rfl, Or.inr ⟨rfl, rfl, by decide⟩⟩
    · exact (hclassifies.added _ (hbelow ["n"] (by decide))).mpr ⟨rfl, rfl, Or.inl rfl⟩
  · intro hc
    exact hshut ((hclassifies.added _ (hbelow ["n", "y"] (by decide))).mp hc).2.2
  · rw [← Bool.not_eq_true]
    intro hc
    exact hshut ((hkeeps.contains _ (hbelow ["n", "y"] (by decide))).mp hc).2

end Snapshot

end DirWatch
