import DirWatch.Proofs.Comparison.Order
import Mathlib.Order.Interval.Finset.Nat
import Mathlib.Order.Lattice.Nat

/-!
# Comparing one snapshot again and again

Each comparison looks one level deeper into what is new. `Snapshot.stamp_baselines` is the invariant: after `n` comparisons
the baseline has exactly the entries of the newer snapshot that stand at most `n` names below a place that the older one
knows. `Snapshot.baselines_converge` draws the consequences: when the height of the newer snapshot is reached the baseline is
that snapshot and nothing more is reported, every new path is added once, by the comparison of its distance, and only the
first comparison reports anything else.
-/

namespace DirWatch

namespace Snapshot

open Comparison (known Differs)
open Entry (lookup? stamp)

/-- The baselines that comparisons with one snapshot leave, one after another. -/
def baselines (old : Option Snapshot) (new : Snapshot) : Nat → Option Snapshot
  | 0 => old
  | n + 1 => some (diff (baselines old new n) new).baseline

/-- The largest depth of a path below the root. -/
def height (s : Snapshot) : Nat :=
  s.paths.sup fun p => p.names.length - s.root.names.length

/-- How far a place is below the nearest one above it that is the root or a directory of an older snapshot. -/
def distance (old : Option Snapshot) (names : List String) : Nat :=
  if h : known (old.bind (·.tree)) names.dropLast = true then 1
  else distance old names.dropLast + 1
termination_by names.length
decreasing_by
  have hne : names ≠ [] := by
    rintro rfl
    exact h rfl
  rw [List.length_dropLast]
  exact Nat.sub_lt (List.length_pos_iff.mpr hne) Nat.one_pos

variable {old : Option Snapshot} {new : Snapshot}

/-! ## Distance -/

/-- A path is at least one step below what the older snapshot knows. -/
theorem distance_pos (old : Option Snapshot) (names : List String) : 1 ≤ distance old names := by
  rw [distance]
  split <;> omega

/-- A place is near if its directory is known or near itself. -/
theorem distance_le_succ (old : Option Snapshot) (names : List String) (n : Nat) :
    distance old names ≤ n + 1 ↔ known (old.bind (·.tree)) names.dropLast = true ∨ distance old names.dropLast ≤ n := by
  rw [distance]
  split
  · rename_i hknown
    simp [hknown]
  · rename_i hknown
    rw [Nat.add_le_add_iff_right, or_iff_right hknown]

/-- It is one step below if its own directory is known. -/
theorem distance_le_one (old : Option Snapshot) (names : List String) :
    distance old names ≤ 1 ↔ known (old.bind (·.tree)) names.dropLast = true := by
  rw [distance_le_succ, or_iff_left]
  have := distance_pos old names.dropLast
  omega

/-- The root is above everything. -/
theorem distance_le_length (old : Option Snapshot) (names : List String) : distance old names ≤ max 1 names.length := by
  induction h : names.length generalizing names with
  | zero =>
    rw [List.length_eq_zero_iff] at h
    subst h
    exact (distance_le_one old []).mpr rfl
  | succ n ih =>
    rw [Nat.max_eq_right (by omega), distance_le_succ]
    by_cases hn : n = 0
    · subst hn
      obtain ⟨name, rfl⟩ := List.length_eq_one_iff.mp h
      exact Or.inl rfl
    · have := ih names.dropLast (by rw [List.length_dropLast, h]; rfl)
      rw [Nat.max_eq_right (by omega)] at this
      exact Or.inr this

/-! ## The baselines -/

/-- Every baseline on the way can be compared with the snapshot. -/
theorem comparable_baselines (h : Comparable old new) (n : Nat) : Comparable (baselines old new n) new := by
  cases n with
  | zero => exact h
  | succ n =>
    refine ⟨?_, h.new_wellFormed⟩
    rintro s ⟨⟩
    exact ⟨h.new_wellFormed.baseline _, root_baseline _ _⟩

/-- A place below the root is known if a directory stands there. -/
theorem known_iff {tree : Option Entry} {names : List String} (hne : names ≠ []) :
    known tree names = true ↔ ∃ e, lookup? tree names = some e ∧ e.isDirectory = true := by
  rw [known, List.isEmpty_eq_false_iff.mpr hne, Bool.false_or, Option.any_eq_true]

/-- Everything above a directory that is known is known. -/
theorem known_dropLast (h : Comparable old new) {names : List String}
    (hknown : known (old.bind (·.tree)) names = true) : known (old.bind (·.tree)) names.dropLast = true := by
  by_cases hne : names = []
  · subst hne
    rfl
  · obtain ⟨e, he, -⟩ := (known_iff hne).mp hknown
    obtain ⟨tree, htree, he⟩ := Option.bind_eq_some_iff.mp he
    obtain ⟨s, hs, htree'⟩ := Option.bind_eq_some_iff.mp htree
    have := (h.old_wellFormed s hs).1.known_dropLast hne (by rw [at?, htree', Entry.lookup?_some, he]; rfl)
    rwa [htree, ← htree']

/-- A tree with the entries of the newer snapshot up to one distance knows the directories of what is one further. -/
theorem known_of_stamps (h : Comparable old new) {tree : Option Entry} {n : Nat} (hstamps : ∀ names,
      (lookup? tree names).map stamp = if distance old names ≤ n + 1 then (new.at? names).map stamp else none)
    {names : List String} (hnew : (new.at? names).isSome) :
    known tree names.dropLast = true ↔ distance old names ≤ n + 2 := by
  rw [distance_le_succ old names (n + 1)]
  by_cases htop : names.dropLast = []
  · rw [htop]
    exact ⟨fun _ => Or.inl rfl, fun _ => rfl⟩
  · have hne : names ≠ [] := by
      rintro rfl
      exact htop rfl
    -- what stands in the newer snapshot stands in a directory there
    obtain ⟨e, he⟩ := Option.isSome_iff_exists.mp hnew
    obtain ⟨root, hroot, he⟩ := Option.bind_eq_some_iff.mp he
    obtain ⟨a, ha, hdir⟩ := (h.new_wellFormed root hroot).2.parent hne he
    have habove : new.at? names.dropLast = some a := by rw [at?, hroot, Entry.lookup?_some, ha]
    have hstamp := hstamps names.dropLast
    rw [habove, Option.map_some] at hstamp
    rw [known_iff htop]
    constructor
    · rintro ⟨b, hb, -⟩
      rw [hb] at hstamp
      right
      by_contra hfar
      rw [if_neg hfar] at hstamp
      cases hstamp
    · intro hnear
      have hnear : distance old names.dropLast ≤ n + 1 := by
        rcases hnear with hknown | hnear
        · have := (distance_le_one old names.dropLast).mpr (known_dropLast h hknown)
          omega
        · exact hnear
      rw [if_pos hnear] at hstamp
      obtain ⟨b, hb, hbstamp⟩ := Option.map_eq_some_iff.mp hstamp
      have hkind := (Entry.stamp_eq_iff.mp hbstamp).2.1
      exact ⟨b, hb, by rw [Entry.isDirectory_iff, hkind, ← Entry.isDirectory_iff]; exact hdir⟩

/-- After some comparisons the baseline has the entries of the newer snapshot up to that distance, and nothing else. -/
theorem stamp_baselines (h : Comparable old new) (n : Nat) (names : List String) :
    (lookup? ((baselines old new (n + 1)).bind (·.tree)) names).map stamp =
      if distance old names ≤ n + 1 then (new.at? names).map stamp else none := by
  induction n generalizing names with
  | zero =>
    have hfirst := stamp_baseline h names
    rw [if_congr (distance_le_one old names).symm rfl rfl] at hfirst
    exact hfirst
  | succ n ih =>
    refine (stamp_baseline (comparable_baselines h (n + 1)) names).trans ?_
    by_cases hnew : (new.at? names).isSome
    · exact if_congr (known_of_stamps h ih hnew) rfl rfl
    · rw [Option.not_isSome_iff_eq_none.mp hnew]
      simp

/-- Every place of a snapshot is at most its height below the root. -/
theorem length_le_height (h : new.WellFormed) {names : List String} (hsome : (new.at? names).isSome) :
    names.length ≤ new.height := by
  by_cases hne : names = []
  · subst hne
    exact Nat.zero_le _
  · have hmem := (down_mem_paths h hne).mpr hsome
    have hle : (new.root.down names).names.length - new.root.names.length ≤ new.height :=
      Finset.le_sup (f := fun p : Path => p.names.length - new.root.names.length) hmem
    rw [Path.length_down, Nat.add_sub_cancel_left] at hle
    exact hle

/-- When the height is reached, the baseline has the entries of the newer snapshot. -/
theorem stamp_baselines_height (h : Comparable old new) {n : Nat} (hn : max 1 new.height ≤ n) (names : List String) :
    (lookup? ((baselines old new n).bind (·.tree)) names).map stamp = (new.at? names).map stamp := by
  obtain ⟨m, rfl⟩ := Nat.exists_eq_add_of_le' (le_trans (Nat.le_max_left _ _) hn)
  rw [stamp_baselines h]
  cases hnew : new.at? names with
  | none => simp
  | some e =>
    have hsome : (new.at? names).isSome := by
      rw [hnew]
      rfl
    have hlen := length_le_height h.new_wellFormed hsome
    have hdist := distance_le_length old names
    rw [if_pos]
    omega

/-! ## What later comparisons report -/

/-- After the first comparison only additions are reported: the places whose distance is reached. -/
theorem differs_baselines (h : Comparable old new) (n : Nat) (names : List String) (kind : ChangeKind) :
    Differs ((baselines old new (n + 1)).bind (·.tree)) new.tree names kind ↔
      kind = .added ∧ (new.at? names).isSome ∧ distance old names = n + 2 := by
  have hstamp := stamp_baselines h n names
  cases kind with
  | added =>
    rw [and_iff_right rfl]
    constructor
    · rintro ⟨hnone, hnew, hknown⟩
      have hnear := (known_of_stamps h (stamp_baselines h n) hnew).mp hknown
      refine ⟨hnew, ?_⟩
      by_contra hne
      -- what is nearer is in the baseline already
      rw [if_pos (by omega), hnone] at hstamp
      have : (new.at? names).map stamp = none := hstamp.symm
      rw [Option.map_eq_none_iff] at this
      rw [at?] at this
      rw [this] at hnew
      cases hnew
    · rintro ⟨hnew, hdist⟩
      refine ⟨?_, hnew, (known_of_stamps h (stamp_baselines h n) hnew).mpr (by omega)⟩
      rw [if_neg (by omega)] at hstamp
      exact Option.map_eq_none_iff.mp hstamp
  | removed =>
    refine ⟨?_, fun hadded => by cases hadded.1⟩
    rintro ⟨hsome, hnone⟩
    have hnew : new.at? names = none := hnone
    rw [hnew] at hstamp
    obtain ⟨b, hb⟩ := Option.isSome_iff_exists.mp hsome
    rw [hb] at hstamp
    split at hstamp <;> cases hstamp
  | modified =>
    refine ⟨?_, fun hadded => by cases hadded.1⟩
    rintro ⟨b, a, hb, ha, hdiff⟩
    have hnew : new.at? names = some a := ha
    rw [hb, hnew] at hstamp
    split at hstamp
    · obtain ⟨-, hkind, hmtime⟩ := Entry.stamp_eq_iff.mp (Option.some_inj.mp hstamp)
      rcases hdiff with hne | ⟨-, hne⟩
      · exact absurd hkind hne
      · exact absurd hmtime hne
    · cases hstamp

/-- A new path is added by the comparison of its distance. -/
theorem mem_added_iff (h : Comparable old new) {names : List String} (hnew : new.root.down names ∈ new.paths)
    (hold : ∀ s ∈ old, new.root.down names ∉ s.paths) (n : Nat) :
    ⟨.added, new.root.down names⟩ ∈ (diff (baselines old new n) new).changes ↔ n + 1 = distance old names := by
  obtain ⟨other, hne, heq, hsome⟩ := (mem_paths_iff h.new_wellFormed).mp hnew
  cases Path.down_inj.mp heq
  have hmem : ⟨.added, new.root.down names⟩ ∈ (diff (baselines old new n) new).changes ↔
      Differs ((baselines old new n).bind (·.tree)) new.tree names .added := by
    rw [mem_diff_iff (comparable_baselines h n)]
    constructor
    · rintro ⟨other, -, hpath, hdiff⟩
      cases Path.down_inj.mp hpath
      exact hdiff
    · intro hdiff
      exact ⟨names, hne, rfl, hdiff⟩
  rw [hmem]
  cases n with
  | succ n =>
    rw [differs_baselines h n names .added]
    exact ⟨fun hdist => hdist.2.2.symm, fun hdist => ⟨rfl, hsome, hdist.symm⟩⟩
  | zero =>
    have hmissing : lookup? (old.bind (·.tree)) names = none := by
      cases old with
      | none => rfl
      | some s =>
        obtain ⟨hswf, hroot⟩ := h.old_wellFormed s rfl
        rw [← Option.not_isSome_iff_eq_none]
        intro hs
        exact hold s rfl (by rw [← hroot]; exact (down_mem_paths hswf hne).mpr hs)
    have hfirst := distance_le_one old names
    have hpos := distance_pos old names
    constructor
    · rintro ⟨-, -, hknown⟩
      have := hfirst.mpr hknown
      omega
    · intro hdist
      exact ⟨hmissing, hsome, hfirst.mp (by omega)⟩

/-- Comparisons with one snapshot converge level by level. From its height on the baseline agrees with the snapshot, and
nothing is reported any more. A path that the older snapshot lacks is added once, by the comparison whose number is the
distance of the path. After the first comparison nothing else is reported. -/
theorem baselines_converge (h : Comparable old new) :
    (∀ n, max 1 new.height ≤ n → ∃ s, baselines old new n = some s ∧ (s.tree == new.tree) = true) ∧
    (∀ n, max 1 new.height ≤ n → (diff (baselines old new n) new).changes = []) ∧
    (∀ names, new.root.down names ∈ new.paths → (∀ s ∈ old, new.root.down names ∉ s.paths) → ∀ n,
      (diff (baselines old new n) new).changes.count ⟨.added, new.root.down names⟩ =
        if n + 1 = distance old names then 1 else 0) ∧
    ∀ n, 1 ≤ n → ∀ c ∈ (diff (baselines old new n) new).changes, c.kind = .added := by
  refine ⟨?_, ?_, ?_, ?_⟩
  · intro n hn
    have hstamps := stamp_baselines_height h hn
    obtain ⟨m, rfl⟩ := Nat.exists_eq_add_of_le' (le_trans (Nat.le_max_left _ _) hn)
    refine ⟨_, rfl, ?_⟩
    have hwf := (comparable_baselines h (m + 1)).old_wellFormed _ rfl
    exact tree_beq hwf.1.distinct h.new_wellFormed.distinct hstamps
  · intro n hn
    obtain ⟨m, rfl⟩ := Nat.exists_eq_add_of_le' (le_trans (Nat.le_max_left _ _) hn)
    refine List.eq_nil_iff_forall_not_mem.mpr ?_
    intro c hc
    obtain ⟨names, -, -, hdiff⟩ := (mem_diff_iff (comparable_baselines h (m + 1))).mp hc
    obtain ⟨-, hsome, hdist⟩ := (differs_baselines h m names c.kind).mp hdiff
    have hlen := length_le_height h.new_wellFormed hsome
    have hle := distance_le_length old names
    omega
  · intro names hnew hold n
    have hnodup : (diff (baselines old new n) new).changes.Nodup := (nodup_diff (comparable_baselines h n)).of_map _
    rw [hnodup.count, if_congr (mem_added_iff h hnew hold n) rfl rfl]
  · intro n hn c hc
    obtain ⟨m, rfl⟩ := Nat.exists_eq_add_of_le' hn
    obtain ⟨names, -, -, hdiff⟩ := (mem_diff_iff (comparable_baselines h (m + 1))).mp hc
    exact ((differs_baselines h m names c.kind).mp hdiff).1

/-- A root with one empty directory. -/
def shallow : Snapshot :=
  let root : Path := ⟨.root, ["w"]⟩
  { root, tree := some (.directory root 1 [("a", .directory (root.down ["a"]) 1 [])]) }

/-- The same root with a file two directories below that directory. -/
def deep : Snapshot :=
  let root : Path := ⟨.root, ["w"]⟩
  { root, tree := some (.directory root 2 [("a", .directory (root.down ["a"]) 2
      [("b", .directory (root.down ["a", "b"]) 2 [("c", .file (root.down ["a", "b", "c"]) 2)])])]) }

/-- From the shallow root the file is found by the second comparison, and the third one leaves the deep root. -/
theorem baselines_converge_deep : Comparable (some shallow) deep ∧
    (∃ s, baselines (some shallow) deep 3 = some s ∧ (s.tree == deep.tree) = true) ∧
    (diff (baselines (some shallow) deep 3) deep).changes = [] ∧
    (diff (baselines (some shallow) deep 1) deep).changes.count ⟨.added, deep.root.down ["a", "b", "c"]⟩ = 1 := by
  have h : Comparable (some shallow) deep := ⟨by rintro s ⟨⟩; decide, by decide⟩
  have hheight : max 1 deep.height ≤ 3 := by
    simp [height, paths, entries, deep, Entry.walk, Entry.walkAll, Entry.children, Entry.directory, Entry.file,
      Listing.sorted, Listing.insert, Path.down, Entry.path]
  have hdist : distance (some shallow) ["a", "b", "c"] = 2 := by
    rw [distance, dif_neg (by decide), distance, dif_pos (by decide)]
  refine ⟨h, (baselines_converge h).1 3 hheight, (baselines_converge h).2.1 3 hheight, ?_⟩
  rw [(baselines_converge h).2.2.1 ["a", "b", "c"] ?_ ?_ 1, hdist]
  · rfl
  · exact (down_mem_paths h.new_wellFormed (by decide)).mpr (by decide)
  · rintro s ⟨⟩ hmem
    exact absurd ((down_mem_paths (h.old_wellFormed _ rfl).1 (by decide)).mp hmem) (by decide)

end Snapshot

end DirWatch
