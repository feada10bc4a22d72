import DirWatch.Proofs.Comparison.Order

/-!
# Sorted changes

A comparison needs no sorting: its changes come in the order in which `Change.sort` would put them, and so do the
entries of a walk (`strictly_sorted`). Paths are ordered part by part and not by their texts: `/w/a/b` comes before
`/w/a.b`, whose text comes first.
-/

namespace DirWatch

namespace Change

theorem compare_of_lt {c d : Change} (h : c.path < d.path) : c.compare d = .lt := by
  have hlt : c < d := Or.inl h
  rw [Change.compare, if_pos hlt]

/-- Sorting leaves changes alone whose paths increase. -/
theorem sort_of_pairwise {changes : List Change} (h : changes.Pairwise fun c d => c.path < d.path) : sort changes = changes := by
  refine List.mergeSort_of_pairwise (h.imp fun hlt => ?_)
  rw [compare_of_lt hlt]
  rfl

end Change

namespace Snapshot

/-- The changes that a comparison of two well-formed snapshots of one root reports increase strictly in the parts of
their paths, so that sorting them changes nothing and no path occurs twice. The walk of a well-formed entry increases so
too, and it is made of the descendants of the entry, each once. -/
theorem strictly_sorted :
    (∀ old new, Comparable old new → ((diff old new).changes.map fun c => c.path.parts).Pairwise (· < ·) ∧
      Change.sort (diff old new).changes = (diff old new).changes ∧ ((diff old new).changes.map (·.path)).Nodup) ∧
    ∀ e : Entry, e.WellFormed → (e.walk.map fun d => d.path.parts).Pairwise (· < ·) ∧ (e.walk.map Entry.path).Nodup ∧
      ∀ d, d ∈ e.walk ↔ ∃ names, names ≠ [] ∧ descend? e names = some d := by
  refine ⟨fun old new h => ?_, fun e h => ?_⟩
  · have hordered := ordered_diff h
    exact ⟨List.pairwise_map.mpr hordered, Change.sort_of_pairwise hordered, nodup_diff h⟩
  · have hordered := Entry.ordered_walk h
    exact ⟨List.pairwise_map.mpr hordered, List.pairwise_map.mpr (hordered.imp fun hlt => Path.ne_of_lt hlt),
      fun d => Entry.mem_walk_iff⟩

/-- A directory beside a file whose name goes on with a dot. -/
def dottedTree : Entry :=
  let root : Path := ⟨.root, ["w"]⟩
  .directory root 1 [("z", .file (root.down ["z"]) 1), ("a.b", .file (root.down ["a.b"]) 1),
    ("a", .directory (root.down ["a"]) 1 [("b", .file (root.down ["a", "b"]) 1)])]

def dotted : Snapshot :=
  { root := ⟨.root, ["w"]⟩, tree := some dottedTree }

/-- The directory has become a file, the file beside it has another time, and there is a new directory in place of the
last file. -/
def redotted : Snapshot :=
  let root : Path := ⟨.root, ["w"]⟩
  { root, tree := some (.directory root 2 [("n", .directory (root.down ["n"]) 2 []), ("a.b", .file (root.down ["a.b"]) 2),
      ("a", .file (root.down ["a"]) 1)]) }

/-- What is removed below the directory comes before the change of the file beside it, although the text of its path
comes after. -/
theorem strictly_sorted_dotted :
    (Comparable (some dotted) redotted ∧ (diff (some dotted) redotted).changes = [⟨.modified, ⟨.root, ["w", "a"]⟩⟩,
        ⟨.removed, ⟨.root, ["w", "a", "b"]⟩⟩, ⟨.modified, ⟨.root, ["w", "a.b"]⟩⟩,
        ⟨.added, ⟨.root, ["w", "n"]⟩⟩, ⟨.removed, ⟨.root, ["w", "z"]⟩⟩] ∧
      Change.sort (diff (some dotted) redotted).changes = (diff (some dotted) redotted).changes ∧
      toString (⟨.root, ["w", "a.b"]⟩ : Path) < toString (⟨.root, ["w", "a", "b"]⟩ : Path)) ∧
    dottedTree.WellFormed ∧
      dottedTree.walk.map Entry.path =
        [⟨.root, ["w", "a"]⟩, ⟨.root, ["w", "a", "b"]⟩, ⟨.root, ["w", "a.b"]⟩, ⟨.root, ["w", "z"]⟩] ∧
      (dottedTree.walk.map fun d => d.path.parts).Pairwise (· < ·) := by
  have h : Comparable (some dotted) redotted := ⟨by rintro s ⟨⟩; decide, by decide⟩
  have hwf : dottedTree.WellFormed := by decide
  obtain ⟨hchanges, hwalk⟩ := strictly_sorted
  exact ⟨⟨h, by decide +kernel, (hchanges _ _ h).2.1, by decide +kernel⟩, hwf, by decide +kernel, (hwalk _ hwf).1⟩

end Snapshot

end DirWatch
