import DirWatch.Proofs.Capture.Changing
import DirWatch.Proofs.Comparison.Order

/-!
# Looking up and listing

A snapshot is looked up by the names that lead from its root to a path, and listed by a walk over the paths that its
entries carry. In a well-formed snapshot the two agree (`WellFormed.agrees`), for every root and every path: names lead
to one entry, and different names lead to entries of different paths. The snapshots that captures and comparisons give
are well-formed (`Arises.wellFormed`).
-/

namespace DirWatch

namespace Snapshot

open Capture (System told)

variable {s : Snapshot} {p : Path} {e : Entry} {names : List String}

/-! ## The entries of a snapshot -/

/-- The entries of a snapshot are what some names lead down to. -/
theorem mem_entries_iff : e ∈ s.entries ↔ ∃ names, names ≠ [] ∧ s.at? names = some e := by
  unfold entries at?
  cases s.tree with
  | none => simp
  | some tree => exact Entry.mem_walk_iff

/-- Without names the root is found. -/
theorem at?_nil (s : Snapshot) : s.at? [] = s.tree :=
  Entry.lookup?_nil s.tree

/-- An entry carries the path that its names spell. -/
theorem WellFormed.path_eq_down (h : s.WellFormed) (hat : s.at? names = some e) : e.path = s.root.down names := by
  obtain ⟨tree, htree, hdescend⟩ := Option.bind_eq_some_iff.mp hat
  obtain ⟨hpath, hwf⟩ := h tree htree
  rw [(hwf.descend hdescend).2, hpath]

/-- What is listed is found under the path that it carries. -/
theorem WellFormed.get?_path (h : s.WellFormed) (he : e ∈ s.entries) : s.get? e.path = some e := by
  obtain ⟨names, -, hat⟩ := mem_entries_iff.mp he
  rw [h.path_eq_down hat, get?_down, hat]

/-- What is found under a path is the root, or it is listed with this path. -/
theorem WellFormed.get?_eq_some_iff (h : s.WellFormed) :
    s.get? p = some e ↔ p = s.root ∧ s.tree = some e ∨ e ∈ s.entries ∧ e.path = p := by
  constructor
  · intro hget
    obtain ⟨names, rfl, hat⟩ := eq_down_of_get? hget
    rcases eq_or_ne names [] with rfl | hne
    · rw [at?_nil] at hat
      exact Or.inl ⟨Path.down_nil s.root, hat⟩
    · exact Or.inr ⟨mem_entries_iff.mpr ⟨names, hne, hat⟩, h.path_eq_down hat⟩
  · rintro (⟨rfl, htree⟩ | ⟨he, rfl⟩)
    · have hroot := get?_down s []
      rwa [Path.down_nil, at?_nil, htree] at hroot
    · exact h.get?_path he

/-- A snapshot contains its root, if there is one, and the paths of what it lists. -/
theorem WellFormed.contains_iff (h : s.WellFormed) :
    s.contains p = true ↔ p = s.root ∧ s.isPresent = true ∨ p ∈ s.entries.map Entry.path := by
  rw [contains, Option.isSome_iff_exists, isPresent, Option.isSome_iff_exists, List.mem_map, ← exists_and_left, ← exists_or]
  exact exists_congr fun e => h.get?_eq_some_iff

/-- No two entries carry the same path. -/
theorem WellFormed.nodup_entries (h : s.WellFormed) : (s.entries.map Entry.path).Nodup := by
  unfold entries
  cases htree : s.tree with
  | none => exact List.nodup_nil
  | some tree =>
    have hordered := Entry.ordered_walk (h tree htree).2
    exact List.pairwise_map.mpr (hordered.imp fun hlt => Path.ne_of_lt hlt)

/-- A snapshot has as many entries as paths. -/
theorem WellFormed.size_eq_card (h : s.WellFormed) : s.size = s.paths.card := by
  rw [paths, List.toFinset_card_of_nodup h.nodup_entries, List.length_map, size]

/-- Looking up paths and listing entries tell the same of a snapshot. -/
structure Agrees (s : Snapshot) : Prop where
  /-- Under a path there is the root, or else the entry that is listed with this path. -/
  get : ∀ p e, s.get? p = some e ↔ p = s.root ∧ s.tree = some e ∨ e ∈ s.entries ∧ e.path = p
  contains : ∀ p, s.contains p = true ↔ p = s.root ∧ s.isPresent = true ∨ p ∈ s.entries.map Entry.path
  /-- Every entry that is listed is found under its path. -/
  listed : ∀ e ∈ s.entries, s.get? e.path = some e
  /-- As many entries are listed as there are paths below the root. -/
  size : s.size = s.paths.card

/-- In a well-formed snapshot all ways to look up a path agree. -/
theorem WellFormed.agrees (h : s.WellFormed) : Agrees s where
  get _ _ := h.get?_eq_some_iff
  contains _ := h.contains_iff
  listed _ he := h.get?_path he
  size := h.size_eq_card

/-! ## The snapshots there are -/

/-- The snapshots that come about: those that a capture ends with, whatever happens to the tree meanwhile, and the
baselines that their comparison gives. -/
inductive Arises : Snapshot → Prop
  | captured {os : System} (hos : os.Genuine) {root : Path} {patterns : List String} {capturedAt : Int} {n : Nat}
      {snapshot : Snapshot} (hstop : (told os { root, patterns, capturedAt } n).next = .stop (.ok snapshot)) :
      Arises snapshot
  | baseline {old : Option Snapshot} {new : Snapshot} (hold : ∀ s ∈ old, Arises s) (hnew : Arises new) :
      Arises (diff old new).baseline

/-- Whatever a capture or a comparison leaves is well-formed. -/
theorem Arises.wellFormed (h : Arises s) : s.WellFormed := by
  induction h with
  | @captured os hos root patterns capturedAt n snapshot hstop =>
    have hsound := Capture.sound_told hos (Capture.sound_start root patterns capturedAt) n
    exact (hsound.1.stop hstop).1
  | @baseline old new _ _ _ ih => exact ih.baseline old

/-- In every well-formed snapshot, and so in those that captures and comparisons give, looking up a path and listing the
entries tell the same: a path has an entry if it is the root's or that of an entry in the list, the entry that carries
it, and no two in the list carry the same. -/
theorem lookup_agrees : (∀ s, Arises s → s.WellFormed) ∧ ∀ s, s.WellFormed → Agrees s :=
  ⟨fun _ h => h.wellFormed, fun _ h => h.agrees⟩

/-- What a capture of the root of two slashes shows while the tree changes. -/
def shifted : Snapshot :=
  let root : Path := ⟨.doubled, []⟩
  { root, capturedAt := 9
    tree := some (.directory root 1 [("a", .directory (root.down ["a"]) 2 [("x", .file (root.down ["a", "x"]) 4)]),
      ("c", .directory (root.down ["c"]) 3 [])]) }

/-- Its entries are found under their paths and nothing else is, neither up from a directory again nor below the other
root. Its baseline lists one entry less. -/
theorem lookup_agrees_shifted : Arises shifted ∧ Arises (diff none shifted).baseline ∧
    (∀ e ∈ shifted.entries, shifted.get? e.path = some e) ∧ shifted.size = 3 ∧ shifted.paths.card = 3 ∧
    shifted.get? ⟨.doubled, ["a", "x"]⟩ = some (.file ⟨.doubled, ["a", "x"]⟩ 4) ∧
    shifted.contains ⟨.doubled, []⟩ = true ∧ shifted.contains ⟨.doubled, ["a", ".."]⟩ = false ∧
    shifted.contains ⟨.root, ["a"]⟩ = false ∧ (diff none shifted).baseline.paths.card = 2 := by
  have hstop : (told Capture.shifting { root := ⟨.doubled, []⟩, patterns := [], capturedAt := 9 } 8).next =
    .stop (.ok shifted) := rfl
  have harises : Arises shifted := .captured Capture.genuine_shifting hstop
  have hbaseline : Arises (diff none shifted).baseline := .baseline (fun _ hs => nomatch hs) harises
  obtain ⟨hwf, hagrees⟩ := lookup_agrees
  have h := hagrees shifted (hwf shifted harises)
  have hsize : shifted.size = 3 := by decide +kernel
  have hfile : shifted.get? ⟨.doubled, ["a", "x"]⟩ = some (.file ⟨.doubled, ["a", "x"]⟩ 4) :=
    (h.get _ _).mpr (Or.inr ⟨mem_entries_iff.mpr ⟨["a", "x"], List.cons_ne_nil _ _, rfl⟩, rfl⟩)
  have hroot : shifted.contains ⟨.doubled, []⟩ = true := (h.contains _).mpr (Or.inl ⟨rfl, rfl⟩)
  refine ⟨harises, hbaseline, h.listed, hsize, h.size ▸ hsize, hfile, hroot, by decide, by decide, ?_⟩
  rw [← (hagrees _ (hwf _ hbaseline)).size]
  decide +kernel

end Snapshot

end DirWatch
