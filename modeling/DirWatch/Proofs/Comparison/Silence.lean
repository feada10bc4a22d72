import DirWatch.Proofs.Comparison.Kept

/-!
# Silent comparisons

A comparison reports nothing exactly when the two trees match below their roots (`Matches`), whatever paths their entries
carry and whether or not a file has children. Then it keeps the newer snapshot as it is (`Same`), so nothing that changed is
lost without a report (`silent_iff_matches`).
-/

namespace DirWatch

open Snapshot (descend?)
open Entry (stamp)

namespace Comparison

/-- What stands below a root: nothing, when there is no root. -/
def childrenOf (tree : Option Entry) : Listing Entry :=
  (tree.map Entry.children).getD []

/-- What stands below a root are its children. -/
theorem get?_childrenOf (tree : Option Entry) (name : String) :
    Listing.get? (childrenOf tree) name = tree.bind fun e => e.child? name := by
  cases tree <;> rfl

/-- Two listings match: they have the same names, and at each name two entries of one kind, of one time if they are
files, and with matching children if they are directories. -/
inductive Matches : Listing Entry → Listing Entry → Prop where
  | intro {old new : Listing Entry}
      (names : ∀ name, name ∈ Listing.names old ↔ name ∈ Listing.names new)
      (kinds : ∀ name b a, Listing.get? old name = some b → Listing.get? new name = some a → b.kind = a.kind)
      (times : ∀ name b a, Listing.get? old name = some b → Listing.get? new name = some a →
        b.kind = .file → a.kind = .file → b.mtime = a.mtime)
      (below : ∀ name b a, Listing.get? old name = some b → Listing.get? new name = some a →
        b.kind = .directory → a.kind = .directory → Matches b.children a.children) :
      Matches old new

section Matches

variable {old new : Listing Entry} {name : String} {b a : Entry}

/-- Listings that match have the same names. -/
theorem Matches.names (h : Matches old new) (name : String) : name ∈ Listing.names old ↔ name ∈ Listing.names new := by
  cases h with
  | intro names kinds times below => exact names name

theorem Matches.kind_eq (h : Matches old new) (hb : Listing.get? old name = some b) (ha : Listing.get? new name = some a) :
    b.kind = a.kind := by
  cases h with
  | intro names kinds times below => exact kinds name b a hb ha

/-- Files have the same time. -/
theorem Matches.mtime_eq (h : Matches old new) (hb : Listing.get? old name = some b) (ha : Listing.get? new name = some a)
    (hfile : a.kind = .file) : b.mtime = a.mtime := by
  have hkind := h.kind_eq hb ha
  cases h with
  | intro names kinds times below => exact times name b a hb ha (hkind.trans hfile) hfile

/-- Directories match below. -/
theorem Matches.children (h : Matches old new) (hb : Listing.get? old name = some b) (ha : Listing.get? new name = some a)
    (hdir : a.kind = .directory) : Matches b.children a.children := by
  have hkind := h.kind_eq hb ha
  cases h with
  | intro names kinds times below => exact below name b a hb ha (hkind.trans hdir) hdir

/-- A name is missing on both sides or on neither. -/
theorem Matches.get?_eq_none (h : Matches old new) (name : String) :
    Listing.get? old name = none ↔ Listing.get? new name = none := by
  rw [Listing.get?_eq_none, Listing.get?_eq_none, h.names name]

theorem Matches.refl (l : Listing Entry) : Matches l l := by
  induction h : Entry.sizeAll l using Nat.strongRecOn generalizing l with
  | ind size ih =>
    subst h
    refine .intro (fun name => Iff.rfl) ?_ ?_ ?_
    · rintro name b a hb ha
      rw [Option.some.inj (hb.symm.trans ha)]
    · rintro name b a hb ha - -
      rw [Option.some.inj (hb.symm.trans ha)]
    · rintro name b a hb ha - -
      cases Option.some.inj (hb.symm.trans ha)
      have hsize := Entry.size_le_sizeAll (Listing.mem_of_get? hb)
      rw [b.size_eq] at hsize
      exact ih _ (by omega) _ rfl

end Matches

/-! ## The changes of one name -/

/-- A name that is gone is reported. -/
theorem changes_before_ne_nil (b : Entry) : (Side.before b).changes ≠ [] :=
  List.cons_ne_nil _ _

/-- A name that is new is reported. -/
theorem changes_after_ne_nil (a : Entry) : (Side.after a).changes ≠ [] :=
  List.cons_ne_nil _ _

/-- A name on both sides is silent if the kinds agree, and the times of files or what is below directories. -/
theorem changes_both_eq_nil_iff {b a : Entry} : (Side.both b a).changes = [] ↔
    b.kind = a.kind ∧ (a.kind = .file → b.mtime = a.mtime) ∧ (a.kind = .directory → (run (some b) a).1 = []) := by
  rw [Side.changes]
  by_cases hkind : b.kind = a.kind
  · rw [if_neg (not_not.mpr hkind)]
    cases ha : a.kind with
    | file => simp [Entry.isDirectory, ha, hkind]
    | directory => simp [Entry.isDirectory, ha, hkind]
  · simp [hkind]

/-- A comparison is silent if each name is. -/
theorem run_eq_nil_iff (old : Option Entry) (new : Entry) : (run old new).1 = [] ↔
    ∀ name s, side? (old.bind fun e => e.child? name) (new.child? name) = some s → s.changes = [] := by
  have hrun : (run old new).1 = changesAll (sides old new) := by rw [run_eq]
  rw [hrun, changesAll, List.flatMap_eq_nil_iff]
  constructor
  · intro h name s hs
    exact h (name, s) (mem_sides_iff.mpr hs)
  · rintro h ⟨name, s⟩ hs
    exact h name s (mem_sides_iff.mp hs)

/-! ## The whole comparison -/

/-- The walk is empty where there are no children. -/
theorem walk_eq_nil_iff {e : Entry} : e.walk = [] ↔ ∀ name, e.child? name = none := by
  simp only [List.eq_nil_iff_forall_not_mem, Entry.mem_walk_iff, Option.eq_none_iff_forall_ne_some]
  constructor
  · intro h name c hc
    exact h c ⟨[name], List.cons_ne_nil _ _, by rw [Entry.descend?_cons, hc]; rfl⟩
  · rintro h d ⟨names, hne, hd⟩
    obtain ⟨name, rest, rfl⟩ := List.exists_cons_of_ne_nil hne
    rw [Entry.descend?_cons] at hd
    obtain ⟨c, hc, -⟩ := Option.bind_eq_some_iff.mp hd
    exact h name c hc

/-- A comparison reports nothing exactly when the children match. -/
theorem run_eq_nil_iff_matches (old : Option Entry) (new : Entry) :
    (run old new).1 = [] ↔ Matches (childrenOf old) new.children := by
  induction new using Entry.childInduction generalizing old with
  | step new ih =>
    rw [run_eq_nil_iff]
    have hbelow : ∀ name b a, Listing.get? new.children name = some a →
        ((run (some b) a).1 = [] ↔ Matches b.children a.children) :=
      fun name b a ha => ih name a (Listing.mem_of_get? ha) (some b)
    constructor
    · intro h
      -- the side of a name that both have, and what its silence says
      have hboth : ∀ name b a, Listing.get? (childrenOf old) name = some b → Listing.get? new.children name = some a →
          b.kind = a.kind ∧ (a.kind = .file → b.mtime = a.mtime) ∧ (a.kind = .directory → (run (some b) a).1 = []) := by
        intro name b a hb ha
        rw [get?_childrenOf] at hb
        exact changes_both_eq_nil_iff.mp (h name (.both b a) (by rw [hb, Entry.child?, ha]; rfl))
      refine .intro ?_ ?_ ?_ ?_
      · intro name
        rw [← not_iff_not, ← Listing.get?_eq_none, ← Listing.get?_eq_none, get?_childrenOf]
        have hside := h name
        rw [Entry.child?] at hside
        cases hb : old.bind fun e => e.child? name with
        | none =>
          cases ha : Listing.get? new.children name with
          | none => exact Iff.rfl
          | some a => exact absurd (hside (.after a) (by rw [hb, ha]; rfl)) (changes_after_ne_nil a)
        | some b =>
          cases ha : Listing.get? new.children name with
          | none => exact absurd (hside (.before b) (by rw [hb, ha]; rfl)) (changes_before_ne_nil b)
          | some a => simp
      · intro name b a hb ha
        exact (hboth name b a hb ha).1
      · intro name b a hb ha _ hfile
        exact (hboth name b a hb ha).2.1 hfile
      · intro name b a hb ha _ hdir
        exact (hbelow name b a ha).mp ((hboth name b a hb ha).2.2 hdir)
    · intro h name s hs
      have hnone := h.get?_eq_none name
      rw [get?_childrenOf] at hnone
      cases hb : old.bind fun e => e.child? name with
      | none =>
        rw [hb, Entry.child?, hnone.mp hb] at hs
        cases hs
      | some b =>
        cases ha : new.child? name with
        | none => simp [hb] at hnone; exact absurd ha hnone
        | some a =>
          rw [hb, ha] at hs
          cases hs
          have hb' : Listing.get? (childrenOf old) name = some b := by rw [get?_childrenOf, hb]
          refine changes_both_eq_nil_iff.mpr ⟨h.kind_eq hb' ha, h.mtime_eq hb' ha, fun hdir => ?_⟩
          exact (hbelow name b a ha).mpr (h.children hb' ha hdir)

/-- Where the children match, the newer tree is kept with all that it holds. -/
theorem stamp_of_matches {old : Option Entry} {new : Entry} (h : Matches (childrenOf old) new.children) (names : List String) :
    (descend? (run old new).2 names).map stamp = (descend? new names).map stamp := by
  induction names generalizing old new with
  | nil => simp
  | cons name rest ih =>
    rw [Entry.descend?_cons, Entry.descend?_cons, child?_kept]
    cases ha : new.child? name with
    | none => rfl
    | some a =>
      obtain ⟨b, hb⟩ : ∃ b, Listing.get? (childrenOf old) name = some b := by
        refine Option.ne_none_iff_exists'.mp fun hnone => ?_
        have := (h.get?_eq_none name).mp hnone
        rw [← Entry.child?, ha] at this
        cases this
      rw [Option.map_some, Option.bind_some, Option.bind_some, ← get?_childrenOf, hb, keep,
        if_neg (not_not.mpr (h.kind_eq hb ha))]
      by_cases hdir : a.isDirectory = true
      · rw [if_pos hdir]
        exact ih (h.children hb ha (Entry.isDirectory_iff.mp hdir))
      · rw [if_neg hdir]

/-- Distinct names are kept distinct. -/
theorem Kept.distinct (old : Option Entry) {new : Entry} (hnew : new.Distinct) : (run old new).2.Distinct := by
  induction new using Entry.childInduction generalizing old with
  | step new ih =>
    have hordered : Listing.Ordered (run old new).2.children := by
      rw [run_eq]
      exact ordered_keptAll (ordered_sides old new)
    refine Entry.distinct_iff.mpr ⟨hordered.nodup, fun name c hc => ?_⟩
    have hget : (run old new).2.child? name = some c := hordered.mem_iff.mp hc
    rw [child?_kept] at hget
    obtain ⟨a, ha, rfl⟩ := Option.map_eq_some_iff.mp hget
    have hcut : a.withoutChildren.Distinct := Entry.WellFormed.withoutChildren.distinct
    cases old.bind fun e => e.child? name with
    | none => exact hcut
    | some b =>
      rw [keep]
      split
      · exact hcut
      · split
        · exact ih name a (Entry.child?_mem ha) (some b) (hnew.child ha)
        · exact hnew.child ha

end Comparison

namespace Snapshot

open Comparison (Matches childrenOf)

/-- Two snapshots are the same: of one root and one time, with the same entry at every list of names, and so equal where
the children of each entry are distinct in name. -/
structure Same (s t : Snapshot) : Prop where
  root : s.root = t.root
  capturedAt : s.capturedAt = t.capturedAt
  stamps : ∀ names, (s.at? names).map stamp = (t.at? names).map stamp
  beq : t.Distinct → (s == t) = true

/-- Snapshots of one root and one time are the same if names lead to the same stamps. -/
theorem Same.of_stamps {s t : Snapshot} (hroot : s.root = t.root) (hcaptured : s.capturedAt = t.capturedAt)
    (hstamps : ∀ names, (s.at? names).map stamp = (t.at? names).map stamp) (hdistinct : t.Distinct → s.Distinct) :
    Same s t where
  root := hroot
  capturedAt := hcaptured
  stamps := hstamps
  beq h := by
    have htree : (s.tree == t.tree) = true := tree_beq (hdistinct h) h hstamps
    change (s.root == t.root && s.tree == t.tree && s.capturedAt == t.capturedAt) = true
    rw [htree, hroot, hcaptured]
    simp

/-- A comparison reports nothing exactly when the trees match below the root. -/
theorem changes_eq_nil_iff (old : Option Snapshot) (new : Snapshot) :
    (diff old new).changes = [] ↔ Matches (childrenOf (old.bind (·.tree))) (childrenOf new.tree) := by
  cases htree : new.tree with
  | some tree =>
    rw [diff_of_tree old htree]
    exact Comparison.run_eq_nil_iff_matches _ tree
  | none =>
    have hchanges : (diff old new).changes = [] ↔ ∀ name, Listing.get? (childrenOf (old.bind (·.tree))) name = none := by
      rw [diff, htree]
      cases old.bind (·.tree) with
      | none => simp [childrenOf]
      | some b => exact List.map_eq_nil_iff.trans Comparison.walk_eq_nil_iff
    rw [hchanges]
    constructor
    · intro h
      refine .intro ?_ ?_ ?_ ?_
      · intro name
        rw [← not_iff_not, ← Listing.get?_eq_none, h name]
        simp [childrenOf, Listing.names]
      all_goals
        intro name b a hb
        rw [h name] at hb
        cases hb
    · intro h name
      exact (h.get?_eq_none name).mpr rfl

/-- A silent comparison keeps the newer snapshot. -/
theorem same_of_changes_eq_nil {old : Option Snapshot} {new : Snapshot} (h : (diff old new).changes = []) :
    Same (diff old new).baseline new := by
  rw [changes_eq_nil_iff] at h
  cases htree : new.tree with
  | none =>
    rw [diff, htree]
    exact Same.of_stamps rfl rfl (fun _ => rfl) id
  | some tree =>
    rw [htree] at h
    rw [diff_of_tree old htree]
    refine Same.of_stamps rfl rfl (fun names => ?_) fun hdistinct => ?_
    · rw [at?, at?, htree]
      exact Comparison.stamp_of_matches h names
    · rintro kept ⟨⟩
      exact Comparison.Kept.distinct _ (hdistinct tree htree)

/-- A comparison reports nothing exactly when the children of both roots match, where a missing root has none, and then
the next baseline is the newer snapshot. So a snapshot compared with itself reports nothing and is kept. -/
theorem silent_iff_matches :
    (∀ old new, ((diff old new).changes = [] ↔ Matches (childrenOf (old.bind (·.tree))) (childrenOf new.tree)) ∧
      ((diff old new).changes = [] → Same (diff old new).baseline new)) ∧
    ∀ s, (diff (some s) s).changes = [] ∧ Same (diff (some s) s).baseline s := by
  have hself : ∀ s, (diff (some s) s).changes = [] := fun s => (changes_eq_nil_iff (some s) s).mpr (Matches.refl _)
  exact ⟨fun old new => ⟨changes_eq_nil_iff old new, same_of_changes_eq_nil⟩,
    fun s => ⟨hself s, same_of_changes_eq_nil (hself s)⟩⟩

/-- A root with a file that has a child, and a directory whose path is not below the root. -/
def oddTree : Entry :=
  .directory ⟨.root, ["w"]⟩ 1 [("f", .mk ⟨.root, ["w", "f"]⟩ .file 1 [("x", .file ⟨.root, ["w", "f", "x"]⟩ 1)]),
    ("d", .directory ⟨.relative, ["elsewhere"]⟩ 1 [("y", .file ⟨.root, []⟩ 1)])]

def odd : Snapshot :=
  { root := ⟨.root, ["w"]⟩, tree := some oddTree, capturedAt := 1 }

/-- The same later: the root has become a file, the directory has another time and another path, and there is another
file below the file. -/
def odder : Snapshot :=
  { root := ⟨.root, ["w"]⟩, capturedAt := 2
    tree := some (.mk ⟨.root, ["w"]⟩ .file 2 [("d", .directory ⟨.root, ["d"]⟩ 2 [("y", .file ⟨.root, ["z"]⟩ 1)]),
      ("f", .mk ⟨.root, ["w", "f"]⟩ .file 1 [("z", .file ⟨.root, []⟩ 2)])]) }

/-- Nothing is reported, and all that is new is kept. -/
theorem silent_iff_matches_odd :
    (diff (some odd) odder).changes = [] ∧ Matches oddTree.children (childrenOf odder.tree) ∧
      ((diff (some odd) odder).baseline == odder) = true ∧ ((diff (some odd) odd).baseline == odd) = true := by
  have hsilent : (diff (some odd) odder).changes = [] := by decide +kernel
  obtain ⟨hdiff, hself⟩ := silent_iff_matches
  exact ⟨hsilent, (hdiff (some odd) odder).1.mp hsilent, ((hdiff (some odd) odder).2 hsilent).beq (by decide),
    (hself odd).2.beq (by decide)⟩

end Snapshot

end DirWatch
