import DirWatch.Proofs.Comparison.Classification

/-!
# The tree that a comparison keeps

The kept tree has the names of the newer one, cut off below every place that the older tree does not know. `stamp_kept` says
so for the entry at each list of names, and `Kept.wellFormed` that a well-formed tree is kept well-formed. The statements
about `Snapshot.diff` follow: `mem_diff_iff` for its changes and `stamp_baseline` for its baseline.
-/

namespace DirWatch

open Snapshot (descend?)
open Entry (lookup? lookup?_none lookup?_some lookup?_nil lookup?_cons stamp)

namespace Comparison

/-- What is kept of a newer entry beside the older one of its name. -/
def keep : Option Entry → Entry → Entry
  | none, new => new.withoutChildren
  | some old, new =>
    if old.kind ≠ new.kind then new.withoutChildren
    else if new.isDirectory then (run (some old) new).2
    else new

/-- What is kept under a name is made of the newer entry, seen beside the older one. -/
theorem kept?_of_side? {old new : Option Entry} {s : Side} (h : side? old new = some s) :
    s.kept? = new.map (keep old) := by
  cases old with
  | none =>
    cases new with
    | none => cases h
    | some a =>
      cases h
      rfl
  | some b =>
    cases new with
    | none =>
      cases h
      rfl
    | some a =>
      cases h
      rw [Side.kept?, Option.map_some, keep]
      split
      · rfl
      · split <;> rfl

/-! ## One directory -/

/-- The kept names stay in their order. -/
theorem ordered_keptAll {l : Listing Side} (h : Listing.Ordered l) : Listing.Ordered (keptAll l) := by
  refine List.Pairwise.filterMap _ ?_ h
  intro p q hpq p' hp' q' hq'
  obtain ⟨e, -, rfl⟩ := Option.map_eq_some_iff.mp hp'
  obtain ⟨f, -, rfl⟩ := Option.map_eq_some_iff.mp hq'
  exact hpq

/-- What is kept of a listing is kept of its names. -/
theorem mem_keptAll_iff {l : Listing Side} {name : String} {e : Entry} :
    (name, e) ∈ keptAll l ↔ ∃ s, (name, s) ∈ l ∧ s.kept? = some e := by
  rw [keptAll, List.mem_filterMap]
  constructor
  · rintro ⟨⟨other, s⟩, hs, heq⟩
    obtain ⟨f, hf, heq⟩ := Option.map_eq_some_iff.mp heq
    cases heq
    exact ⟨s, hs, hf⟩
  · rintro ⟨s, hs, hkept⟩
    exact ⟨(name, s), hs, by rw [hkept]; rfl⟩

/-- The kept directory has the names of the newer one, and of each what is kept beside the older entry. -/
theorem child?_kept (old : Option Entry) (new : Entry) (name : String) :
    (run old new).2.child? name = (new.child? name).map (keep (old.bind fun e => e.child? name)) := by
  refine Option.ext fun e => ?_
  have hget : (run old new).2.child? name = some e ↔ (name, e) ∈ keptAll (sides old new) := by
    rw [run_eq]
    exact (ordered_keptAll (ordered_sides old new)).mem_iff.symm
  rw [hget, mem_keptAll_iff]
  constructor
  · rintro ⟨s, hs, hkept⟩
    rw [← kept?_of_side? (mem_sides_iff.mp hs)]
    exact hkept
  · intro h
    obtain ⟨a, ha, heq⟩ := Option.map_eq_some_iff.mp h
    -- the newer entry has the name, so the name has a side
    obtain ⟨s, hs⟩ : ∃ s, side? (old.bind fun e => e.child? name) (new.child? name) = some s := by
      rw [ha]
      cases old.bind fun e => e.child? name <;> exact ⟨_, rfl⟩
    exact ⟨s, mem_sides_iff.mpr hs, by rw [kept?_of_side? hs, ha, Option.map_some, heq]⟩

/-- The entry that is kept records of itself what the newer one does. -/
@[simp] theorem stamp_run (old : Option Entry) (new : Entry) : (run old new).2.stamp = new.stamp := by
  rw [run_eq]
  rfl

/-- So does what is kept under a name. -/
@[simp] theorem stamp_keep (old : Option Entry) (new : Entry) : (keep old new).stamp = new.stamp := by
  cases old with
  | none => rfl
  | some old =>
    rw [keep]
    split
    · rfl
    · split
      · exact stamp_run _ _
      · rfl

/-! ## The kept tree -/

/-- What is kept of a directory is cut off where the older tree knows no directory. -/
theorem stamp_kept {old : Option Entry} {new : Entry} (hold : Comparable old new.path) (hnew : new.WellFormed)
    (names : List String) : (descend? (run old new).2 names).map stamp =
      if known old names.dropLast = true then (descend? new names).map stamp else none := by
  induction names generalizing old new with
  | nil => simp [known]
  | cons name rest ih =>
    rw [Entry.descend?_cons, Entry.descend?_cons, child?_kept]
    cases ha : new.child? name with
    | none => simp
    | some a =>
      obtain ⟨-, hapath, hawf⟩ := hnew.child ha
      rw [Option.map_some, Option.bind_some, Option.bind_some]
      by_cases hne : rest = []
      · subst hne
        simp [known]
      · have hcut : descend? a.withoutChildren rest = none := by
          cases rest with
          | nil => exact absurd rfl hne
          | cons m ms => rw [Entry.descend?_cons]; rfl
        cases hb : old.bind fun e => e.child? name with
        | none =>
          rw [keep, hcut, known_cons_of_none hb hne]
          rfl
        | some b =>
          obtain ⟨hbwf, hbpath⟩ := hold.child hb
          rw [keep]
          by_cases hkind : b.kind ≠ a.kind
          · rw [if_pos hkind, hcut]
            -- one of the two is a file, and below a file nothing is known and nothing stands
            by_cases hfile : b.kind = .file
            · rw [known_cons_eq_false hb hbwf hfile hne]
              rfl
            · have hafile : a.kind = .file := by
                by_contra hnot
                exact hkind ((Entry.kind_eq_directory hfile).trans (Entry.kind_eq_directory hnot).symm)
              rw [hawf.descend?_of_file hafile hne]
              simp
          · have hkinds : b.kind = a.kind := not_not.mp hkind
            rw [if_neg hkind]
            by_cases hdir : a.isDirectory = true
            · have hbdir : b.isDirectory = true := by
                rw [Entry.isDirectory_iff, hkinds, ← Entry.isDirectory_iff]
                exact hdir
              rw [if_pos hdir, known_cons hb hbdir hne]
              refine ih ?_ hawf
              rintro e ⟨⟩
              exact ⟨hbwf, by rw [hbpath, hapath]⟩
            · have hfile : a.kind = .file := Entry.kind_eq_file hdir
              rw [if_neg hdir, hawf.descend?_of_file hfile hne]
              simp

/-- A well-formed tree is kept well-formed. -/
theorem Kept.wellFormed (old : Option Entry) {new : Entry} (hnew : new.WellFormed) : (run old new).2.WellFormed := by
  induction new using Entry.childInduction generalizing old with
  | step new ih =>
    have hchildren : (run old new).2.children = keptAll (sides old new) := by
      rw [run_eq]
      rfl
    have hordered : Listing.Ordered (run old new).2.children := by
      rw [hchildren]
      exact ordered_keptAll (ordered_sides old new)
    obtain ⟨hpath, hkind, -⟩ := Entry.stamp_eq_iff.mp (stamp_run old new)
    have hchild : ∀ name c, (name, c) ∈ (run old new).2.children →
        ∃ a, new.child? name = some a ∧ keep (old.bind fun e => e.child? name) a = c := by
      intro name c hc
      have hget : (run old new).2.child? name = some c := hordered.mem_iff.mp hc
      rw [child?_kept] at hget
      exact Option.map_eq_some_iff.mp hget
    refine Entry.wellFormed_iff.mpr ⟨?_, hordered.nodup, ?_⟩
    · intro hfile
      rw [hkind] at hfile
      refine List.eq_nil_iff_forall_not_mem.mpr ?_
      rintro ⟨name, c⟩ hc
      obtain ⟨a, ha, -⟩ := hchild name c hc
      rw [Entry.child?, (Entry.wellFormed_iff.mp hnew).1 hfile] at ha
      simp at ha
    · intro name c hc
      obtain ⟨a, ha, rfl⟩ := hchild name c hc
      obtain ⟨hname, hapath, hawf⟩ := (Entry.wellFormed_iff.mp hnew).2.2 name a (Entry.child?_mem ha)
      refine ⟨hname, ?_, ?_⟩
      · rw [(Entry.stamp_eq_iff.mp (stamp_keep _ a)).1, hapath, hpath]
      · cases old.bind fun e => e.child? name with
        | none => exact Entry.WellFormed.withoutChildren
        | some b =>
          rw [keep]
          split
          · exact Entry.WellFormed.withoutChildren
          · split
            · exact ih name a (Entry.child?_mem ha) (some b) hawf
            · exact hawf

end Comparison

/-! ## Snapshots -/

namespace Snapshot

open Comparison (known Differs Comparable)

/-- Two snapshots that can be compared: both are well-formed and of one root, and the older one may be missing. -/
structure Comparable (old : Option Snapshot) (new : Snapshot) : Prop where
  old_wellFormed : ∀ s ∈ old, s.WellFormed ∧ s.root = new.root
  new_wellFormed : new.WellFormed

variable {old : Option Snapshot} {new : Snapshot}

/-- The trees of comparable snapshots can be compared at the root. -/
theorem Comparable.tree (h : Comparable old new) {tree : Entry} (htree : new.tree = some tree) :
    Comparison.Comparable (old.bind (·.tree)) tree.path ∧ tree.WellFormed ∧ tree.path = new.root := by
  obtain ⟨hpath, hwf⟩ := h.new_wellFormed tree htree
  refine ⟨?_, hwf, hpath⟩
  intro b hb
  obtain ⟨s, hs, hb⟩ := Option.bind_eq_some_iff.mp hb
  obtain ⟨hswf, hroot⟩ := h.old_wellFormed s hs
  obtain ⟨hbpath, hbwf⟩ := hswf b hb
  exact ⟨hbwf, by rw [hbpath, hroot, hpath]⟩

/-- With a root, its tree is compared. -/
theorem diff_of_tree (old : Option Snapshot) {tree : Entry} (htree : new.tree = some tree) :
    diff old new = ⟨(Comparison.run (old.bind (·.tree)) tree).1,
      { new with tree := some (Comparison.run (old.bind (·.tree)) tree).2 }⟩ := by
  rw [diff, htree]

/-- A comparison reports exactly the changes between the two snapshots. -/
theorem mem_diff_iff (h : Comparable old new) {c : Change} : c ∈ (diff old new).changes ↔
    ∃ names, names ≠ [] ∧ c.path = new.root.down names ∧ Differs (old.bind (·.tree)) new.tree names c.kind := by
  cases htree : new.tree with
  | some tree =>
    obtain ⟨hold, hwf, hpath⟩ := h.tree htree
    rw [diff_of_tree old htree, ← hpath]
    exact Comparison.mem_changes_iff hold hwf
  | none =>
    rw [diff, htree]
    cases hbefore : old.bind (·.tree) with
    | none =>
      have hnot : ¬∃ names, names ≠ [] ∧ c.path = new.root.down names ∧ Differs none none names c.kind := by
        rintro ⟨names, -, -, hdiff⟩
        cases hk : c.kind <;> simp [hk, Differs] at hdiff
      simpa using hnot
    | some b =>
      obtain ⟨s, hs, hb⟩ := Option.bind_eq_some_iff.mp hbefore
      obtain ⟨hswf, hroot⟩ := h.old_wellFormed s hs
      obtain ⟨hbpath, hbwf⟩ := hswf b hb
      have hwalk := @Entry.WellFormed.mem_walk_paths b hbwf c.path
      obtain ⟨kind, path⟩ := c
      rw [← hroot, ← hbpath]
      constructor
      · intro hc
        obtain ⟨d, hd, heq⟩ := List.mem_map.mp hc
        cases heq
        obtain ⟨names, hne, hpath, hsome⟩ := hwalk.mp (List.mem_map_of_mem hd)
        exact ⟨names, hne, hpath, hsome, rfl⟩
      · rintro ⟨names, hne, hpath, hdiff⟩
        cases kind with
        | added => simp [Differs] at hdiff
        | modified => simp [Differs] at hdiff
        | removed =>
          obtain ⟨d, hd, hdp⟩ := List.mem_map.mp (hwalk.mpr ⟨names, hne, hpath, hdiff.1⟩)
          exact List.mem_map.mpr ⟨d, hd, by rw [hdp]⟩

/-- A baseline is one of the same root. -/
@[simp] theorem root_baseline (old : Option Snapshot) (new : Snapshot) : (diff old new).baseline.root = new.root := by
  unfold diff
  cases new.tree <;> rfl

/-- The next baseline has the entries of the newer snapshot, up to what is new in what is new. -/
theorem stamp_baseline (h : Comparable old new) (names : List String) :
    ((diff old new).baseline.at? names).map stamp =
      if known (old.bind (·.tree)) names.dropLast = true then (new.at? names).map stamp else none := by
  cases htree : new.tree with
  | none => simp [diff, at?, htree]
  | some tree =>
    obtain ⟨hold, hwf, -⟩ := h.tree htree
    rw [diff_of_tree old htree, at?, at?, htree]
    exact Comparison.stamp_kept hold hwf names

/-- The next baseline has a path if the newer snapshot has it and the older one knows its directory. -/
theorem isSome_baseline {old : Option Snapshot} {new : Snapshot} (h : Comparable old new) (names : List String) :
    ((diff old new).baseline.at? names).isSome ↔
      known (old.bind (·.tree)) names.dropLast = true ∧ (new.at? names).isSome := by
  have hstamp := congrArg Option.isSome (stamp_baseline h names)
  rw [Option.isSome_map] at hstamp
  rw [hstamp]
  split <;> simp_all

/-- What stands in a well-formed snapshot stands in a directory that is known. -/
theorem WellFormed.known_dropLast {s : Snapshot} (h : s.WellFormed) {names : List String} (hne : names ≠ [])
    (hsome : (s.at? names).isSome) : known s.tree names.dropLast = true := by
  obtain ⟨d, hd⟩ := Option.isSome_iff_exists.mp hsome
  obtain ⟨tree, htree, hd⟩ := Option.bind_eq_some_iff.mp hd
  obtain ⟨a, ha, hdir⟩ := (h tree htree).2.parent hne hd
  rw [known, htree, Entry.lookup?_some, ha]
  simp [hdir]

/-- The next baseline is well-formed. -/
theorem WellFormed.baseline (h : new.WellFormed) (old : Option Snapshot) : (diff old new).baseline.WellFormed := by
  cases htree : new.tree with
  | none =>
    rw [diff, htree]
    exact h
  | some tree =>
    obtain ⟨hpath, hwf⟩ := h tree htree
    rw [diff_of_tree old htree]
    rintro kept ⟨⟩
    refine ⟨?_, Comparison.Kept.wellFormed _ hwf⟩
    rw [(Entry.stamp_eq_iff.mp (Comparison.stamp_run _ tree)).1, hpath]

end Snapshot

end DirWatch
