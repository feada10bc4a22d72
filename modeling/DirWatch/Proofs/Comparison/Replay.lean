import DirWatch.Proofs.Comparison.Order
import Mathlib.Data.Finset.Insert

/-!
# Replaying changes

`Change.replay?` applies changes to a set of paths, one after another, and fails at the first one that is not legal: only an
absent path can be added, and only a present one modified or removed. The changes of a comparison lead from the paths of the
older snapshot to those of the next baseline (`Snapshot.replay_diff`), and between two additions of one path stands its
removal (`Change.removed_between`).
-/

namespace DirWatch

namespace Change

/-- A set of paths after one change, if the change is legal there. -/
def step? (paths : Finset Path) (c : Change) : Option (Finset Path) :=
  match c.kind with
  | .added => if c.path ∈ paths then none else some (insert c.path paths)
  | .modified => if c.path ∈ paths then some paths else none
  | .removed => if c.path ∈ paths then some (paths.erase c.path) else none

/-- A set of paths after some changes, if each is legal where it comes. -/
def replay? (paths : Finset Path) (changes : List Change) : Option (Finset Path) :=
  changes.foldlM step? paths

@[simp] theorem replay?_nil (paths : Finset Path) : replay? paths [] = some paths := rfl

/-- The first change is replayed first. -/
theorem replay?_cons (paths : Finset Path) (c : Change) (changes : List Change) :
    replay? paths (c :: changes) = (step? paths c).bind fun next => replay? next changes := rfl

/-- Changes can be replayed in two parts. -/
theorem replay?_append (paths : Finset Path) (first more : List Change) :
    replay? paths (first ++ more) = (replay? paths first).bind fun next => replay? next more :=
  List.foldlM_append

/-- A change says nothing of other paths. -/
theorem mem_step?_of_ne {paths next : Finset Path} {c : Change} {p : Path} (h : step? paths c = some next)
    (hne : p ≠ c.path) : p ∈ next ↔ p ∈ paths := by
  unfold step? at h
  split at h <;> split at h <;> cases h
  · rw [Finset.mem_insert, or_iff_right hne]
  · exact Iff.rfl
  · rw [Finset.mem_erase, and_iff_right hne]

/-- Only its removal takes a path away. -/
theorem mem_step? {paths next : Finset Path} {c : Change} {p : Path} (h : step? paths c = some next)
    (hp : p ∈ paths) (hc : c ≠ ⟨.removed, p⟩) : p ∈ next := by
  by_cases hne : p = c.path
  · subst hne
    obtain ⟨kind, path⟩ := c
    cases kind with
    | added => simp [step?, hp] at h
    | modified =>
      have hnext : some paths = some next := (if_pos hp).symm.trans h
      cases hnext
      exact hp
    | removed => exact absurd rfl hc
  · exact (mem_step?_of_ne h hne).mpr hp

/-- A path that is not removed stays. -/
theorem mem_of_replay? {paths next : Finset Path} {changes : List Change} {p : Path}
    (h : replay? paths changes = some next) (hp : p ∈ paths) (hc : ⟨.removed, p⟩ ∉ changes) : p ∈ next := by
  induction changes generalizing paths with
  | nil =>
    cases h
    exact hp
  | cons c changes ih =>
    rw [replay?_cons] at h
    obtain ⟨mid, hmid, hrest⟩ := Option.bind_eq_some_iff.mp h
    obtain ⟨hne, hnot⟩ := not_or.mp (fun hm => hc (List.mem_cons.mpr hm))
    exact ih hrest (mem_step? hmid hp (Ne.symm hne)) hnot

/-- Where a replay succeeds, a path that is added twice is removed in between. -/
theorem removed_between {paths next : Finset Path} {before between after : List Change} {p : Path}
    (h : replay? paths (before ++ ⟨.added, p⟩ :: between ++ ⟨.added, p⟩ :: after) = some next) :
    ⟨.removed, p⟩ ∈ between := by
  by_contra hnot
  rw [List.append_assoc, replay?_append] at h
  obtain ⟨s, -, h⟩ := Option.bind_eq_some_iff.mp h
  rw [List.cons_append, replay?_cons] at h
  obtain ⟨t, ht, h⟩ := Option.bind_eq_some_iff.mp h
  rw [replay?_append] at h
  obtain ⟨u, hu, h⟩ := Option.bind_eq_some_iff.mp h
  have hpt : p ∈ t := by
    unfold step? at ht
    split at ht <;> split at ht <;> cases ht
    all_goals first | exact Finset.mem_insert_self _ _ | contradiction
  rw [replay?_cons, step?, if_pos (mem_of_replay? hu hpt hnot)] at h
  cases h

/-! ## Changes of distinct paths -/

/-- A change that is legal in a set of paths. -/
def LegalIn (paths : Finset Path) (c : Change) : Prop :=
  c.kind = .added ↔ c.path ∉ paths

/-- A legal change can be made, and its path is there afterwards unless it was removed. -/
theorem step?_of_legal {paths : Finset Path} {c : Change} (h : c.LegalIn paths) :
    ∃ next, step? paths c = some next ∧ (c.path ∈ next ↔ c.kind ≠ .removed) := by
  obtain ⟨kind, path⟩ := c
  cases kind with
  | added =>
    have hnot : path ∉ paths := h.mp rfl
    exact ⟨insert path paths, if_neg hnot, by simp⟩
  | modified =>
    have hmem : path ∈ paths := by
      by_contra hnot
      cases h.mpr hnot
    exact ⟨paths, if_pos hmem, by simp [hmem]⟩
  | removed =>
    have hmem : path ∈ paths := by
      by_contra hnot
      cases h.mpr hnot
    exact ⟨paths.erase path, if_pos hmem, by simp⟩

/-- Changes of distinct paths, each legal at the start, can be replayed in any order: a path is there at the end if a change
other than its removal says so, or if it was there and no change names it. -/
theorem replay?_of_nodup (paths : Finset Path) {changes : List Change} (hnodup : (changes.map (·.path)).Nodup)
    (hlegal : ∀ c ∈ changes, c.LegalIn paths) : ∃ next, replay? paths changes = some next ∧
      ∀ p, p ∈ next ↔ (∃ c ∈ changes, c.path = p ∧ c.kind ≠ .removed) ∨ p ∈ paths ∧
      p ∉ changes.map (·.path) := by
  induction changes generalizing paths with
  | nil => exact ⟨paths, rfl, by simp⟩
  | cons c changes ih =>
    rw [List.map_cons, List.nodup_cons] at hnodup
    obtain ⟨mid, hmid, hself⟩ := step?_of_legal (hlegal c List.mem_cons_self)
    have hother : ∀ d ∈ changes, d.path ≠ c.path := by
      intro d hd heq
      exact hnodup.1 (heq ▸ List.mem_map_of_mem hd)
    obtain ⟨next, hnext, hmem⟩ := ih mid hnodup.2 (fun d hd => by
      rw [LegalIn, mem_step?_of_ne hmid (hother d hd)]
      exact hlegal d (List.mem_cons_of_mem _ hd))
    refine ⟨next, by rw [replay?_cons, hmid]; exact hnext, ?_⟩
    intro p
    rw [hmem, List.map_cons, List.mem_cons, not_or]
    by_cases hp : p = c.path
    · subst hp
      rw [hself, and_iff_left hnodup.1]
      constructor
      · rintro (⟨d, hd, heq, -⟩ | hkind)
        · exact absurd heq (hother d hd)
        · exact Or.inl ⟨c, List.mem_cons_self, rfl, hkind⟩
      · rintro (⟨d, hd, heq, hkind⟩ | ⟨-, hne, -⟩)
        · rcases List.mem_cons.mp hd with rfl | hd
          · exact Or.inr hkind
          · exact absurd heq (hother d hd)
        · exact absurd rfl hne
    · rw [mem_step?_of_ne hmid hp, and_iff_right hp]
      refine or_congr_left ⟨?_, ?_⟩
      · rintro ⟨d, hd, hrest⟩
        exact ⟨d, List.mem_cons_of_mem _ hd, hrest⟩
      · rintro ⟨d, hd, heq, hkind⟩
        rcases List.mem_cons.mp hd with rfl | hd
        · exact absurd heq.symm hp
        · exact ⟨d, hd, heq, hkind⟩

end Change

/-! ## The changes of a comparison -/

namespace Snapshot

open Change (replay?)
open Comparison (known Differs)

/-- The changes of a comparison lead from the paths of the older snapshot to the paths of the next baseline. -/
theorem replay_diff {old new : Snapshot} (h : Comparable (some old) new) :
    replay? old.paths (diff (some old) new).changes = some (diff (some old) new).baseline.paths := by
  obtain ⟨hold, hroot⟩ := h.old_wellFormed old rfl
  have hpaths : ∀ names, names ≠ [] → (new.root.down names ∈ old.paths ↔ (old.at? names).isSome) := by
    intro names hne
    rw [← hroot]
    exact down_mem_paths hold hne
  obtain ⟨next, hnext, hmem⟩ := Change.replay?_of_nodup old.paths (nodup_diff h) (by
    intro c hc
    obtain ⟨names, hne, hpath, hdiff⟩ := (mem_diff_iff h).mp hc
    rw [Change.LegalIn, hpath, hpaths names hne]
    cases hk : c.kind with
    | added =>
      rw [hk] at hdiff
      have hnone : old.at? names = none := hdiff.1
      simp [hnone]
    | modified =>
      rw [hk] at hdiff
      obtain ⟨b, -, hb, -⟩ := hdiff
      have hsome : old.at? names = some b := hb
      simp [hsome]
    | removed =>
      rw [hk] at hdiff
      have hsome : (old.at? names).isSome := hdiff.1
      simp [hsome])
  rw [hnext, Option.some_inj]
  refine Finset.ext fun p => ?_
  rw [hmem, mem_paths_iff (h.new_wellFormed.baseline _), root_baseline]
  constructor
  · rintro (⟨c, hc, rfl, hkind⟩ | ⟨hp, hnot⟩)
    · -- what is added or modified is kept
      obtain ⟨names, hne, hpath, hdiff⟩ := (mem_diff_iff h).mp hc
      refine ⟨names, hne, hpath, (isSome_baseline h names).mpr ?_⟩
      cases hk : c.kind with
      | added =>
        rw [hk] at hdiff
        exact ⟨hdiff.2.2, hdiff.2.1⟩
      | modified =>
        rw [hk] at hdiff
        obtain ⟨b, a, hb, ha, -⟩ := hdiff
        have hsome : old.at? names = some b := hb
        have hsome' : new.at? names = some a := ha
        exact ⟨hold.known_dropLast hne (by rw [hsome]; rfl), by rw [hsome']; rfl⟩
      | removed => exact absurd hk hkind
    · -- what is not named was there and is there
      obtain ⟨names, hne, hpath, hsome⟩ := (mem_paths_iff hold).mp hp
      rw [hroot] at hpath
      refine ⟨names, hne, hpath, (isSome_baseline h names).mpr ⟨hold.known_dropLast hne hsome, ?_⟩⟩
      by_contra hgone
      refine hnot (List.mem_map.mpr ⟨⟨.removed, p⟩, (mem_diff_iff h).mpr ⟨names, hne, hpath, hsome, ?_⟩, rfl⟩)
      exact Option.not_isSome_iff_eq_none.mp hgone
  · rintro ⟨names, hne, rfl, hsome⟩
    obtain ⟨hknown, hnew⟩ := (isSome_baseline h names).mp hsome
    by_cases holdsome : (old.at? names).isSome
    · by_cases hnamed : new.root.down names ∈ (diff (some old) new).changes.map (·.path)
      · obtain ⟨c, hc, hpath⟩ := List.mem_map.mp hnamed
        refine Or.inl ⟨c, hc, hpath, ?_⟩
        intro hk
        -- a removal would say that the newer snapshot lacks the path
        obtain ⟨other, -, heq, hdiff⟩ := (mem_diff_iff h).mp hc
        rw [hpath, Path.down_inj] at heq
        subst heq
        rw [hk] at hdiff
        have hnone : new.at? names = none := hdiff.2
        simp [hnone] at hnew
      · exact Or.inr ⟨(hpaths names hne).mpr holdsome, hnamed⟩
    · refine Or.inl ⟨⟨.added, new.root.down names⟩, (mem_diff_iff h).mpr ⟨names, hne, rfl, ?_⟩, rfl, by simp⟩
      exact ⟨Option.not_isSome_iff_eq_none.mp holdsome, hnew, hknown⟩

end Snapshot

end DirWatch
