import DirWatch.Proofs.Comparison.Kept

/-!
# The order of changes

A walk of a well-formed tree and the changes of a comparison are in strictly increasing order of paths (`ordered_walk`,
`ordered_diff`): the names are taken in increasing order, and everything that is found under one name stands below it. So a
comparison reports no path twice (`nodup_diff`).
-/

namespace DirWatch

namespace Path

theorem lt_down {p : Path} {names : List String} (hne : names ≠ []) : p < p.down names := by
  cases names with
  | nil => exact absurd rfl hne
  | cons name names =>
    have hlt : p.down [] < p.down (name :: names) := down_lt_down p (List.nil_lt_cons name names)
    rwa [down_nil] at hlt

theorem ne_of_lt {p q : Path} (h : p < q) : p ≠ q := by
  rintro rfl
  exact List.lt_irrefl p.parts h

end Path

/-- What is found under the names of a listing is in order if it is in order under each name and stands below the name. -/
theorem Listing.Ordered.pairwise_flatMap {α β : Type} {l : Listing α} (h : Ordered l) (p : Path) (found : α → List β)
    (path : β → Path) (hbelow : ∀ name a, (name, a) ∈ l → ∀ x ∈ found a, ∃ rest, path x = p.down (name :: rest))
    (heach : ∀ name a, (name, a) ∈ l → (found a).Pairwise fun x y => path x < path y) :
    (l.flatMap fun q => found q.2).Pairwise fun x y => path x < path y := by
  rw [List.pairwise_flatMap]
  refine ⟨fun q hq => heach q.1 q.2 hq, List.Pairwise.imp_of_mem ?_ h⟩
  intro q r hq hr hlt x hx y hy
  obtain ⟨rest, hrest⟩ := hbelow q.1 q.2 hq x hx
  obtain ⟨more, hmore⟩ := hbelow r.1 r.2 hr y hy
  rw [hrest, hmore]
  exact Path.down_lt_down p (List.cons_lt_cons_iff.mpr (Or.inl hlt))

namespace Entry

/-- Everything in a walk stands below the entry. -/
theorem WellFormed.lt_of_mem_walk {e d : Entry} (h : e.WellFormed) (hd : d ∈ e.walk) : e.path < d.path := by
  obtain ⟨names, hne, hpath, -⟩ := h.mem_walk_paths.mp (List.mem_map_of_mem hd)
  rw [hpath]
  exact Path.lt_down hne

/-- A walk goes up in the order of paths. -/
theorem ordered_walk {e : Entry} (h : e.WellFormed) : e.walk.Pairwise fun c d => c.path < d.path := by
  induction e using childInduction with
  | step e ih =>
    rw [walk_eq]
    refine (Listing.ordered_sorted e.children).pairwise_flatMap e.path (fun c => c :: c.walk) path ?_ ?_
    · intro name c hc d hd
      obtain ⟨-, hpath, hwf⟩ := h.child (Listing.mem_sorted_iff.mp hc)
      rcases List.mem_cons.mp hd with rfl | hd
      · exact ⟨[], hpath⟩
      · obtain ⟨names, -, hdpath, -⟩ := hwf.mem_walk_paths.mp (List.mem_map_of_mem hd)
        exact ⟨names, by rw [hdpath, hpath, Path.down_down, List.singleton_append]⟩
    · intro name c hc
      have hget : e.child? name = some c := Listing.mem_sorted_iff.mp hc
      obtain ⟨-, -, hwf⟩ := h.child hget
      exact List.pairwise_cons.mpr ⟨fun d hd => hwf.lt_of_mem_walk hd, ih name c (child?_mem hget) hwf⟩

end Entry

namespace Comparison

theorem ordered_changes {old : Option Entry} {new : Entry} (hold : Comparable old new.path) (hnew : new.WellFormed) :
    (run old new).1.Pairwise fun c d => c.path < d.path := by
  induction new using Entry.childInduction generalizing old with
  | step new ih =>
    rw [run_eq]
    refine (ordered_sides old new).pairwise_flatMap new.path Side.changes Change.path ?_ ?_
    · intro name s hs c hc
      obtain ⟨rest, hpath, -⟩ := (mem_side_changes_iff hold hnew (mem_sides_iff.mp hs)).mp hc
      exact ⟨rest, hpath⟩
    · intro name s hs
      have hside := mem_sides_iff.mp hs
      -- what is removed below an entry comes after the entry itself
      have hremoved : ∀ b : Entry, b.WellFormed → ∀ kind, List.Pairwise (fun c d : Change => c.path < d.path)
          (⟨kind, b.path⟩ :: b.walk.map fun d => ⟨.removed, d.path⟩) := by
        intro b hwf kind
        refine List.pairwise_cons.mpr ⟨?_, List.pairwise_map.mpr (Entry.ordered_walk hwf)⟩
        intro c hc
        obtain ⟨d, hd, rfl⟩ := List.mem_map.mp hc
        exact hwf.lt_of_mem_walk hd
      cases hb : old.bind fun e => e.child? name with
      | none =>
        cases ha : new.child? name with
        | none => simp [hb, ha, side?] at hside
        | some a =>
          rw [hb, ha] at hside
          cases hside
          exact List.pairwise_singleton _ _
      | some b =>
        obtain ⟨hbwf, hbpath⟩ := hold.child hb
        cases ha : new.child? name with
        | none =>
          rw [hb, ha] at hside
          cases hside
          exact hremoved b hbwf .removed
        | some a =>
          rw [hb, ha] at hside
          cases hside
          obtain ⟨-, hapath, hawf⟩ := hnew.child ha
          rw [Side.changes]
          split
          · rw [hapath, ← hbpath]
            exact hremoved b hbwf .modified
          · split
            · refine ih name a (Entry.child?_mem ha) ?_ hawf
              rintro e ⟨⟩
              exact ⟨hbwf, by rw [hbpath, hapath]⟩
            · split
              · exact List.pairwise_singleton _ _
              · exact List.Pairwise.nil

end Comparison

namespace Snapshot

variable {old : Option Snapshot} {new : Snapshot}

/-- A comparison reports its changes in increasing order of paths. -/
theorem ordered_diff (h : Comparable old new) : (diff old new).changes.Pairwise fun c d => c.path < d.path := by
  cases htree : new.tree with
  | some tree =>
    obtain ⟨hold, hwf, -⟩ := h.tree htree
    rw [diff_of_tree old htree]
    exact Comparison.ordered_changes hold hwf
  | none =>
    rw [diff, htree]
    cases hbefore : old.bind (·.tree) with
    | none => exact List.Pairwise.nil
    | some b =>
      obtain ⟨s, hs, hb⟩ := Option.bind_eq_some_iff.mp hbefore
      exact List.pairwise_map.mpr (Entry.ordered_walk ((h.old_wellFormed s hs).1 b hb).2)

/-- A comparison reports no path twice. -/
theorem nodup_diff (h : Comparable old new) : ((diff old new).changes.map (·.path)).Nodup :=
  List.pairwise_map.mpr ((ordered_diff h).imp fun hlt => Path.ne_of_lt hlt)

end Snapshot

end DirWatch
