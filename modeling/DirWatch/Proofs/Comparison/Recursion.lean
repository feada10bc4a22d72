import DirWatch.Comparison
import DirWatch.Proofs.Entry.WellFormed

/-!
# The comparison by recursion

`Comparison.finish` works on a stack of frames. `run_eq` says what it computes: the changes of each name, one name after
another, and the children that each name leaves, where a directory on both sides is compared by `run` again. `sides` puts
the names of both entries in increasing order (`ordered_sides`) and says of each name how it stands (`get?_sides`).
-/

namespace DirWatch

namespace Comparison

/-! ## The changes and the entry of one name -/

/-- The changes of one name. -/
def Side.changes : Side → List Change
  | .before old => removals old
  | .after new => [⟨.added, new.path⟩]
  | .both old new =>
    if old.kind ≠ new.kind then ⟨.modified, new.path⟩ :: old.walk.map fun d => ⟨.removed, d.path⟩
    else if new.isDirectory then (run (some old) new).1
    else if old.mtime ≠ new.mtime then [⟨.modified, new.path⟩]
    else []

/-- What is kept under one name. -/
def Side.kept? : Side → Option Entry
  | .before _ => none
  | .after new => some new.withoutChildren
  | .both old new =>
    if old.kind ≠ new.kind then some new.withoutChildren
    else if new.isDirectory then some (run (some old) new).2
    else some new

/-- What is kept under the names of a listing. -/
def keptAll (l : Listing Side) : Listing Entry :=
  l.filterMap fun p => p.2.kept?.map fun e => (p.1, e)

/-- The changes of the names of a listing, one name after another. -/
def changesAll (l : Listing Side) : List Change :=
  l.flatMap fun p => p.2.changes

/-- What the first name keeps comes first. -/
theorem keptAll_cons (name : String) (s : Side) (l : Listing Side) :
    keptAll ((name, s) :: l) = (s.kept?.map fun e => (name, e)).toList ++ keptAll l := by
  simp only [keptAll, List.filterMap_cons]
  cases s.kept? <;> rfl

theorem changesAll_cons (name : String) (s : Side) (l : Listing Side) :
    changesAll ((name, s) :: l) = s.changes ++ changesAll l :=
  List.flatMap_cons

/-- The names that wait in the top frame are compared before anything below the frame is touched. -/
theorem finish_waiting (waiting : Listing Side) : ∀ (name : String) (entry : Entry) (kept : Listing Entry)
    (below : List Frame) (found : List Change),
    finish ⟨⟨name, entry, waiting, kept⟩, below, found⟩ =
      finish ⟨⟨name, entry, [], (keptAll waiting).reverse ++ kept⟩, below, (changesAll waiting).reverse ++ found⟩ := by
  -- by the number of entries: comparing a directory pushes a frame that holds fewer
  induction h : weightAll waiting using Nat.strongRecOn generalizing waiting with
  | ind weight ih =>
    subst h
    intro name entry kept below found
    cases waiting with
    | nil => simp [keptAll, changesAll]
    | cons p rest =>
      obtain ⟨n, side⟩ := p
      rw [keptAll_cons, changesAll_cons]
      have hrest : side.weight + weightAll rest = weightAll ((n, side) :: rest) := rfl
      cases side with
      | before old =>
        have hpos := size_pos old
        rw [finish, ih _ (by rw [← hrest, Side.weight]; omega) rest rfl]
        simp [Side.changes, Side.kept?]
      | after new =>
        have hpos := size_pos new
        rw [finish, ih _ (by rw [← hrest, Side.weight]; omega) rest rfl]
        simp [Side.changes, Side.kept?]
      | both old new =>
        have hpos := size_pos new
        have hlt : weightAll rest < weightAll ((n, Side.both old new) :: rest) := by
          rw [← hrest, Side.weight]
          omega
        rw [finish]
        by_cases hkind : old.kind ≠ new.kind
        · rw [if_pos hkind, ih _ hlt rest rfl]
          simp [Side.changes, Side.kept?, hkind]
        · rw [if_neg hkind]
          by_cases hdir : new.isDirectory = true
          · have hsides : weightAll (sides (some old) new) < weightAll ((n, Side.both old new) :: rest) := by
              have := weightAll_sides old new
              rw [← hrest, Side.weight]
              omega
            have hrun : run (some old) new =
                (changesAll (sides (some old) new), new.withChildren (keptAll (sides (some old) new))) := by
              rw [run, ih _ hsides _ rfl, finish]
              simp
            rw [if_pos hdir, ih _ hsides _ rfl, finish, ih _ hlt rest rfl]
            simp [Side.changes, Side.kept?, hkind, hdir, hrun]
          · rw [if_neg hdir]
            by_cases hmtime : old.mtime ≠ new.mtime
            · rw [if_pos hmtime, ih _ hlt rest rfl]
              simp [Side.changes, Side.kept?, hkind, hdir, hmtime]
            · rw [if_neg hmtime, ih _ hlt rest rfl]
              simp [Side.changes, Side.kept?, hkind, hdir, hmtime]

/-- A comparison reports the changes of each name and keeps what each name leaves. -/
theorem run_eq (old : Option Entry) (new : Entry) :
    run old new = (changesAll (sides old new), new.withChildren (keptAll (sides old new))) := by
  rw [run, finish_waiting, finish]
  simp

/-! ## The names of two entries beside each other -/

/-- How a name stands that has these entries. -/
def side? : Option Entry → Option Entry → Option Side
  | none, none => none
  | some old, none => some (.before old)
  | none, some new => some (.after new)
  | some old, some new => some (.both old new)

/-- A name has its side where it has its entry. -/
theorem get?_map (f : Entry → Side) (l : Listing Entry) (name : String) :
    Listing.get? (l.map fun p => (p.1, f p.2)) name = (Listing.get? l name).map f := by
  induction l with
  | nil => rfl
  | cons p rest ih =>
    rw [List.map_cons, Listing.get?_cons, Listing.get?_cons, ih]
    split <;> rfl

/-- Sides stand in the order of the entries. -/
theorem ordered_map (f : Entry → Side) {l : Listing Entry} (h : Listing.Ordered l) :
    Listing.Ordered (l.map fun p => (p.1, f p.2)) :=
  List.pairwise_map.mpr h

/-- Every name beside another listing is a name of one of the two. -/
theorem mem_names_align {old new : Listing Entry} {q : String × Side} (h : q ∈ align old new) :
    q.1 ∈ Listing.names old ∨ q.1 ∈ Listing.names new := by
  fun_induction align old new with
  | case1 new =>
    obtain ⟨p, hp, rfl⟩ := List.mem_map.mp h
    exact Or.inr (List.mem_map_of_mem hp)
  | case2 old =>
    obtain ⟨p, hp, rfl⟩ := List.mem_map.mp h
    exact Or.inl (List.mem_map_of_mem hp)
  | case3 m b old n a new hlt ih =>
    rcases List.mem_cons.mp h with rfl | h
    · exact Or.inl List.mem_cons_self
    · exact (ih h).imp_left (List.mem_cons_of_mem _)
  | case4 m b old n a new h1 hlt ih =>
    rcases List.mem_cons.mp h with rfl | h
    · exact Or.inr List.mem_cons_self
    · exact (ih h).imp_right (List.mem_cons_of_mem _)
  | case5 m b old n a new h1 h2 ih =>
    rcases List.mem_cons.mp h with rfl | h
    · exact Or.inr List.mem_cons_self
    · exact (ih h).imp (List.mem_cons_of_mem _) (List.mem_cons_of_mem _)

/-- Two ordered listings beside each other are in order. -/
theorem ordered_align {old new : Listing Entry} (hold : Listing.Ordered old) (hnew : Listing.Ordered new) :
    Listing.Ordered (align old new) := by
  fun_induction align old new with
  | case1 new => exact ordered_map Side.after hnew
  | case2 old => exact ordered_map Side.before hold
  | case3 m b old n a new hlt ih =>
    refine Listing.ordered_cons.mpr ⟨?_, ih (Listing.ordered_cons.mp hold).2 hnew⟩
    intro q hq
    rcases mem_names_align hq with hq | hq
    · exact Listing.lt_of_mem_names hold le_rfl hq
    · rcases List.mem_cons.mp hq with heq | hq
      · exact heq ▸ hlt
      · exact Listing.lt_of_mem_names hnew (le_of_lt hlt) hq
  | case4 m b old n a new h1 hlt ih =>
    refine Listing.ordered_cons.mpr ⟨?_, ih hold (Listing.ordered_cons.mp hnew).2⟩
    intro q hq
    rcases mem_names_align hq with hq | hq
    · rcases List.mem_cons.mp hq with heq | hq
      · exact heq ▸ hlt
      · exact Listing.lt_of_mem_names hold (le_of_lt hlt) hq
    · exact Listing.lt_of_mem_names hnew le_rfl hq
  | case5 m b old n a new h1 h2 ih =>
    refine Listing.ordered_cons.mpr ⟨?_, ih (Listing.ordered_cons.mp hold).2 (Listing.ordered_cons.mp hnew).2⟩
    intro q hq
    rcases mem_names_align hq with hq | hq
    · exact Listing.lt_of_mem_names hold (not_lt.mp h1) hq
    · exact Listing.lt_of_mem_names hnew le_rfl hq

/-- Aligning two listings puts the two values of each name beside each other. -/
theorem get?_align {old new : Listing Entry} (hold : Listing.Ordered old) (hnew : Listing.Ordered new) (name : String) :
    Listing.get? (align old new) name = side? (Listing.get? old name) (Listing.get? new name) := by
  fun_induction align old new with
  | case1 new =>
    rw [get?_map, Listing.get?_nil]
    cases Listing.get? new name <;> rfl
  | case2 old =>
    rw [get?_map, Listing.get?_nil]
    cases Listing.get? old name <;> rfl
  | case3 m b old n a new hlt ih =>
    rw [Listing.get?_cons, ih (Listing.ordered_cons.mp hold).2 hnew, Listing.get?_cons (m, b) old]
    by_cases h : name = m
    · subst h
      simp [Listing.get?_of_lt_head hnew hlt, side?]
    · simp [h]
  | case4 m b old n a new h1 hlt ih =>
    rw [Listing.get?_cons, ih hold (Listing.ordered_cons.mp hnew).2, Listing.get?_cons (n, a) new]
    by_cases h : name = n
    · subst h
      simp [Listing.get?_of_lt_head hold hlt, side?]
    · simp [h]
  | case5 m b old n a new h1 h2 ih =>
    have hmn : m = n := le_antisymm (not_lt.mp h2) (not_lt.mp h1)
    subst hmn
    rw [Listing.get?_cons, ih (Listing.ordered_cons.mp hold).2 (Listing.ordered_cons.mp hnew).2,
      Listing.get?_cons (m, b) old, Listing.get?_cons (m, a) new]
    by_cases h : name = m <;> simp [h, side?]

/-- The children of two entries stand beside each other in name order. -/
theorem ordered_sides (old : Option Entry) (new : Entry) : Listing.Ordered (sides old new) :=
  ordered_align (Listing.ordered_sorted _) (Listing.ordered_sorted _)

/-- A name stands beside itself, on the sides that have it. -/
theorem get?_sides (old : Option Entry) (new : Entry) (name : String) :
    Listing.get? (sides old new) name = side? (old.bind fun b => b.child? name) (new.child? name) := by
  rw [sides, get?_align (Listing.ordered_sorted _) (Listing.ordered_sorted _), Listing.get?_sorted, Listing.get?_sorted]
  cases old <;> rfl

/-- So the names of two entries are those that either of them has. -/
theorem mem_sides_iff {old : Option Entry} {new : Entry} {name : String} {s : Side} :
    (name, s) ∈ sides old new ↔ side? (old.bind fun b => b.child? name) (new.child? name) = some s := by
  rw [(ordered_sides old new).mem_iff, get?_sides]

end Comparison

end DirWatch
