import DirWatch.Proofs.Comparison.Silence
import Mathlib.Data.Finset.Sort

/-!
# The stack and the recursion

A walk keeps the entries still to visit in a list, and a comparison the directories still to finish in a stack of
frames. Both do what a recursion over the tree does that goes through the names of each directory in increasing order:
`Entry.preorder` and `recurse`. A comparison comes to its end (`State.ends`): with every step, fewer entries are left to
show and frames to return from. So it gives, for all trees, what the recursion gives (`stack_eq_recursion`).
-/

namespace DirWatch

namespace Listing

variable {α : Type u}

/-- A listing in increasing order has its names as sorting puts them. -/
theorem Ordered.sort_names {l : Listing α} (h : Ordered l) {names : Finset String}
    (hnames : ∀ name, name ∈ names ↔ name ∈ Listing.names l) : names.sort = Listing.names l := by
  have heq : names = (Listing.names l).toFinset := Finset.ext fun name => by rw [hnames, List.mem_toFinset]
  rw [heq, List.toFinset_sort _ h.nodup]
  exact List.pairwise_map.mpr (h.imp le_of_lt)

/-- A name is one of a listing if it has a value there. -/
theorem mem_names_iff_isSome {l : Listing α} {name : String} : name ∈ names l ↔ (get? l name).isSome = true := by
  rw [← Option.not_isNone, Bool.not_eq_true', ← Bool.not_eq_true, Option.isNone_iff_eq_none, get?_eq_none, not_not]

end Listing

/-! ## Walking -/

namespace Entry

/-- The names of the children, each once and in increasing order. -/
def childNames (e : Entry) : List String :=
  (Listing.names e.children).toFinset.sort

/-- Every descendant, by recursion: the children in the order of their names, each followed by its own descendants. -/
def preorder (e : Entry) : List Entry :=
  e.childNames.flatMap fun name =>
    match _h : e.child? name with
    | none => []
    | some c => c :: c.preorder
termination_by e.size
decreasing_by exact size_lt_of_mem (child?_mem _h)

/-- The children are visited in the order of a sorted listing. -/
theorem childNames_eq (e : Entry) : e.childNames = Listing.names (Listing.sorted e.children) := by
  refine (Listing.ordered_sorted e.children).sort_names fun name => ?_
  rw [List.mem_toFinset, Listing.mem_names_iff_isSome, Listing.mem_names_iff_isSome, Listing.get?_sorted]

/-- The walk is the recursion. -/
theorem walk_eq_preorder (e : Entry) : e.walk = e.preorder := by
  induction e using childInduction with
  | step e ih =>
    rw [walk_eq, preorder, childNames_eq, Listing.names, List.flatMap_map]
    refine List.flatMap_congr fun p hp => ?_
    have hchild : e.child? p.1 = some p.2 := Listing.mem_sorted_iff.mp hp
    rw [ih p.1 p.2 (child?_mem hchild)]
    split
    · rename_i hnone
      rw [hchild] at hnone
      cases hnone
    · rename_i c hc
      rw [hchild] at hc
      cases hc
      rfl

end Entry

namespace Comparison

/-! ## Comparing -/

/-- The removal of an entry alone. -/
def removal (e : Entry) : Change :=
  ⟨.removed, e.path⟩

/-- The names of the children on either side, each once and in increasing order. -/
def unionNames (old : Option Entry) (new : Entry) : List String :=
  ((Listing.names (childrenOf old)).toFinset ∪ (Listing.names new.children).toFinset).sort

/-- What the names of a directory add up to: the changes one after another, and the entry with the children that are kept. -/
def combine (new : Entry) (parts : List (List Change × Listing Entry)) : List Change × Entry :=
  (parts.flatMap (·.1), new.withChildren (parts.flatMap (·.2)))

/-- The changes below two entries of one path, and the newer entry as it is kept, by recursion over the names of both. -/
def recurse (old : Option Entry) (new : Entry) : List Change × Entry :=
  combine new <| (unionNames old new).map fun name =>
    match old.bind fun b => b.child? name, _h : new.child? name with
    | none, none => ([], [])
    | some b, none => ((b :: b.preorder).map removal, [])
    | none, some a => ([⟨.added, a.path⟩], [(name, a.withoutChildren)])
    | some b, some a =>
      if b.kind ≠ a.kind then (⟨.modified, a.path⟩ :: b.preorder.map removal, [(name, a.withoutChildren)])
      else if a.isDirectory then ((recurse (some b) a).1, [(name, (recurse (some b) a).2)])
      else (if b.mtime ≠ a.mtime then [⟨.modified, a.path⟩] else [], [(name, a)])
termination_by new.size
decreasing_by all_goals exact Entry.size_lt_of_mem (Entry.child?_mem _h)

/-- The names on either side are those that stand beside each other. -/
theorem unionNames_eq (old : Option Entry) (new : Entry) : unionNames old new = Listing.names (sides old new) := by
  refine (ordered_sides old new).sort_names fun name => ?_
  rw [Finset.mem_union, List.mem_toFinset, List.mem_toFinset, Listing.mem_names_iff_isSome, Listing.mem_names_iff_isSome,
    Listing.mem_names_iff_isSome, get?_sides, get?_childrenOf, ← Entry.child?]
  cases old.bind fun b => b.child? name <;> cases new.child? name <;> simp [side?]

/-- A comparison adds up what the names come to. -/
theorem run_eq_combine (old : Option Entry) (new : Entry) : run old new =
    combine new ((sides old new).map fun p => (p.2.changes, (p.2.kept?.map fun e => (p.1, e)).toList)) := by
  rw [run_eq, keptAll, List.filterMap_eq_flatMap_toList, combine, List.flatMap_map, List.flatMap_map]
  rfl

/-- The comparison is the recursion. -/
theorem run_eq_recurse (old : Option Entry) (new : Entry) : run old new = recurse old new := by
  induction new using Entry.childInduction generalizing old with
  | step new ih =>
    rw [run_eq_combine, recurse, unionNames_eq, Listing.names, List.map_map]
    refine congrArg (combine new) (List.map_congr_left fun p hp => ?_)
    obtain ⟨name, s⟩ := p
    have hside := mem_sides_iff.mp hp
    rw [Function.comp]
    dsimp only
    split
    · rename_i hb ha
      rw [hb, ha] at hside
      cases hside
    · rename_i b hb ha
      rw [hb, ha] at hside
      cases hside
      rw [Side.changes, removals, Entry.walk_eq_preorder]
      rfl
    · rename_i a hb ha
      rw [hb, ha] at hside
      cases hside
      rfl
    · rename_i b a hb ha
      rw [hb, ha] at hside
      cases hside
      rw [Side.changes, Side.kept?, ← ih name a (Entry.child?_mem ha), Entry.walk_eq_preorder]
      by_cases hkind : b.kind ≠ a.kind
      · rw [if_pos hkind, if_pos hkind, if_pos hkind]
        rfl
      · rw [if_neg hkind, if_neg hkind, if_neg hkind]
        split <;> rfl

/-! ## Coming to the end -/

/-- One step of a comparison: the next name of the directory in work, or the return to the directory around it. A
comparison is at its end when no name is left and no directory is around. -/
def State.next? : State → Option State
  | ⟨⟨_, _, [], _⟩, [], _⟩ => none
  | ⟨⟨name, entry, [], kept⟩, f :: below, found⟩ =>
    some ⟨{ f with kept := (name, entry.withChildren kept.reverse) :: f.kept }, below, found⟩
  | ⟨⟨name, entry, (_, .before old) :: waiting, kept⟩, below, found⟩ =>
    some ⟨⟨name, entry, waiting, kept⟩, below, (removals old).reverse ++ found⟩
  | ⟨⟨name, entry, (n, .after new) :: waiting, kept⟩, below, found⟩ =>
    some ⟨⟨name, entry, waiting, (n, new.withoutChildren) :: kept⟩, below, ⟨.added, new.path⟩ :: found⟩
  | ⟨⟨name, entry, (n, .both old new) :: waiting, kept⟩, below, found⟩ =>
    if old.kind ≠ new.kind then
      some ⟨⟨name, entry, waiting, (n, new.withoutChildren) :: kept⟩, below,
        (old.walk.map fun d => ⟨.removed, d.path⟩).reverse ++ ⟨.modified, new.path⟩ :: found⟩
    else if new.isDirectory
      then some ⟨⟨n, new, sides (some old) new, []⟩, ⟨name, entry, waiting, kept⟩ :: below, found⟩
    else if old.mtime ≠ new.mtime
      then some ⟨⟨name, entry, waiting, (n, new) :: kept⟩, below, ⟨.modified, new.path⟩ :: found⟩
    else some ⟨⟨name, entry, waiting, (n, new) :: kept⟩, below, found⟩

/-- What a comparison at its end has found and keeps. -/
def State.outcome (s : State) : List Change × Entry :=
  (s.found.reverse, s.top.entry.withChildren s.top.kept.reverse)

/-- A comparison that has gone on for some steps. -/
def State.after : Nat → State → State
  | 0, s => s
  | n + 1, s =>
    match s.next? with
    | none => s
    | some t => t.after n

/-- A comparison that begins. -/
def State.start (old : Option Entry) (new : Entry) : State :=
  ⟨⟨"", new, sides old new, []⟩, [], []⟩

variable {s t : State}

/-- A step does not change what a comparison comes to. -/
theorem State.finish_next (h : s.next? = some t) : finish s = finish t := by
  unfold State.next? at h
  split at h
  · cases h
  · cases h
    rw [finish]
  · cases h
    rw [finish]
  · cases h
    rw [finish]
  · rw [finish]
    split_ifs at h ⊢ <;> cases h <;> rfl

/-- A step leaves less to do. -/
theorem State.weight_next (h : s.next? = some t) : t.weight < s.weight := by
  unfold State.next? at h
  split at h
  · cases h
  · cases h
    simp only [State.weight, Frame.weight, weightAll, weightBelow]
    omega
  · rename_i old waiting kept below found
    cases h
    have := size_pos old
    simp only [State.weight, Frame.weight, weightAll, Side.weight]
    omega
  · rename_i new waiting kept below found
    cases h
    have := size_pos new
    simp only [State.weight, Frame.weight, weightAll, Side.weight]
    omega
  · rename_i old new waiting kept below found
    -- a directory that is entered has less to show than the two entries that it stands for
    have := weightAll_sides old new
    have := size_pos new
    split_ifs at h <;> cases h <;> simp only [State.weight, Frame.weight, weightAll, Side.weight, weightBelow] <;> omega

/-- At its end a comparison has come to its outcome. -/
theorem State.finish_of_end (h : s.next? = none) : ((finish s).1.reverse, (finish s).2) = s.outcome := by
  unfold State.next? at h
  split at h
  · rw [finish]
    rfl
  · cases h
  · cases h
  · cases h
  · split_ifs at h

/-- A comparison comes to its end, in at most as many steps as there is to do. -/
theorem State.ends (s : State) : ∃ n ≤ s.weight, (s.after n).next? = none ∧
    (s.after n).outcome = ((finish s).1.reverse, (finish s).2) := by
  induction hweight : s.weight using Nat.strongRecOn generalizing s with
  | ind weight ih =>
    subst hweight
    cases hnext : s.next? with
    | none => exact ⟨0, Nat.zero_le _, hnext, (State.finish_of_end hnext).symm⟩
    | some t =>
      have hlt := State.weight_next hnext
      obtain ⟨n, hn, hend, houtcome⟩ := ih t.weight hlt t rfl
      have hafter : s.after (n + 1) = t.after n := by rw [State.after, hnext]
      exact ⟨n + 1, by omega, hafter ▸ hend, by rw [hafter, houtcome, State.finish_next hnext]⟩

/-- There is no more to do than there are entries in the two trees. -/
theorem State.weight_start (old : Option Entry) (new : Entry) :
    (State.start old new).weight ≤ (old.map Entry.size).getD 0 + new.size := by
  have hstart : (State.start old new).weight = 1 + weightAll (sides old new) := rfl
  rw [hstart]
  cases old with
  | some b =>
    have := weightAll_sides b new
    simp only [Option.map_some, Option.getD_some]
    omega
  | none =>
    have hsorted := Entry.sizeAll_sorted new.children
    rw [sides, weightAll_align, new.size_eq]
    simp only [Option.map_none, Option.getD_none, Listing.sorted, Entry.sizeAll]
    omega

/-- For all trees, a comparison with a stack of frames comes to its end, in at most as many steps as the trees have
entries, and finds and keeps what the recursion finds and keeps; and a walk with a list of waiting entries gives the
recursive one. -/
theorem stack_eq_recursion :
    (∀ old new, run old new = recurse old new ∧ ∃ n ≤ (old.map Entry.size).getD 0 + new.size,
      ((State.start old new).after n).next? = none ∧ ((State.start old new).after n).outcome = recurse old new) ∧
    ∀ e : Entry, e.walk = e.preorder := by
  refine ⟨fun old new => ⟨run_eq_recurse old new, ?_⟩, Entry.walk_eq_preorder⟩
  obtain ⟨n, hn, hend, houtcome⟩ := (State.start old new).ends
  refine ⟨n, hn.trans (State.weight_start old new), hend, houtcome.trans ?_⟩
  rw [← run_eq_recurse]
  rfl

end Comparison

end DirWatch
