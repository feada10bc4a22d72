import DirWatch.Proofs.Comparison.Recursion

/-!
# What a comparison reports and keeps

For well-formed trees of one path, `mem_changes_iff` says which changes a comparison reports, and `stamp_kept` what it keeps,
both by the names that lead down from the path. A place counts as known if it is the path itself or a directory of the older
tree. Something new is added where its directory is known, and the newer tree is kept up to there.
-/

namespace DirWatch

open Snapshot (descend?)
open Entry (lookup? lookup?_none lookup?_some lookup?_nil lookup?_cons)

namespace Comparison

/-- Whether names lead to the root or to a directory of a tree. -/
def known (tree : Option Entry) (names : List String) : Bool :=
  names.isEmpty || (lookup? tree names).any Entry.isDirectory

/-- The changes between two trees: what the newer one has, below a directory that is known, and the older one has not; what
only the older one has; and what both have as files and directories, or as files of different times. -/
def Differs (old new : Option Entry) (names : List String) : ChangeKind → Prop
  | .added => lookup? old names = none ∧ (lookup? new names).isSome ∧ known old names.dropLast = true
  | .removed => (lookup? old names).isSome ∧ lookup? new names = none
  | .modified => ∃ b a, lookup? old names = some b ∧ lookup? new names = some a ∧
      (b.kind ≠ a.kind ∨ a.kind = .file ∧ b.mtime ≠ a.mtime)

/-- An older tree that can be compared: it is well-formed and stands at the path. -/
def Comparable (old : Option Entry) (path : Path) : Prop :=
  ∀ b ∈ old, b.WellFormed ∧ b.path = path

theorem Comparable.child {old : Option Entry} {path : Path} (h : Comparable old path) {name : String} {b : Entry}
    (hb : (old.bind fun e => e.child? name) = some b) : b.WellFormed ∧ b.path = path.down [name] := by
  obtain ⟨e, he, hb⟩ := Option.bind_eq_some_iff.mp hb
  obtain ⟨hwf, hpath⟩ := h e he
  obtain ⟨-, hbpath, hbwf⟩ := hwf.child hb
  exact ⟨hbwf, by rw [hbpath, hpath]⟩

/-! ## The changes of one name -/

/-- The removal of an entry reports it and everything below it. -/
theorem mem_removals_iff {e : Entry} (h : e.WellFormed) {c : Change} :
    c ∈ removals e ↔ c.kind = .removed ∧ ∃ names, c.path = e.path.down names ∧ (descend? e names).isSome := by
  have hwalk := @Entry.WellFormed.mem_walk_paths e h c.path
  obtain ⟨kind, path⟩ := c
  rw [removals, List.mem_cons, List.mem_map]
  constructor
  · rintro (heq | ⟨d, hd, heq⟩)
    · cases heq
      exact ⟨rfl, [], by simp, rfl⟩
    · cases heq
      obtain ⟨names, -, hpath, hsome⟩ := hwalk.mp (List.mem_map_of_mem hd)
      exact ⟨rfl, names, hpath, hsome⟩
  · rintro ⟨hkind, names, hpath, hsome⟩
    cases hkind
    by_cases hne : names = []
    · subst hne
      left
      rw [Path.down_nil] at hpath
      rw [← hpath]
    · right
      obtain ⟨d, hd, hdp⟩ := List.mem_map.mp (hwalk.mpr ⟨names, hne, hpath, hsome⟩)
      exact ⟨d, hd, by rw [hdp]⟩

section Sides

variable {old : Option Entry} {new : Entry} {name : String} {c : Change}

/-- Below a directory that both trees have, the same is known from there as from above. -/
theorem known_cons {b : Entry} (hb : (old.bind fun e => e.child? name) = some b) (hdir : b.isDirectory = true)
    {rest : List String} (hne : rest ≠ []) : known old (name :: rest).dropLast = known (some b) rest.dropLast := by
  rw [List.dropLast_cons_of_ne_nil hne, known, known, lookup?_cons, hb]
  cases rest.dropLast with
  | nil => simp [hdir]
  | cons m ms => rfl

/-- Below something that is no directory, nothing is known. -/
theorem known_cons_eq_false {b : Entry} (hb : (old.bind fun e => e.child? name) = some b) (hwf : b.WellFormed)
    (hfile : b.kind = .file) {rest : List String} (hne : rest ≠ []) : known old (name :: rest).dropLast = false := by
  rw [List.dropLast_cons_of_ne_nil hne, known, lookup?_cons, hb, lookup?_some]
  by_cases hlast : rest.dropLast = []
  · simp [hlast, Entry.isDirectory, hfile]
  · simp [hwf.descend?_of_file hfile hlast]

/-- Below a name that the older tree lacks, nothing is known. -/
theorem known_cons_of_none (hb : (old.bind fun e => e.child? name) = none) {rest : List String} (hne : rest ≠ []) :
    known old (name :: rest).dropLast = false := by
  rw [List.dropLast_cons_of_ne_nil hne, known, lookup?_cons, hb, lookup?_none]
  rfl

/-- A name that is gone: it is removed with everything below it. -/
theorem mem_changes_before (hold : Comparable old new.path) {b : Entry}
    (hb : (old.bind fun e => e.child? name) = some b) (ha : new.child? name = none) :
    c ∈ Side.changes (.before b) ↔
      ∃ rest, c.path = new.path.down (name :: rest) ∧ Differs old (some new) (name :: rest) c.kind := by
  obtain ⟨hwf, hpath⟩ := hold.child hb
  have hlookup : ∀ rest, lookup? (some new) (name :: rest) = none := by
    intro rest
    rw [lookup?_cons, Option.bind_some, ha, lookup?_none]
  rw [Side.changes, mem_removals_iff hwf, hpath]
  constructor
  · rintro ⟨hkind, rest, hrest, hsome⟩
    refine ⟨rest, by rw [hrest, Path.down_down]; rfl, ?_⟩
    rw [hkind]
    exact ⟨by rw [lookup?_cons, hb]; exact hsome, hlookup rest⟩
  · rintro ⟨rest, hrest, hdiff⟩
    rw [← List.singleton_append, ← Path.down_down] at hrest
    cases hkind : c.kind with
    | added =>
      rw [hkind] at hdiff
      have := hdiff.2.1
      simp [hlookup] at this
    | modified =>
      rw [hkind] at hdiff
      obtain ⟨_, _, -, hnone, -⟩ := hdiff
      simp [hlookup] at hnone
    | removed =>
      rw [hkind] at hdiff
      refine ⟨rfl, rest, hrest, ?_⟩
      have := hdiff.1
      rwa [lookup?_cons, hb] at this

/-- A name that is new: it alone is added. -/
theorem mem_changes_after (hnew : new.WellFormed) {a : Entry}
    (hb : (old.bind fun e => e.child? name) = none) (ha : new.child? name = some a) :
    c ∈ Side.changes (.after a) ↔
      ∃ rest, c.path = new.path.down (name :: rest) ∧ Differs old (some new) (name :: rest) c.kind := by
  obtain ⟨-, hpath, -⟩ := hnew.child ha
  have hlookup : ∀ rest, lookup? old (name :: rest) = none := by
    intro rest
    rw [lookup?_cons, hb, lookup?_none]
  rw [Side.changes, List.mem_singleton]
  constructor
  · rintro rfl
    refine ⟨[], hpath, hlookup [], ?_, rfl⟩
    simp [Entry.descend?_cons, ha]
  · rintro ⟨rest, hrest, hdiff⟩
    obtain ⟨kind, path⟩ := c
    cases kind with
    | added =>
      obtain ⟨-, -, hknown⟩ := hdiff
      -- below the name nothing is known, so the name itself is meant
      by_cases hne : rest = []
      · rw [hpath, ← hne, ← hrest]
      · rw [known_cons_of_none hb hne] at hknown
        simp at hknown
    | modified =>
      obtain ⟨_, _, hsome, -⟩ := hdiff
      simp [hlookup] at hsome
    | removed =>
      have := hdiff.1
      simp [hlookup] at this

/-- A name on both sides, seen from the two entries of that name. -/
theorem differs_cons {b a : Entry} (hb : (old.bind fun e => e.child? name) = some b) (ha : new.child? name = some a)
    {rest : List String} (hne : rest ≠ []) (hdir : b.isDirectory = true) (kind : ChangeKind) :
    Differs old (some new) (name :: rest) kind ↔ Differs (some b) (some a) rest kind := by
  have hlold : ∀ names, lookup? old (name :: names) = lookup? (some b) names := by
    intro names
    rw [lookup?_cons, hb]
  have hlnew : ∀ names, lookup? (some new) (name :: names) = lookup? (some a) names := by
    intro names
    rw [lookup?_cons, Option.bind_some, ha]
  cases kind with
  | added => rw [Differs, Differs, hlold, hlnew, known_cons hb hdir hne]
  | removed => rw [Differs, Differs, hlold, hlnew]
  | modified => rw [Differs, Differs, hlold, hlnew]

/-- A name on both sides that is a file on one of them: what counts is the name itself and what is removed below it. -/
theorem differs_cons_of_file {b a : Entry} (hb : (old.bind fun e => e.child? name) = some b)
    (ha : new.child? name = some a) (hbwf : b.WellFormed) (hawf : a.WellFormed)
    (hfile : b.kind = .file ∨ a.kind = .file) {rest : List String} (hne : rest ≠ []) (kind : ChangeKind) :
    Differs old (some new) (name :: rest) kind ↔ kind = .removed ∧ (descend? b rest).isSome := by
  have hlold : ∀ names, lookup? old (name :: names) = descend? b names := by
    intro names
    rw [lookup?_cons, hb, lookup?_some]
  have hlnew : ∀ names, lookup? (some new) (name :: names) = descend? a names := by
    intro names
    rw [lookup?_cons, Option.bind_some, ha, lookup?_some]
  cases kind with
  | removed =>
    rw [Differs, hlold, hlnew]
    refine ⟨fun h => ⟨rfl, h.1⟩, fun h => ⟨h.2, ?_⟩⟩
    rcases hfile with hfile | hfile
    · rw [hbwf.descend?_of_file hfile hne] at h
      simp at h
    · exact hawf.descend?_of_file hfile hne
  | added =>
    refine ⟨?_, fun h => by cases h.1⟩
    rintro ⟨-, hsome, hknown⟩
    rcases hfile with hfile | hfile
    · rw [known_cons_eq_false hb hbwf hfile hne] at hknown
      simp at hknown
    · rw [hlnew, hawf.descend?_of_file hfile hne] at hsome
      simp at hsome
  | modified =>
    refine ⟨?_, fun h => by cases h.1⟩
    rintro ⟨_, _, h1, h2, -⟩
    rw [hlold] at h1
    rw [hlnew] at h2
    rcases hfile with hfile | hfile
    · rw [hbwf.descend?_of_file hfile hne] at h1
      simp at h1
    · rw [hawf.descend?_of_file hfile hne] at h2
      simp at h2

/-- The name itself, when it stands on both sides. -/
theorem differs_self {b a : Entry} (hb : (old.bind fun e => e.child? name) = some b) (ha : new.child? name = some a)
    (kind : ChangeKind) : Differs old (some new) [name] kind ↔
      kind = .modified ∧ (b.kind ≠ a.kind ∨ a.kind = .file ∧ b.mtime ≠ a.mtime) := by
  have hlold : lookup? old [name] = some b := by
    rw [lookup?_cons, hb, lookup?_nil]
  have hlnew : lookup? (some new) [name] = some a := by
    rw [lookup?_cons, Option.bind_some, ha, lookup?_nil]
  cases kind <;> simp [Differs, hlold, hlnew]

/-- A name on both sides: when both are directories, their comparison reports the changes below. -/
theorem mem_changes_both (hold : Comparable old new.path) (hnew : new.WellFormed) {b a : Entry}
    (hb : (old.bind fun e => e.child? name) = some b) (ha : new.child? name = some a)
    (ih : c ∈ (run (some b) a).1 ↔
      ∃ names, names ≠ [] ∧ c.path = a.path.down names ∧ Differs (some b) (some a) names c.kind) :
    c ∈ Side.changes (.both b a) ↔
      ∃ rest, c.path = new.path.down (name :: rest) ∧ Differs old (some new) (name :: rest) c.kind := by
  obtain ⟨hbwf, hbpath⟩ := hold.child hb
  obtain ⟨-, hapath, hawf⟩ := hnew.child ha
  have hdown : ∀ rest, new.path.down (name :: rest) = a.path.down rest := by
    intro rest
    rw [hapath, Path.down_down, List.singleton_append]
  -- what the name itself may give, and what may be given below it
  have hsplit : (∃ rest, c.path = new.path.down (name :: rest) ∧ Differs old (some new) (name :: rest) c.kind) ↔
      (c.path = a.path ∧ c.kind = .modified ∧ (b.kind ≠ a.kind ∨ a.kind = .file ∧ b.mtime ≠ a.mtime)) ∨
        ∃ rest, rest ≠ [] ∧ c.path = a.path.down rest ∧ Differs old (some new) (name :: rest) c.kind := by
    constructor
    · rintro ⟨rest, hpath, hdiff⟩
      rw [hdown] at hpath
      by_cases hne : rest = []
      · subst hne
        exact Or.inl ⟨by rw [hpath, Path.down_nil], (differs_self hb ha _).mp hdiff⟩
      · exact Or.inr ⟨rest, hne, hpath, hdiff⟩
    · rintro (⟨hpath, hself⟩ | ⟨rest, -, hpath, hdiff⟩)
      · exact ⟨[], by rw [hdown, Path.down_nil, hpath], (differs_self hb ha _).mpr hself⟩
      · exact ⟨rest, by rw [hdown, hpath], hdiff⟩
  rw [hsplit, Side.changes]
  by_cases hkind : b.kind ≠ a.kind
  · have hself : b.kind ≠ a.kind ∨ a.kind = .file ∧ b.mtime ≠ a.mtime := Or.inl hkind
    have hfile : b.kind = .file ∨ a.kind = .file := by
      rcases Decidable.em (b.kind = .file) with hbk | hbk
      · exact Or.inl hbk
      · right
        cases hak : a.kind with
        | file => rfl
        | directory => exact absurd ((Entry.kind_eq_directory hbk).trans hak.symm) hkind
    have hbelow : (∃ rest, rest ≠ [] ∧ c.path = a.path.down rest ∧ Differs old (some new) (name :: rest) c.kind) ↔
        c.kind = .removed ∧ c.path ∈ b.walk.map Entry.path := by
      rw [hbwf.mem_walk_paths, hbpath, ← hapath]
      constructor
      · rintro ⟨rest, hne, hpath, hdiff⟩
        obtain ⟨hremoved, hsome⟩ := (differs_cons_of_file hb ha hbwf hawf hfile hne _).mp hdiff
        exact ⟨hremoved, rest, hne, hpath, hsome⟩
      · rintro ⟨hremoved, rest, hne, hpath, hsome⟩
        exact ⟨rest, hne, hpath, (differs_cons_of_file hb ha hbwf hawf hfile hne _).mpr ⟨hremoved, hsome⟩⟩
    obtain ⟨kind, path⟩ := c
    rw [if_pos hkind, hbelow, List.mem_cons, List.mem_map, List.mem_map]
    constructor
    · rintro (heq | ⟨d, hd, heq⟩)
      · cases heq
        exact Or.inl ⟨rfl, rfl, hself⟩
      · cases heq
        exact Or.inr ⟨rfl, d, hd, rfl⟩
    · rintro (⟨hpath, hmodified, -⟩ | ⟨hremoved, d, hd, hpath⟩)
      · exact Or.inl (by rw [← hpath, ← hmodified])
      · exact Or.inr ⟨d, hd, by rw [hpath, ← hremoved]⟩
  · have hkinds : b.kind = a.kind := not_not.mp hkind
    rw [if_neg hkind]
    by_cases hdir : a.isDirectory = true
    · have hbdir : b.isDirectory = true := by
        rw [Entry.isDirectory_iff, hkinds, ← Entry.isDirectory_iff]
        exact hdir
      have hnself : ¬(b.kind ≠ a.kind ∨ a.kind = .file ∧ b.mtime ≠ a.mtime) := by
        simp [hkinds, Entry.isDirectory_iff.mp hdir]
      rw [if_pos hdir, ih]
      constructor
      · rintro ⟨rest, hne, hpath, hdiff⟩
        exact Or.inr ⟨rest, hne, hpath, (differs_cons hb ha hne hbdir _).mpr hdiff⟩
      · rintro (⟨-, -, hself⟩ | ⟨rest, hne, hpath, hdiff⟩)
        · exact absurd hself hnself
        · exact ⟨rest, hne, hpath, (differs_cons hb ha hne hbdir _).mp hdiff⟩
    · have hfile : a.kind = .file := Entry.kind_eq_file hdir
      have hbelow : ¬∃ rest, rest ≠ [] ∧ c.path = a.path.down rest ∧ Differs old (some new) (name :: rest) c.kind := by
        rintro ⟨rest, hne, -, hdiff⟩
        have hsome := ((differs_cons_of_file hb ha hbwf hawf (Or.inr hfile) hne _).mp hdiff).2
        rw [hbwf.descend?_of_file (hkinds.trans hfile) hne] at hsome
        simp at hsome
      obtain ⟨kind, path⟩ := c
      rw [if_neg hdir, or_iff_left hbelow]
      simp only [hkinds, hfile, ne_eq, not_true_eq_false, true_and, false_or]
      by_cases hmtime : b.mtime = a.mtime
      · simp [hmtime]
      · simp [hmtime, and_comm]

end Sides

/-! ## The whole comparison -/

/-- What is reported under one name, given what is reported below the directories of that name. -/
theorem mem_side_changes_of {old : Option Entry} {new : Entry} (hold : Comparable old new.path) (hnew : new.WellFormed)
    {name : String} {s : Side} {c : Change}
    (hs : side? (old.bind fun e => e.child? name) (new.child? name) = some s)
    (ih : ∀ b a, new.child? name = some a → Comparable (some b) a.path → a.WellFormed → (c ∈ (run (some b) a).1 ↔
      ∃ names, names ≠ [] ∧ c.path = a.path.down names ∧ Differs (some b) (some a) names c.kind)) :
    c ∈ s.changes ↔
      ∃ rest, c.path = new.path.down (name :: rest) ∧ Differs old (some new) (name :: rest) c.kind := by
  cases hb : old.bind fun e => e.child? name with
  | none =>
    cases ha : new.child? name with
    | none => simp [hb, ha, side?] at hs
    | some a =>
      rw [hb, ha] at hs
      cases hs
      exact mem_changes_after hnew hb ha
  | some b =>
    cases ha : new.child? name with
    | none =>
      rw [hb, ha] at hs
      cases hs
      exact mem_changes_before hold hb ha
    | some a =>
      rw [hb, ha] at hs
      cases hs
      obtain ⟨hbwf, hbpath⟩ := hold.child hb
      obtain ⟨-, hapath, hawf⟩ := hnew.child ha
      refine mem_changes_both hold hnew hb ha (ih b a ha ?_ hawf)
      rintro e ⟨⟩
      exact ⟨hbwf, by rw [hbpath, hapath]⟩

/-- A comparison of well-formed trees reports exactly the changes between them. -/
theorem mem_changes_iff {old : Option Entry} {new : Entry} (hold : Comparable old new.path) (hnew : new.WellFormed)
    {c : Change} : c ∈ (run old new).1 ↔
      ∃ names, names ≠ [] ∧ c.path = new.path.down names ∧ Differs old (some new) names c.kind := by
  induction new using Entry.childInduction generalizing old with
  | step new ih =>
    have hside : ∀ name s, side? (old.bind fun e => e.child? name) (new.child? name) = some s → (c ∈ s.changes ↔
        ∃ rest, c.path = new.path.down (name :: rest) ∧ Differs old (some new) (name :: rest) c.kind) := by
      intro name s hs
      refine mem_side_changes_of hold hnew hs ?_
      intro b a ha hb hawf
      exact ih name a (Entry.child?_mem ha) hb hawf
    rw [run_eq, changesAll, List.mem_flatMap]
    constructor
    · rintro ⟨⟨name, s⟩, hs, hc⟩
      obtain ⟨rest, hpath, hdiff⟩ := (hside name s (mem_sides_iff.mp hs)).mp hc
      exact ⟨name :: rest, by simp, hpath, hdiff⟩
    · rintro ⟨names, hne, hpath, hdiff⟩
      cases names with
      | nil => exact absurd rfl hne
      | cons name rest =>
        -- one of the two trees has the name, so it has a side
        have hsome : ∃ s, side? (old.bind fun e => e.child? name) (new.child? name) = some s := by
          cases hb : old.bind fun e => e.child? name with
          | some b => cases new.child? name <;> exact ⟨_, rfl⟩
          | none =>
            cases ha : new.child? name with
            | some a => exact ⟨_, rfl⟩
            | none =>
              exfalso
              have hlold : lookup? old (name :: rest) = none := by rw [lookup?_cons, hb, lookup?_none]
              have hlnew : lookup? (some new) (name :: rest) = none := by
                rw [lookup?_cons, Option.bind_some, ha, lookup?_none]
              cases hk : c.kind <;> simp [hk, Differs, hlold, hlnew] at hdiff
        obtain ⟨s, hs⟩ := hsome
        exact ⟨(name, s), mem_sides_iff.mpr hs, (hside name s hs).mpr ⟨rest, hpath, hdiff⟩⟩

/-- What is reported under one name stands at the name or below it. -/
theorem mem_side_changes_iff {old : Option Entry} {new : Entry} (hold : Comparable old new.path) (hnew : new.WellFormed)
    {name : String} {s : Side} {c : Change}
    (hs : side? (old.bind fun e => e.child? name) (new.child? name) = some s) : c ∈ s.changes ↔
      ∃ rest, c.path = new.path.down (name :: rest) ∧ Differs old (some new) (name :: rest) c.kind :=
  mem_side_changes_of hold hnew hs fun _ _ _ hb ha => mem_changes_iff hb ha

end Comparison

end DirWatch
