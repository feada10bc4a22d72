import DirWatch.Proofs.Capture.Soundness
import DirWatch.Proofs.Capture.Termination

/-!
# Captures by recursion

What a capture should see can be said by recursion, without a walk and without listings that are put together
afterwards. `look` is what is seen in one directory, `Contents` the children of a directory with everything below them,
and `Depicts` the snapshot of a root. A capture ends with exactly that snapshot if the tree has only names that a file
system can hold and no question fails but by a refusal of the system (`depicts_of_valid`).

A directory yields its contents (`Yields`): it is listed with everything below it before the next one that was pending,
and what was listed is put together to one entry in front of those put together before. `Yields.directory` is by
induction on the directory.
-/

namespace DirWatch

/-! ## Legible names -/

/-- No name below an object has a NUL character. -/
def Node.Legible (n : Node) : Prop :=
  ∀ names, (∃ name ∈ names, '\x00' ∈ name.toList) → n.descend? names = none

/-- The names in a legible directory have no NUL character, and what stands there is legible. -/
theorem Node.Legible.child {children : List (String × Node)} {m : Int} {name : String} {n : Node}
    (h : (Node.directory children m).Legible) (hget : Listing.get? children name = some n) :
    '\x00' ∉ name.toList ∧ n.Legible := by
  have hdescend : ∀ names, (Node.directory children m).descend? (name :: names) = n.descend? names := by
    intro names
    rw [descend?, hget]
    rfl
  constructor
  · intro hnul
    have hnone := h [name] ⟨name, List.mem_singleton_self _, hnul⟩
    rw [hdescend] at hnone
    cases hnone
  · rintro names ⟨other, hmem, hnul⟩
    rw [← hdescend]
    exact h _ ⟨other, List.mem_cons_of_mem _ hmem, hnul⟩

/-- That is enough for a directory. -/
theorem Node.legible_directory {children : List (String × Node)} {m : Int}
    (h : ∀ name n, (name, n) ∈ children → '\x00' ∉ name.toList ∧ n.Legible) : (Node.directory children m).Legible := by
  rintro names ⟨other, hmem, hnul⟩
  cases names with
  | nil => cases hmem
  | cons name names =>
    rw [descend?]
    cases hget : Listing.get? children name with
    | none => rfl
    | some n =>
      obtain ⟨hname, hn⟩ := h name n (Listing.mem_of_get? hget)
      rcases List.mem_cons.mp hmem with rfl | hmem
      · exact absurd hnul hname
      · exact hn names ⟨other, hmem, hnul⟩

/-- A tree as a file system can hold it: every name is a single component without a NUL character, and none stands for the
directory above. -/
structure Disk.Valid (d : Disk) : Prop where
  regular : d.Regular
  legible : d.root.Legible

namespace Node

mutual

/-- Whether every name below an object can stand in a file system. -/
def isValid : Node → Bool
  | directory children _ => validAll children
  | file _ | link _ _ => true

def validAll : List (String × Node) → Bool
  | [] => true
  | (name, n) :: rest =>
    decide (Path.IsName name ∧ name ≠ ".." ∧ '\x00' ∉ name.toList) && n.isValid && validAll rest

end

/-- A listing can stand in a file system if each member can. -/
theorem validAll_iff {l : List (String × Node)} : validAll l = true ↔
    ∀ name n, (name, n) ∈ l → (Path.IsName name ∧ name ≠ ".." ∧ '\x00' ∉ name.toList) ∧ n.isValid = true := by
  induction l with
  | nil => simp [validAll]
  | cons p rest ih =>
    obtain ⟨m, a⟩ := p
    rw [validAll, Bool.and_eq_true, Bool.and_eq_true, decide_eq_true_iff, ih]
    constructor
    · rintro ⟨ha, hrest⟩ name n hn
      rcases List.mem_cons.mp hn with heq | hn
      · cases heq
        exact ha
      · exact hrest name n hn
    · intro h
      exact ⟨h m a List.mem_cons_self, fun name n hn => h name n (List.mem_cons_of_mem _ hn)⟩

/-- There is nothing below an object that is no directory, and so no name that could not stand in a file system. -/
theorem valid_leaf {n : Node} (h : ∀ children m, n ≠ .directory children m) : n.Named ∧ n.Upless ∧ n.Legible := by
  have hnone : ∀ {names : List String} {name : String}, name ∈ names → n.descend? names = none := by
    intro names name hmem
    cases names with
    | nil => cases hmem
    | cons first names =>
      cases n with
      | directory children m => exact absurd rfl (h children m)
      | _ => rfl
  refine ⟨?_, fun names hup => hnone hup, ?_⟩
  · cases n with
    | directory children m => exact absurd rfl (h children m)
    | _ => trivial
  · rintro names ⟨name, hmem, -⟩
    exact hnone hmem

/-- What is found to be valid has all three properties. -/
theorem valid_of_isValid {n : Node} (h : n.isValid = true) : n.Named ∧ n.Upless ∧ n.Legible := by
  induction hsize : sizeOf n using Nat.strong_induction_on generalizing n with
  | _ size ih =>
    cases n with
    | directory children m =>
      have hchild : ∀ name n, (name, n) ∈ children → (Path.IsName name ∧ name ≠ ".." ∧ '\x00' ∉ name.toList) ∧
          n.Named ∧ n.Upless ∧ n.Legible := by
        intro name n hmem
        obtain ⟨hname, hn⟩ := validAll_iff.mp h name n hmem
        have hsmaller : sizeOf n < size := hsize ▸ Node.sizeOf_lt_of_mem hmem
        exact ⟨hname, ih _ hsmaller hn rfl⟩
      refine ⟨?_, upless_directory fun name n hmem => ?_, legible_directory fun name n hmem => ?_⟩
      · rw [Named, namedAll_iff]
        exact fun name n hmem => ⟨(hchild name n hmem).1.1, (hchild name n hmem).2.1⟩
      · exact ⟨(hchild name n hmem).1.2.1, (hchild name n hmem).2.2.1⟩
      · exact ⟨(hchild name n hmem).1.2.2, (hchild name n hmem).2.2.2⟩
    | file m => exact valid_leaf fun _ _ => Node.noConfusion
    | link target m => exact valid_leaf fun _ _ => Node.noConfusion

end Node

/-- A tree is valid if all its names can stand in a file system. -/
theorem Disk.valid_of_isValid {d : Disk} (h : d.root.isValid = true) : d.Valid := by
  obtain ⟨hnamed, hupless, hlegible⟩ := Node.valid_of_isValid h
  exact ⟨⟨hnamed, hupless⟩, hlegible⟩

/-- A path goes on without a NUL character if the name has none. -/
theorem Path.legible_child {p : Path} {name : String} (hname : IsName name) (hp : '\x00' ∉ (toString p).toList)
    (h : '\x00' ∉ name.toList) : '\x00' ∉ (toString (p.child name)).toList := by
  rw [child_eq_down hname]
  obtain ⟨anchor, names⟩ := p
  by_cases hnames : names = []
  · subst hnames
    cases anchor <;> simpa [toString, Path.toString, Path.down, Anchor.text] using h
  · rw [Disk.toString_down anchor hnames]
    simp [hp, h]

/-- The system takes no text with a NUL character. -/
theorem Disk.answer_nul {d : Disk} {call : Call} (h : '\x00' ∈ call.path.toList) : d.answer call = .error .nulCharacter := by
  unfold answer
  rw [if_pos (List.contains_iff_mem.mpr h)]

/-- A question about a legible path fails only by a refusal. -/
theorem Disk.system_of_legible {d : Disk} {call : Call} (h : '\x00' ∉ call.path.toList) {e : CallError}
    (he : d.answer call = .error e) : ∃ o, e = .system o := by
  have hlegible : ¬call.path.toList.contains '\x00' = true := fun hnul => h (List.contains_iff_mem.mp hnul)
  unfold answer at he
  rw [if_neg hlegible] at he
  cases call <;> dsimp only at he <;> split at he <;> cases he <;> exact ⟨_, rfl⟩

namespace Capture

/-- The text of a member has one only if the directory or the name has. -/
theorem legible_memberText {directory name : String} (hd : '\x00' ∉ directory.toList) (h : '\x00' ∉ name.toList) :
    '\x00' ∉ (memberText directory name).toList := by
  unfold memberText
  split <;> simp [hd, h]

/-! ## The recursion -/

section

variable (answer? : (call : Call) → Option (Except CallError call.Result)) (patterns : List String)

/-- The names to look at in a directory: those that it lists and that no pattern leaves out. -/
def shownIn (directory : Path) : List String :=
  match answer? (.list (toString directory)) with
  | some (.ok names) => names.filter fun name => !Glob.excludes patterns name (memberText (toString directory) name)
  | _ => []

/-- What is seen of a member, unless looking at it fails. -/
def seenAs? (directory : Path) (name : String) : Option (String × Seen) :=
  match answer? (.member (memberText (toString directory) name)) with
  | some (.ok info) => some (name, ⟨info.isDirectory, info.mtime⟩)
  | _ => none

/-- What is seen in a directory. Nothing is seen if it cannot be listed. -/
def look (directory : Path) : Listing Seen :=
  (shownIn answer? patterns directory).filterMap (seenAs? answer? directory)

/-- The entries for what is seen in a directory: a directory has what is seen in it in turn, and everything else is a
file. -/
inductive Recorded : Path → Listing Seen → Listing Entry → Prop
  | nil {p} : Recorded p [] []
  | file {p name m seen l} (hrest : Recorded p seen l) :
      Recorded p ((name, ⟨false, m⟩) :: seen) ((name, .file (p.child name) m) :: l)
  | directory {p name m seen l below} (hbelow : Recorded (p.child name) (look answer? patterns (p.child name)) below)
      (hrest : Recorded p seen l) : Recorded p ((name, ⟨true, m⟩) :: seen) ((name, .directory (p.child name) m below) :: l)

/-- The children of a directory, by recursion over the directories below it. -/
def Contents (p : Path) (l : Listing Entry) : Prop :=
  Recorded answer? patterns p (look answer? patterns p) l

/-- The snapshot of a root: nothing if it cannot be looked at, a file if it is no directory, and else a directory with its
contents. -/
inductive Depicts (root : Path) (time : Int) : Snapshot → Prop
  | absent {e} (h : answer? (.stat (toString root)) = some (.error e)) : Depicts root time { root, capturedAt := time }
  | file {info : Info} (h : answer? (.stat (toString root)) = some (.ok info)) (hfile : info.isDirectory = false) :
      Depicts root time { root, tree := some (.file root info.mtime), capturedAt := time }
  | directory {info : Info} {l} (h : answer? (.stat (toString root)) = some (.ok info)) (hdirectory : info.isDirectory = true)
      (hl : Contents answer? patterns root l) :
      Depicts root time { root, tree := some (.directory root info.mtime l), capturedAt := time }

end

variable {answer? : (call : Call) → Option (Except CallError call.Result)} {patterns : List String} {d : Disk} {c : Capture}
  {p root : Path} {seen : Listing Seen} {l l' : Listing Entry} {outcome : Except CaptureError Snapshot}

/-- The recursion has one result at most. -/
theorem Recorded.unique (h : Recorded answer? patterns p seen l) (h' : Recorded answer? patterns p seen l') : l = l' := by
  induction h generalizing l' with
  | nil =>
    cases h'
    rfl
  | file _ ih =>
    cases h' with
    | file hrest => rw [ih hrest]
  | directory _ _ ihbelow ih =>
    cases h' with
    | directory hbelow hrest => rw [ih hrest, ihbelow hbelow]

/-- The recursion describes one snapshot. -/
theorem Depicts.unique {time : Int} {s s' : Snapshot} (h : Depicts answer? patterns root time s)
    (h' : Depicts answer? patterns root time s') : s = s' := by
  cases h with
  | absent h =>
    cases h' with
    | absent _ => rfl
    | file h' _ | directory h' _ _ =>
      rw [h] at h'
      cases h'
  | file h hfile =>
    cases h' with
    | absent h' =>
      rw [h] at h'
      cases h'
    | file h' _ =>
      rw [h] at h'
      cases h'
      rfl
    | directory h' hdirectory _ =>
      rw [h] at h'
      cases h'
      rw [hfile] at hdirectory
      cases hdirectory
  | directory h hdirectory hl =>
    cases h' with
    | absent h' =>
      rw [h] at h'
      cases h'
    | file h' hfile =>
      rw [h] at h'
      cases h'
      rw [hfile] at hdirectory
      cases hdirectory
    | directory h' _ hl' =>
      rw [h] at h'
      cases h'
      rw [hl.unique hl']

/-! ## Putting the listings together -/

/-- What is put together for the directories of a listing, the last one first. -/
def blocks (p : Path) : Listing Entry → List (Path × Listing Entry)
  | [] => []
  | (name, e) :: l => blocks p l ++ if e.isDirectory then [(p.child name, e.children)] else []

/-- Below a file there is nothing to put together. -/
theorem blocks_file {name : String} {q : Path} {m : Int} : blocks p ((name, .file q m) :: l) = blocks p l :=
  List.append_nil _

/-- Below a directory there is its own block, after those of the members behind it. -/
theorem blocks_directory {name : String} {q : Path} {m : Int} {below : Listing Entry} :
    blocks p ((name, .directory q m below) :: l) = blocks p l ++ [(p.child name, below)] := rfl

/-- A block stands at one of the names. -/
theorem mem_blocks {q : Path × Listing Entry} (h : q ∈ blocks p l) : ∃ name ∈ Listing.names l, q.1 = p.child name := by
  induction l with
  | nil => cases h
  | cons one l ih =>
    obtain ⟨name, e⟩ := one
    rw [blocks] at h
    rcases List.mem_append.mp h with h | h
    · obtain ⟨other, hother, heq⟩ := ih h
      exact ⟨other, List.mem_cons_of_mem _ hother, heq⟩
    · split at h
      · rw [List.mem_singleton.mp h]
        exact ⟨name, List.mem_cons_self, rfl⟩
      · cases h

/-- What is taken stands behind others. -/
theorem take?_append {front back : List (Path × Listing Entry)} {children : Listing Entry} (h : ∀ q ∈ front, q.1 ≠ p) :
    take? p (front ++ (p, children) :: back) = some (children, front ++ back) := by
  induction front with
  | nil => rw [List.nil_append, List.nil_append, take?, if_pos rfl]
  | cons first front ih =>
    obtain ⟨path, others⟩ := first
    rw [List.cons_append, take?, if_neg (h _ List.mem_cons_self), ih fun q hq => h q (List.mem_cons_of_mem _ hq)]
    rfl

/-- What is recorded has the names that were seen. -/
theorem Recorded.names (h : Recorded answer? patterns p seen l) : Listing.names l = Listing.names seen := by
  induction h with
  | nil => rfl
  | file _ ih => exact congrArg (_ :: ·) ih
  | directory _ _ _ ih => exact congrArg (_ :: ·) ih

/-- A file takes no block. -/
theorem buildListing_file {built others : List (Path × Listing Entry)} {name : String} {m : Int}
    (h : buildListing p seen built = .ok (l, others)) :
    buildListing p ((name, ⟨false, m⟩) :: seen) built = .ok ((name, .file (p.child name) m) :: l, others) := by
  rw [Capture.buildListing]
  dsimp only
  rw [if_neg Bool.false_ne_true, h]
  rfl

/-- A directory takes the children that are held for it behind those for the directories after it. -/
theorem buildListing_directory {front others : List (Path × Listing Entry)} {name : String} {m : Int} {children : Listing Entry}
    (h : buildListing p seen (front ++ others) = .ok (l, others)) (hother : ∀ q ∈ front, q.1 ≠ p.child name) :
    buildListing p ((name, ⟨true, m⟩) :: seen) (front ++ [(p.child name, children)] ++ others) =
      .ok ((name, .directory (p.child name) m children) :: l, others) := by
  rw [Capture.buildListing]
  dsimp only
  rw [if_pos rfl, List.append_assoc, List.singleton_append, take?_append hother]
  dsimp only
  rw [h]
  rfl

/-- The listing of a directory is put together to its contents, if those of its directories are there. -/
theorem Recorded.buildListing (h : Recorded answer? patterns p seen l) (hproper : Proper (Listing.names seen))
    (others : List (Path × Listing Entry)) : buildListing p seen (blocks p l ++ others) = .ok (l, others) := by
  induction h generalizing others with
  | nil => rfl
  | @file p name m seen l hrest ih =>
    rw [blocks_file]
    exact buildListing_file (ih (hproper.sublist (List.sublist_cons_self _ _)) others)
  | @directory p name m seen l below hbelow hrest ihbelow ih =>
    obtain ⟨hnames, hnodup⟩ := hproper
    have hlater := ih (Proper.sublist ⟨hnames, hnodup⟩ (List.sublist_cons_self _ _)) others
    -- no other directory of the listing has the path
    have hother : ∀ q ∈ blocks p l, q.1 ≠ p.child name := by
      intro q hq heq
      obtain ⟨other, hother, hpath⟩ := mem_blocks hq
      rw [hrest.names] at hother
      rw [hpath, Path.child_eq_down (hnames other (List.mem_cons_of_mem _ hother)),
        Path.child_eq_down (hnames name List.mem_cons_self), Path.down_inj] at heq
      cases heq
      exact (List.nodup_cons.mp hnodup).1 hother
    rw [blocks_directory]
    exact buildListing_directory hlater hother

/-! ## Walking -/

variable (answer? patterns) in
/-- Some listings stand for directories: they are made before what is still pending, and put together to what the directories
hold. -/
def Serves (directories : List Path) (held : List (Path × Listing Entry)) (more : List (Path × Listing Seen)) : Prop :=
  (∀ rest built, build (more ++ rest) built = build rest (held ++ built)) ∧
  ∀ (c : Capture) mtime pending listed outcome, c.patterns = patterns →
    Ends answer? (c.descend { mtime, pending, listed := more ++ listed }) outcome →
    Ends answer? (c.descend { mtime, pending := directories ++ pending, listed }) outcome

variable (answer? patterns) in
/-- A directory is listed with everything below it, and what was listed is put together to its children. -/
def Yields (p : Path) (l : Listing Entry) : Prop :=
  ∃ more, Serves answer? patterns [p] [(p, l)] more

theorem Serves.nil : Serves answer? patterns [] [] [] :=
  ⟨fun _ _ => rfl, fun _ _ _ _ _ _ h => h⟩

/-- What comes first is listed first and put together last. -/
theorem Serves.append {directories directories' : List Path} {held held' : List (Path × Listing Entry)}
    {more more' : List (Path × Listing Seen)} (h : Serves answer? patterns directories held more)
    (h' : Serves answer? patterns directories' held' more') :
    Serves answer? patterns (directories ++ directories') (held ++ held') (more' ++ more) := by
  refine ⟨fun rest built => ?_, fun c mtime pending listed outcome hc hends => ?_⟩
  · rw [List.append_assoc, h'.1, h.1, List.append_assoc]
  · rw [List.append_assoc] at hends ⊢
    exact h.2 c mtime _ listed outcome hc (h'.2 c mtime pending _ outcome hc hends)

/-- The directories among what was seen, the last of them first. -/
def directoriesIn (p : Path) (seen : Listing Seen) : List Path :=
  (seen.reverse.filter fun m => m.2.isDirectory).map fun m => p.child m.1

/-- What was seen in a directory has entries, and its directories are served, if each of them yields its contents. -/
theorem serves_seen (h : ∀ name m, (name, ⟨true, m⟩) ∈ seen →
      ∃ below, Contents answer? patterns (p.child name) below ∧ Yields answer? patterns (p.child name) below) :
    ∃ l more, Recorded answer? patterns p seen l ∧ Serves answer? patterns (directoriesIn p seen) (blocks p l) more := by
  induction seen with
  | nil => exact ⟨[], [], Recorded.nil, Serves.nil⟩
  | cons first seen ih =>
    obtain ⟨name, isDirectory, m⟩ := first
    obtain ⟨l, more, hrecorded, hserves⟩ := ih fun other m hmem => h other m (List.mem_cons_of_mem _ hmem)
    cases isDirectory with
    | false =>
      refine ⟨_, more, Recorded.file hrecorded, ?_⟩
      have hdirectories : directoriesIn p ((name, ⟨false, m⟩) :: seen) = directoriesIn p seen := by
        simp [directoriesIn]
      rw [hdirectories, blocks_file]
      exact hserves
    | true =>
      obtain ⟨below, hcontents, first, hfirst⟩ := h name m List.mem_cons_self
      refine ⟨_, first ++ more, Recorded.directory hcontents hrecorded, ?_⟩
      have hdirectories : directoriesIn p ((name, ⟨true, m⟩) :: seen) = directoriesIn p seen ++ [p.child name] := by
        simp [directoriesIn]
      rw [hdirectories, blocks_directory]
      exact hserves.append hfirst

/-- The members of a directory are looked at to the last. -/
theorem ends_examine {waiting : List String} {walk : Walk}
    (hplain : ∀ name ∈ waiting, ∃ a, answer? (.member (memberText (toString p) name)) = some a ∧
      ∀ e, a = .error e → ∃ o, e = .system o)
    (h : Ends answer? (c.examine p [] ((waiting.filterMap (seenAs? answer? p)).reverse ++ seen) walk) outcome) :
    Ends answer? (c.examine p waiting seen walk) outcome := by
  induction waiting generalizing seen with
  | nil => exact h
  | cons name waiting ih =>
    obtain ⟨a, ha, hsystem⟩ := hplain name List.mem_cons_self
    have hrest := fun seen => @ih seen fun other hmem => hplain other (List.mem_cons_of_mem _ hmem)
    refine Ends.ask rfl ha ?_
    cases a with
    | error e =>
      obtain ⟨o, rfl⟩ := hsystem e rfl
      have hunseen : seenAs? answer? p name = none := by rw [seenAs?, ha]
      rw [List.filterMap_cons_none hunseen] at h
      exact hrest _ h
    | ok info =>
      have hseen : seenAs? answer? p name = some (name, ⟨info.isDirectory, info.mtime⟩) := by rw [seenAs?, ha]
      rw [List.filterMap_cons_some hseen, List.reverse_cons, List.append_assoc] at h
      exact hrest _ h

/-! ## Valid trees -/

/-- Every question gets the answer of a tree, or the system refuses it. -/
def Refuses (d : Disk) (answer? : (call : Call) → Option (Except CallError call.Result)) : Prop :=
  ∀ call, ∃ a, answer? call = some a ∧ (a = d.answer call ∨ ∃ o, a = .error (.system o))

/-- A legible question is answered by the tree or refused by the system. -/
theorem Refuses.plain (h : Refuses d answer?) (call : Call) (hlegible : '\x00' ∉ call.path.toList) :
    ∃ a, answer? call = some a ∧ ∀ e, a = .error e → ∃ o, e = .system o := by
  obtain ⟨a, ha, hreal⟩ := h call
  refine ⟨a, ha, fun e he => ?_⟩
  rcases hreal with hreal | ⟨o, hrefused⟩
  · exact Disk.system_of_legible hlegible (hreal.symm.trans he)
  · rw [hrefused] at he
    cases he
    exact ⟨o, rfl⟩

/-- What succeeds is as the tree has it. -/
theorem Refuses.answer_of_ok (h : Refuses d answer?) {call : Call} {a : call.Result} (ha : answer? call = some (.ok a)) :
    d.answer call = .ok a := by
  obtain ⟨b, hb, hreal⟩ := h call
  rw [ha] at hb
  cases hb
  rcases hreal with hreal | ⟨o, hrefused⟩
  · exact hreal.symm
  · cases hrefused

/-- A name to look at was listed. -/
theorem mem_shownIn {name : String} (h : name ∈ shownIn answer? patterns p) :
    ∃ names : List String, answer? (.list (toString p)) = some (.ok names) ∧ name ∈ names := by
  unfold shownIn at h
  split at h
  · rename_i names hnames
    exact ⟨names, hnames, (List.mem_filter.mp h).1⟩
  · cases h

/-- What is seen was looked at. -/
theorem mem_look {name : String} {one : Seen} (h : (name, one) ∈ look answer? patterns p) :
    name ∈ shownIn answer? patterns p ∧ ∃ info : Info, answer? (.member (memberText (toString p) name)) =
    some (.ok info) ∧ one = ⟨info.isDirectory, info.mtime⟩ := by
  obtain ⟨other, hother, heq⟩ := List.mem_filterMap.mp h
  unfold seenAs? at heq
  split at heq
  · rename_i info hinfo
    cases heq
    exact ⟨hother, info, hinfo, rfl⟩
  · cases heq

/-- The names that are seen are some of those that are shown. -/
theorem names_look_sublist (answer? : (call : Call) → Option (Except CallError call.Result)) (patterns : List String)
    (p : Path) :
    (Listing.names (look answer? patterns p)).Sublist (shownIn answer? patterns p) := by
  unfold look
  induction shownIn answer? patterns p with
  | nil => exact List.Sublist.refl _
  | cons name names ih =>
    rw [List.filterMap_cons]
    split
    · exact ih.trans (List.sublist_cons_self _ _)
    · rename_i one hone
      have hname : one.1 = name := by
        unfold seenAs? at hone
        split at hone <;> cases hone
        rfl
      rw [Listing.names, List.map_cons, hname]
      exact ih.cons_cons name

section

variable {children : List (String × Node)} {m : Int}

/-- What a directory shows are children of it under names that a file system can hold. -/
theorem Refuses.shown (h : Refuses d answer?) (hleads : Disk.Leads d p (.directory children m))
    (hnamed : (Node.directory children m).Named) {name : String} (hmem : name ∈ shownIn answer? patterns p) :
    Path.IsName name ∧ ∃ n, Listing.get? children name = some n := by
  obtain ⟨names, hlist, hname⟩ := mem_shownIn hmem
  have hanswer := h.answer_of_ok hlist
  rcases hleads.list with hnul | hreal
  · rw [hnul] at hanswer
    cases hanswer
  · rw [hreal] at hanswer
    cases hanswer
    obtain ⟨n, hn⟩ := Listing.mem_names.mp hname
    have hget := Listing.mem_sorted_iff.mp hn
    exact ⟨(hnamed.member (Listing.mem_of_get? hget)).1, n, hget⟩

/-- What is seen as a directory is one. -/
theorem Refuses.seen_directory (h : Refuses d answer?) (hleads : Disk.Leads d p (.directory children m))
    (hnamed : (Node.directory children m).Named) (hupless : (Node.directory children m).Upless) {name : String} {time : Int}
    (hmem : (name, ⟨true, time⟩) ∈ look answer? patterns p) :
    Path.IsName name ∧ name ≠ ".." ∧ ∃ below m', Listing.get? children name = some (.directory below m') := by
  obtain ⟨hshown, info, hinfo, heq⟩ := mem_look hmem
  obtain ⟨hname, n, hget⟩ := h.shown hleads hnamed hshown
  have hup := (hupless.child hget).1
  have hanswer := h.answer_of_ok hinfo
  refine ⟨hname, hup, ?_⟩
  rcases hleads.member hname hup hget with hnul | hreal
  · rw [hnul] at hanswer
    cases hanswer
  · rw [hreal] at hanswer
    cases hanswer
    cases n with
    | directory below m' => exact ⟨below, m', hget⟩
    | _ => cases heq

/-- A directory shows different single components. -/
theorem Refuses.proper (h : Refuses d answer?) (hd : d.Named) (patterns : List String) (p : Path) :
    Proper (shownIn answer? patterns p) := by
  unfold shownIn
  split
  · rename_i names hlist
    have hanswered := answered_of_named hd (.list (toString p))
    rw [h.answer_of_ok hlist] at hanswered
    have hproper : Proper names := hanswered
    exact hproper.sublist List.filter_sublist
  · exact ⟨List.forall_mem_nil _, List.nodup_nil⟩

end

/-- A directory of a valid tree yields its contents. -/
theorem Yields.directory (hrefuses : Refuses d answer?) (hd : d.Named) (patterns : List String) {n : Node}
    {children : List (String × Node)} {m : Int} (hdirectory : n = .directory children m) (hleads : Disk.Leads d p n)
    (hnamed : n.Named) (hupless : n.Upless) (hlegible : n.Legible) (htext : '\x00' ∉ (toString p).toList) :
    ∃ l, Contents answer? patterns p l ∧ Yields answer? patterns p l := by
  induction hsize : sizeOf n using Nat.strong_induction_on generalizing n p children m with
  | _ size ih =>
    subst hdirectory
    have hshown : ∀ name ∈ shownIn answer? patterns p, Path.IsName name ∧ '\x00' ∉ name.toList := by
      intro name hmem
      obtain ⟨hname, n, hget⟩ := hrefuses.shown hleads hnamed hmem
      exact ⟨hname, (hlegible.child hget).1⟩
    have hbelow : ∀ name time, (name, ⟨true, time⟩) ∈ look answer? patterns p →
        ∃ below, Contents answer? patterns (p.child name) below ∧ Yields answer? patterns (p.child name) below := by
      intro name time hmem
      obtain ⟨hname, hup, below, m', hget⟩ := hrefuses.seen_directory hleads hnamed hupless hmem
      have hchild := Listing.mem_of_get? hget
      have hsmaller : sizeOf (Node.directory below m') < size := hsize ▸ Node.sizeOf_lt_of_mem hchild
      obtain ⟨hnul, hlegible'⟩ := hlegible.child hget
      exact ih _ hsmaller rfl (hleads.down hname hup hget fun _ _ heq => nomatch heq) (hnamed.member hchild).2
        (hupless.child hget).2 hlegible' (Path.legible_child hname htext hnul) rfl
    obtain ⟨l, more, hrecorded, hbuild, hwalk⟩ := serves_seen hbelow
    have hproper : Proper (Listing.names (look answer? patterns p)) :=
      (hrefuses.proper hd patterns p).sublist (names_look_sublist answer? patterns p)
    refine ⟨l, hrecorded, more ++ [(p, look answer? patterns p)], ?_, ?_⟩
    · intro rest built
      rw [List.append_assoc, List.singleton_append, hbuild, build, hrecorded.buildListing hproper]
      rfl
    · intro c mtime pending listed outcome hc hends
      -- when all members have been looked at, the directories among them are next
      have hexamined : Ends answer? (c.examine p [] (look answer? patterns p).reverse { mtime, pending, listed }) outcome := by
        unfold examine
        dsimp only
        rw [List.reverse_reverse]
        refine hwalk c mtime pending _ outcome hc ?_
        rwa [List.append_assoc, List.singleton_append] at hends
      have hplain : ∀ name ∈ shownIn answer? patterns p, ∃ a, answer? (.member (memberText (toString p) name)) = some a ∧
          ∀ e, a = .error e → ∃ o, e = .system o := fun name hmem =>
        hrefuses.plain _ (legible_memberText htext (hshown name hmem).2)
      obtain ⟨a, ha, hsystem⟩ := hrefuses.plain (.list (toString p)) htext
      refine Ends.ask rfl ha ?_
      cases a with
      | error e =>
        obtain ⟨o, rfl⟩ := hsystem e rfl
        have hnothing : look answer? patterns p = [] := by
          rw [look, shownIn, ha]
          rfl
        rw [hnothing] at hexamined
        exact hexamined
      | ok names =>
        have hlast : Ends answer? (c.examine p (shownIn answer? patterns p) [] { mtime, pending, listed }) outcome := by
          refine ends_examine hplain ?_
          rw [List.append_nil]
          exact hexamined
        have hnames : shownIn answer? patterns p =
            names.filter fun name => !Glob.excludes c.patterns name (memberText (toString p) name) := by
          rw [shownIn, ha, hc]
        rw [hnames] at hlast
        exact hlast

/-- A capture of a valid tree ends with the snapshot that the recursion gives, if no question fails but by a refusal. -/
theorem depicts_of_valid (hrefuses : Refuses d answer?) (hd : d.Valid) {root : Path} (htext : '\x00' ∉ (toString root).toList)
    (patterns : List String) (time : Int) : ∃ snapshot, Depicts answer? patterns root time snapshot ∧
      Ends answer? { root, patterns, capturedAt := time } (.ok snapshot) := by
  obtain ⟨a, ha, hsystem⟩ := hrefuses.plain (.stat (toString root)) htext
  cases a with
  | error e =>
    obtain ⟨o, rfl⟩ := hsystem e rfl
    exact ⟨_, Depicts.absent ha, Ends.ask rfl ha (Ends.stop rfl)⟩
  | ok info =>
    by_cases hdirectory : info.isDirectory = true
    · obtain ⟨place, n, hlocate, hinfo⟩ := Disk.locate_of_stat (hrefuses.answer_of_ok ha)
      obtain ⟨children, m, rfl⟩ : ∃ children m, n = .directory children m := by
        rw [hinfo] at hdirectory
        cases n with
        | directory children m => exact ⟨children, m, rfl⟩
        | _ => cases hdirectory
      have hupless := Disk.inherited_locate (fun h hget => (h.child hget).2) hd.regular.upless hlocate
      have hlegible := Disk.inherited_locate (fun h hget => (h.child hget).2) hd.legible hlocate
      obtain ⟨l, hcontents, more, hbuild, hwalk⟩ :=
        Yields.directory hrefuses hd.regular.named patterns rfl ⟨place, hlocate⟩
        (hd.regular.named.locate hlocate) hupless hlegible htext
      refine ⟨_, Depicts.directory ha hdirectory hcontents, Ends.ask rfl ha ?_⟩
      unfold afterRoot
      dsimp only
      rw [if_pos hdirectory]
      refine hwalk { root, patterns, capturedAt := time } info.mtime [] [] _ rfl (Ends.stop ?_)
      have hassemble : assemble root time { mtime := info.mtime, pending := [], listed := more ++ [] } =
          .ok { root, tree := some (.directory root info.mtime l), capturedAt := time } := by
        rw [assemble, hbuild, build]
        dsimp only
        rw [List.singleton_append, take?, if_pos rfl]
      exact congrArg Next.stop hassemble
    · refine ⟨_, Depicts.file ha (Bool.not_eq_true _ ▸ hdirectory), Ends.ask rfl ha ?_⟩
      unfold afterRoot
      dsimp only
      rw [if_neg hdirectory]
      exact Ends.stop rfl

end Capture

end DirWatch
