import DirWatch.Proofs.Capture.Determinism
import DirWatch.Proofs.Capture.Presence
import DirWatch.Proofs.Capture.Recursion

/-!
# Patterns as pruning

Patterns leave members out while directories are listed. `Entry.prune` does the same to a finished tree: it drops every
descendant that the patterns exclude by its name or by the text of its path, with everything below it. A capture with
patterns sees the tree that a capture without them sees, pruned (`Depicts.pruned`, `exists_outcome`). What is left of a
tree are the entries that names lead to through no excluded member (`at?_prune`), and pruning by two lists is pruning by
both (`Snapshot.prune_append`).
-/

namespace DirWatch

open Snapshot (descend?)
open Entry (stamp)

variable {P Q : List String}

/-! ## Lists of patterns -/

/-- No patterns leave nothing out. -/
theorem Glob.excludes_nil (name path : String) : excludes [] name path = false := rfl

/-- Two lists of patterns leave out what either of them does. -/
theorem Glob.excludes_append (P Q : List String) (name path : String) :
    excludes (P ++ Q) name path = (excludes P name path || excludes Q name path) :=
  List.any_append

/-- The order of patterns, and how often one stands in the list, do not matter. -/
theorem Glob.excludes_congr (h : ∀ pattern, pattern ∈ P ↔ pattern ∈ Q) (name path : String) :
    excludes P name path = excludes Q name path := by
  rw [Bool.eq_iff_iff, excludes, excludes, List.any_eq_true, List.any_eq_true]
  exact exists_congr fun pattern => and_congr_left fun _ => h pattern

/-! ## Trees -/

namespace Entry

mutual

/-- The entry without the descendants that the patterns exclude, and without everything below those. -/
def prune (patterns : List String) : Entry → Entry
  | mk path kind mtime children => mk path kind mtime (pruneAll patterns children)

def pruneAll (patterns : List String) : List (String × Entry) → List (String × Entry)
  | [] => []
  | (name, e) :: rest =>
    if Glob.excludes patterns name (toString e.path) then pruneAll patterns rest
    else (name, e.prune patterns) :: pruneAll patterns rest

end

variable {e c : Entry} {l : List (String × Entry)} {name : String}

/-- An entry records the same of itself when its descendants are pruned. -/
@[simp] theorem stamp_prune (patterns : List String) (e : Entry) : (e.prune patterns).stamp = e.stamp := by
  cases e
  rw [prune]
  rfl

/-- It stands where it stood. -/
@[simp] theorem path_prune (patterns : List String) (e : Entry) : (e.prune patterns).path = e.path :=
  (stamp_eq_iff.mp (stamp_prune patterns e)).1

/-- What is left of one member. -/
def pruned? (patterns : List String) (p : String × Entry) : Option (String × Entry) :=
  if Glob.excludes patterns p.1 (toString p.2.path) then none else some (p.1, p.2.prune patterns)

/-- A listing is pruned member by member. -/
theorem pruneAll_eq (patterns : List String) (l : List (String × Entry)) :
    pruneAll patterns l = l.filterMap (pruned? patterns) := by
  induction l with
  | nil => rw [pruneAll, List.filterMap_nil]
  | cons p l ih =>
    rw [pruneAll, List.filterMap_cons, pruned?, ih]
    split <;> rfl

/-- An entry is pruned by its children. -/
theorem prune_eq (patterns : List String) (e : Entry) :
    e.prune patterns = e.withChildren (e.children.filterMap (pruned? patterns)) := by
  cases e
  rw [prune, pruneAll_eq]
  rfl

/-- Without patterns nothing is pruned. -/
theorem prune_nil (e : Entry) : e.prune [] = e := by
  induction e using childInduction with
  | step e ih =>
    have hkeep : ∀ p ∈ e.children, pruned? [] p = some p := by
      rintro ⟨name, c⟩ hc
      rw [pruned?, Glob.excludes_nil, if_neg Bool.false_ne_true, ih name c hc]
    rw [prune_eq, List.filterMap_congr hkeep, List.filterMap_some]
    cases e
    rfl

/-- Pruning by two lists of patterns, one after the other, is pruning by both. -/
theorem prune_append (P Q : List String) (e : Entry) : e.prune (P ++ Q) = (e.prune P).prune Q := by
  induction e using childInduction with
  | step e ih =>
    have hboth : ∀ p ∈ e.children, pruned? (P ++ Q) p = (pruned? P p).bind (pruned? Q) := by
      rintro ⟨name, c⟩ hc
      rw [pruned?, pruned?, Glob.excludes_append, ih name c hc]
      cases Glob.excludes P name (toString c.path) with
      | true => rfl
      | false =>
        change _ = pruned? Q (name, c.prune P)
        rw [pruned?, path_prune, Bool.false_or]
    rw [prune_eq, prune_eq Q, prune_eq P, List.filterMap_congr hboth]
    change _ = e.withChildren ((e.children.filterMap (pruned? P)).filterMap (pruned? Q))
    rw [List.filterMap_filterMap]

/-- Patterns that exclude the same prune alike. -/
theorem prune_congr (h : ∀ name path, Glob.excludes P name path = Glob.excludes Q name path) (e : Entry) :
    e.prune P = e.prune Q := by
  induction e using childInduction with
  | step e ih =>
    have hsame : ∀ p ∈ e.children, pruned? P p = pruned? Q p := by
      rintro ⟨name, c⟩ hc
      rw [pruned?, pruned?, h, ih name c hc]
    rw [prune_eq, prune_eq, List.filterMap_congr hsame]

/-- Of the members under distinct names those are left that are not excluded. -/
theorem child?_prune (P : List String) (h : (Listing.names e.children).Nodup) (name : String) : (e.prune P).child? name =
    (e.child? name).bind fun c => if Glob.excludes P name (toString c.path) then none else some (c.prune P) := by
  have hleft : (Listing.names (e.prune P).children).Nodup := by
    rw [prune_eq]
    refine List.pairwise_map.mpr (List.Pairwise.filterMap _ ?_ (List.pairwise_map.mp h))
    rintro ⟨m, a⟩ ⟨n, b⟩ hne p hp q hq
    rw [pruned?] at hp hq
    split at hp <;> cases hp
    split at hq <;> cases hq
    exact hne
  refine Option.ext fun d => ?_
  rw [child?, ← Listing.mem_iff_get? hleft, prune_eq]
  change (name, d) ∈ e.children.filterMap (pruned? P) ↔ _
  rw [List.mem_filterMap, Option.bind_eq_some_iff]
  constructor
  · rintro ⟨⟨other, c⟩, hc, hd⟩
    rw [pruned?] at hd
    split at hd <;> cases hd
    rename_i hkept
    exact ⟨c, Listing.get?_of_mem h hc, if_neg hkept⟩
  · rintro ⟨c, hc, hd⟩
    refine ⟨(name, c), child?_mem hc, ?_⟩
    rw [pruned?]
    split at hd <;> cases hd
    rename_i hkept
    exact if_neg hkept

end Entry

/-! ## The text of a path -/

/-- A path as an absolute text spells it. -/
structure Path.Rooted (p : Path) : Prop where
  absolute : p.isAbsolute = true
  names : ∀ name ∈ p.names, IsName name

/-- A member of a directory is spelled on from it. -/
theorem Path.Rooted.child {p : Path} (h : p.Rooted) {name : String} (hname : IsName name) : (p.child name).Rooted := by
  rw [child_eq_down hname]
  refine ⟨h.absolute, fun other hmem => ?_⟩
  rcases List.mem_append.mp hmem with hmem | hmem
  · exact h.names other hmem
  · rw [List.mem_singleton.mp hmem]
    exact hname

/-- The text of a member in a listing is the text of its path. -/
theorem Capture.memberText_toString {p : Path} (h : p.Rooted) {name : String} (hname : Path.IsName name) :
    memberText (toString p) name = toString (p.child name) := by
  obtain ⟨anchor, names⟩ := p
  rw [Path.child_eq_down hname]
  rcases List.eq_nil_or_concat names with rfl | ⟨above, last, rfl⟩
  · cases anchor with
    | relative => exact absurd h.absolute (by decide)
    | root => simp [memberText, toString, Path.toString, Path.down, Anchor.text]
    | doubled => simp [memberText, toString, Path.toString, Path.down, Anchor.text]
  · rw [List.concat_eq_append] at h ⊢
    obtain ⟨hne, -, hslash⟩ := h.names last (by simp)
    have hend : ∃ first, toString (⟨anchor, above ++ [last]⟩ : Path) = first ++ last := by
      by_cases habove : above = []
      · subst habove
        exact ⟨anchor.text, by simp [toString, Path.toString]⟩
      · refine ⟨anchor.text ++ ("/".intercalate above ++ "/"), ?_⟩
        simp [toString, Path.toString, Disk.intercalate_concat _ habove, String.append_assoc]
    have hopen : ¬(toString (⟨anchor, above ++ [last]⟩ : Path)).toList.getLast? = some '/' := by
      obtain ⟨first, hfirst⟩ := hend
      have hchars : last.toList ≠ [] := by simpa using hne
      rw [hfirst, String.toList_append, List.getLast?_append_of_ne_nil _ hchars]
      exact fun hlast => hslash (List.mem_of_getLast? hlast)
    rw [memberText, if_neg hopen, Disk.toString_down anchor (by simp)]

/-! ## Captured trees -/

/-- A well-formed tree keeps under given names what the patterns show there, pruned in turn. -/
theorem Entry.descend?_prune (P : List String) {e : Entry} (h : e.WellFormed) (hrooted : e.path.Rooted) (names : List String) :
    descend? (e.prune P) names = if Capture.shown P e.path names then (descend? e names).map (prune P) else none := by
  induction names generalizing e with
  | nil => rfl
  | cons name rest ih =>
    rw [descend?_cons, descend?_cons, child?_prune P h.nodup, Capture.shown]
    cases hc : e.child? name with
    | none => simp
    | some c =>
      obtain ⟨hname, hpath, hwf⟩ := h.child hc
      rw [← Path.child_eq_down hname] at hpath
      rw [Option.bind_some, Option.bind_some, Capture.memberText_toString hrooted hname, ← hpath]
      cases Glob.excludes P name (toString c.path) with
      | true => rfl
      | false => exact ih hwf (hpath ▸ hrooted.child hname)

namespace Snapshot

/-- The snapshot without the descendants of the root that the patterns exclude, and without everything below those. -/
def prune (patterns : List String) (s : Snapshot) : Snapshot :=
  { s with tree := s.tree.map (Entry.prune patterns) }

/-- Without patterns a snapshot is whole. -/
theorem prune_nil (s : Snapshot) : s.prune [] = s := by
  rw [prune, funext Entry.prune_nil]
  simp

/-- To prune by two lists of patterns is to prune by one after the other. -/
theorem prune_append (P Q : List String) (s : Snapshot) : s.prune (P ++ Q) = (s.prune P).prune Q := by
  rw [prune, funext (Entry.prune_append P Q), prune, prune, Option.map_map]
  rfl

/-- The order of patterns, and how often one stands in the list, do not matter. -/
theorem prune_congr (h : ∀ pattern, pattern ∈ P ↔ pattern ∈ Q) (s : Snapshot) : s.prune P = s.prune Q := by
  rw [prune, prune, funext (Entry.prune_congr (Glob.excludes_congr h))]

/-- What the patterns show in a well-formed snapshot is left as it was, and nothing else is. -/
theorem WellFormed.at?_prune {s : Snapshot} (h : s.WellFormed) (hroot : s.root.Rooted) (P : List String) (names : List String) :
    ((s.prune P).at? names).map stamp = if Capture.shown P s.root names then (s.at? names).map stamp else none := by
  rw [at?, at?, prune]
  cases htree : s.tree with
  | none => simp
  | some tree =>
    obtain ⟨hpath, hwf⟩ := h tree htree
    rw [← hpath] at hroot ⊢
    rw [Option.map_some, Entry.lookup?_some, Entry.lookup?_some, Entry.descend?_prune P hwf hroot]
    split
    · rw [Option.map_map, show stamp ∘ Entry.prune P = stamp from funext (Entry.stamp_prune P)]
    · rfl

end Snapshot

namespace Capture

variable {answer? : (call : Call) → Option (Except CallError call.Result)} {d : Disk} {p root : Path} {seen : Listing Seen}
  {l : Listing Entry} {c : Capture} {outcome : Except CaptureError Snapshot}

/-- Of what is seen in a directory without patterns, that is seen with them which they do not exclude. -/
theorem look_eq_filter (answer? : (call : Call) → Option (Except CallError call.Result)) (P : List String) (p : Path) :
    look answer? P p = (look answer? [] p).filter fun m => !Glob.excludes P m.1 (memberText (toString p) m.1) := by
  have hshown : shownIn answer? P p =
      (shownIn answer? [] p).filter fun name => !Glob.excludes P name (memberText (toString p) name) := by
    unfold shownIn
    split
    · rename_i names _
      have hall : List.filter (fun name => !Glob.excludes [] name (memberText (toString p) name)) names = names :=
        List.filter_eq_self.mpr fun _ _ => rfl
      rw [hall]
    · rfl
  rw [look, look, hshown, List.filterMap_filter, List.filter_filterMap]
  refine List.filterMap_congr fun name _ => ?_
  cases hseen : seenAs? answer? p name with
  | none => simp
  | some one =>
    obtain rfl : one.1 = name := by
      unfold seenAs? at hseen
      split at hseen <;> cases hseen
      rfl
    rw [Option.filter_some]

/-- The recursion with patterns gives the pruned entries of the recursion without. -/
theorem Recorded.pruned (h : Recorded answer? [] p seen l) (hnames : ∀ q, ∀ name ∈ shownIn answer? [] q, Path.IsName name)
    (P : List String) (hp : p.Rooted) (hseen : ∀ name ∈ Listing.names seen, Path.IsName name) :
    Recorded answer? P p (seen.filter fun m => !Glob.excludes P m.1 (memberText (toString p) m.1)) (Entry.pruneAll P l) := by
  induction h with
  | nil => exact Recorded.nil
  | @file p name m seen l hrest ih =>
    obtain ⟨hname, hlater⟩ := List.forall_mem_cons.mp hseen
    rw [List.filter_cons, Entry.pruneAll, memberText_toString hp hname]
    change Recorded _ _ _ (if (!Glob.excludes P name (toString (p.child name))) = true then _ else _)
      (if Glob.excludes P name (toString (p.child name)) = true then _ else _)
    cases Glob.excludes P name (toString (p.child name)) with
    | true => exact ih hp hlater
    | false => exact Recorded.file (ih hp hlater)
  | @directory p name m seen l below hbelow hrest ihbelow ih =>
    obtain ⟨hname, hlater⟩ := List.forall_mem_cons.mp hseen
    rw [List.filter_cons, Entry.pruneAll, memberText_toString hp hname]
    change Recorded _ _ _ (if (!Glob.excludes P name (toString (p.child name))) = true then _ else _)
      (if Glob.excludes P name (toString (p.child name)) = true then _ else _)
    cases Glob.excludes P name (toString (p.child name)) with
    | true => exact ih hp hlater
    | false =>
      refine Recorded.directory ?_ (ih hp hlater)
      rw [look_eq_filter]
      exact ihbelow (hp.child hname) fun other hmem => hnames _ other ((names_look_sublist answer? [] _).subset hmem)

/-- The snapshot with patterns is the snapshot without them, pruned. -/
theorem Depicts.pruned {time : Int} {s : Snapshot} (h : Depicts answer? [] root time s)
    (hnames : ∀ q, ∀ name ∈ shownIn answer? [] q, Path.IsName name) (P : List String) (hroot : root.Rooted) :
    Depicts answer? P root time (s.prune P) := by
  cases h with
  | absent h => exact Depicts.absent h
  | file h hfile => exact Depicts.file h hfile
  | @directory info l h hdirectory hl =>
    refine Depicts.directory h hdirectory ?_
    rw [Contents, look_eq_filter]
    exact hl.pruned hnames P hroot fun name hmem => hnames root name ((names_look_sublist answer? [] _).subset hmem)

/-- A capture ends with a well-formed snapshot of its root, or without any, if it is told of proper names only. -/
theorem Ends.wellFormed (h : Ends answer? c outcome) (hanswers : ∀ call r, answer? call = some r → Answered call r)
    (hc : c.Sound) {snapshot : Snapshot} (hsnapshot : outcome = .ok snapshot) :
    snapshot.WellFormed ∧ snapshot.root = c.root := by
  induction h with
  | stop hnext =>
    subst hsnapshot
    exact hc.stop hnext
  | ask hnext hr _ ih =>
    obtain ⟨hsound, hroot⟩ := hc.resume hnext (hanswers _ _ hr)
    obtain ⟨hwf, heq⟩ := ih hsound hsnapshot
    exact ⟨hwf, heq.trans hroot⟩

/-- A tree with proper names lists nothing else. -/
theorem Refuses.answered (h : Refuses d answer?) (hd : d.Named) (call : Call) (r : Except CallError call.Result)
    (hr : answer? call = some r) : Answered call r := by
  obtain ⟨a, ha, hreal⟩ := h call
  rw [hr] at ha
  cases ha
  rcases hreal with rfl | ⟨o, rfl⟩
  · exact answered_of_named hd call
  · exact answered_error call _

/-- Captures of a valid tree with different patterns have one outcome between them: each ends with it, pruned by its own
patterns. -/
theorem exists_outcome (hrefuses : Refuses d answer?) (hd : d.Valid) (hroot : root.Rooted) (time : Int) :
    ∃ whole : Except CaptureError Snapshot,
      (∀ P, Ends answer? { root, patterns := P, capturedAt := time } (whole.map (·.prune P))) ∧
      ∀ snapshot, whole = .ok snapshot → snapshot.WellFormed ∧ snapshot.root = root := by
  by_cases htext : '\x00' ∈ (toString root).toList
  · -- the first question fails, unless the system refuses it
    obtain ⟨a, ha, hreal⟩ := hrefuses (.stat (toString root))
    rcases hreal with rfl | ⟨o, rfl⟩
    · have hnul : d.answer (.stat (toString root)) = .error .nulCharacter := Disk.answer_nul htext
      rw [hnul] at ha
      exact ⟨.error (.call .nulCharacter), fun P => Ends.ask rfl ha (Ends.stop rfl), fun _ heq => nomatch heq⟩
    · refine ⟨.ok { root, capturedAt := time }, fun P => Ends.ask rfl ha (Ends.stop rfl), ?_⟩
      rintro snapshot ⟨⟩
      exact ⟨fun _ htree => (nomatch htree), rfl⟩
  · obtain ⟨whole, hdepicts, hends⟩ := depicts_of_valid hrefuses hd htext [] time
    have hnames : ∀ q, ∀ name ∈ shownIn answer? [] q, Path.IsName name :=
      fun q => (hrefuses.proper hd.regular.named [] q).1
    refine ⟨.ok whole, fun P => ?_, fun snapshot heq => ?_⟩
    · obtain ⟨other, hother, hends⟩ := depicts_of_valid hrefuses hd htext P time
      rw [hother.unique (hdepicts.pruned hnames P hroot)] at hends
      exact hends
    · exact hends.wellFormed (hrefuses.answered hd.regular.named) (sound_start root [] time) heq

end Capture

end DirWatch
