import DirWatch.Proofs.Capture.Recursion
import DirWatch.Proofs.Disk.Bounds
import DirWatch.Proofs.Resolution.Links

/-!
# Resolutions come to an end

While the target of a link is resolved, the links that it leads to are nested in it. A resolution that nests no more
than a number of links has only finitely many components to visit, so it comes to its end, or it gets as deep as one
likes (`settles_start`). The links nested in each other are different paths, and below the root only finitely many paths
lead anywhere; so the resolution of an absolute path comes to its end (`halts_of_absolute`). A relative path may climb
at every link, and then there is no end to it.
-/

namespace DirWatch

namespace Resolution

/-- How many links are nested in each other, whose targets are being resolved. -/
def depth (r : Resolution) : Nat :=
  match r.phase with
  | .name _ _ outer _ => outer.length
  | _ => 0

variable (cwd : String) (answer? : (call : Call) → Option (Except CallError call.Result))

/-- What a resolution goes on to when its questions get the answers that are given for them. -/
inductive Goes : Resolution → Resolution → Prop
  | refl (r : Resolution) : Goes r r
  | ask {r r' : Resolution} {call : Call} {resume : Except CallError call.Result → Resolution}
      {a : Except CallError call.Result} (hnext : r.next cwd = .ask call resume) (ha : answer? call = some a)
      (h : Goes (resume a) r') : Goes r r'

/-- A resolution comes to its end, or to a depth. -/
def Settles (limit : Nat) (r : Resolution) : Prop :=
  ∃ r', Goes cwd answer? r r' ∧ ((∃ outcome, r'.next cwd = .stop outcome) ∨ limit ≤ r'.depth)

variable {cwd answer?} {limit : Nat} {r r' : Resolution} {path : Path} {rest : List String} {outer : List Pending}
  {known : List (Path × Option Path)}

/-! ## To the end or into the depth -/

/-- A resolution settles if it does after the answer to its question. -/
theorem settles_ask {call : Call} {resume : Except CallError call.Result → Resolution} {a : Except CallError call.Result}
    (hnext : r.next cwd = .ask call resume) (ha : answer? call = some a) (h : Settles cwd answer? limit (resume a)) :
    Settles cwd answer? limit r := by
  obtain ⟨r', hgoes, hend⟩ := h
  exact ⟨r', Goes.ask hnext ha hgoes, hend⟩

/-- One that is done has come to its end. -/
theorem settles_done (outcome : Except ResolutionError Path) : Settles cwd answer? limit ⟨.done outcome⟩ :=
  ⟨_, Goes.refl _, Or.inl ⟨outcome, rfl⟩⟩

/-- At the end of a target the visit goes on behind the link. -/
theorem visit_pop (cwd : String) (path : Path) (p : Pending) (outer : List Pending) (known : List (Path × Option Path)) :
    visit cwd path [] (p :: outer) known = visit cwd path p.rest outer ((p.link, some path) :: known) := rfl

/-- A visit goes on to a component that names something, or it has come to the end of its components. -/
theorem visit_cases (cwd : String) (path : Path) (rest : List String) (outer : List Pending)
    (known : List (Path × Option Path)) :
    (∃ other part later, skip path rest = (other, part :: later) ∧ later.length < rest.length ∧
      visit cwd path rest outer known = .name ⟨other.anchor, other.names ++ [part]⟩ later outer known) ∨
    ∃ other, skip path rest = (other, []) ∧ visit cwd path rest outer known = visit cwd other [] outer known := by
  have hlength : ∀ {rest path}, (skip path rest).2.length ≤ rest.length := by
    intro rest path
    fun_induction skip path rest with
    | case1 => exact Nat.le_refl _
    | case2 _ _ _ _ ih => exact ih.trans (Nat.le_succ _)
    | case3 _ _ _ ih => exact ih.trans (Nat.le_succ _)
    | case4 => exact Nat.le_refl _
  cases hskip : skip path rest with
  | mk other left =>
    have hleft := hskip ▸ @hlength rest path
    cases left with
    | nil =>
      refine Or.inr ⟨other, rfl, ?_⟩
      cases outer <;> unfold visit <;> rw [hskip] <;> rfl
    | cons part later =>
      refine Or.inl ⟨other, part, later, rfl, hleft, ?_⟩
      unfold visit
      rw [hskip]

variable (hanswer : ∀ call, ∃ a, answer? call = some a)

include hanswer

/-- The last check is one question, and its answer ends the resolution. -/
theorem settles_check (path : Path) : Settles cwd answer? limit ⟨.check path⟩ := by
  have hnext : (⟨.check path⟩ : Resolution).next cwd = .ask (.stat (toString path)) (afterCheck path) := rfl
  obtain ⟨a, ha⟩ := hanswer (.stat (toString path))
  refine settles_ask hnext ha ?_
  unfold afterCheck
  split
  · exact settles_done _
  · split <;> exact settles_done _
  · exact settles_done _

/-- A level is visited to its end if whatever follows it is. -/
theorem settles_visit (hfollows : ∀ path known, Settles cwd answer? limit ⟨visit cwd path [] outer known⟩) (path : Path)
    (rest : List String) (known : List (Path × Option Path)) :
    Settles cwd answer? limit ⟨visit cwd path rest outer known⟩ := by
  induction hbudget : limit - outer.length using Nat.strong_induction_on generalizing outer path rest known with
  | _ budget deeper =>
    -- the components of one level are visited one after another
    induction hlength : rest.length using Nat.strong_induction_on generalizing path rest known with
    | _ length later =>
      rcases visit_cases cwd path rest outer known with ⟨other, part, left, -, hleft, hvisit⟩ | ⟨other, -, hvisit⟩
      · rw [hvisit]
        by_cases hdeep : limit ≤ outer.length
        · exact ⟨_, Goes.refl _, Or.inr hdeep⟩
        generalize (⟨other.anchor, other.names ++ [part]⟩ : Path) = here
        have hnext : (⟨.name here left outer known⟩ : Resolution).next cwd =
            .ask (.lstat (toString here)) (afterName cwd here left outer known) := rfl
        have hlater : ∀ path known, Settles cwd answer? limit ⟨visit cwd path left outer known⟩ := fun path known =>
          later _ (hlength ▸ hleft) path left known rfl
        obtain ⟨a, ha⟩ := hanswer (.lstat (toString here))
        refine settles_ask hnext ha ?_
        unfold afterName
        split
        · exact hlater here known
        · exact settles_done _
        · split
          · exact hlater here known
          · split
            · exact hlater _ known
            · exact settles_check hanswer _
            · -- the target is one level deeper, and the rest of this level follows it
              have hdeeper :
                ∀ path rest known, Settles cwd answer? limit ⟨visit cwd path rest (⟨here, left⟩ :: outer) known⟩ := by
                intro path rest known
                refine deeper _ ?_ (fun path known => ?_) path rest known rfl
                · rw [← hbudget, List.length_cons]
                  omega
                · rw [visit_pop]
                  exact hlater path _
              dsimp only
              split <;> exact hdeeper _ _ _
      · rw [hvisit]
        exact hfollows other known

/-- A resolution comes to its end, or it gets as deep as one likes. -/
theorem settles_start (cwd : String) (limit : Nat) (p : Path) : Settles cwd answer? limit (start cwd p) :=
  settles_visit hanswer (fun _ _ => settles_check hanswer _) _ _ _

omit hanswer

/-! ## Absolute paths -/

/-- Components that have no slash in them. -/
def Whole (rest : List String) : Prop :=
  ∀ part ∈ rest, '/' ∉ part.toList

/-- The components of a text are what stands between its slashes. -/
theorem whole_components (text : List Char) : Whole (components text) := by
  intro part hmem
  obtain ⟨piece, hpiece, rfl⟩ := List.mem_map.mp hmem
  rw [String.toList_ofList]
  exact Text.notMem_of_mem_split hpiece

/-- A resolution visits paths that go straight down from the root, and the links nested in each other are different ones
of a set. -/
structure Nested (all : Set Path) (path : Path) (rest : List String) (outer : List Pending)
    (known : List (Path × Option Path)) : Prop where
  straight : path.Straight
  whole : Whole rest
  links : ∀ p ∈ outer, Whole p.rest ∧ p.link ∈ all ∧ p.link ∈ known.map Prod.fst
  distinct : (outer.map Pending.link).Nodup
  results : ∀ link resolved, (link, some resolved) ∈ known → resolved.Straight

/-- What is left to a resolution is of this kind. -/
def IsNested (all : Set Path) (r : Resolution) : Prop :=
  match r.phase with
  | .name path rest outer known => Nested all path rest outer known
  | _ => True

variable {all : Set Path} {d : Disk} {other : Path} {part : String} {left : List String} {p : Pending}

/-- The directory above a straight path is straight. -/
theorem straight_up (h : path.Straight) : (up path).Straight := by
  unfold up
  split
  · split
    · exact h
    · rename_i habsolute
      exact absurd h.isAbsolute habsolute
  · rename_i name hlast
    rw [if_neg (h.2 name (List.mem_of_getLast? hlast)).2]
    exact ⟨h.1, fun other hmem => h.2 other (List.dropLast_subset _ hmem)⟩

/-- After empty parts, dots and double dots the path is still straight, and a name comes next. -/
theorem straight_skip (h : path.Straight) (hrest : Whole rest) : (skip path rest).1.Straight ∧ Whole (skip path rest).2 ∧
    ∀ part later, (skip path rest).2 = part :: later → Path.IsName part ∧ part ≠ ".." := by
  fun_induction skip path rest with
  | case1 =>
    refine ⟨h, hrest, fun _ _ heq => ?_⟩
    cases heq
  | case2 _ _ _ _ ih => exact ih h fun part hmem => hrest part (List.mem_cons_of_mem _ hmem)
  | case3 _ _ _ ih => exact ih (straight_up h) fun part hmem => hrest part (List.mem_cons_of_mem _ hmem)
  | case4 path part rest hstill hup =>
    refine ⟨h, hrest, fun _ _ heq => ?_⟩
    cases heq
    simp only [Bool.or_eq_true, decide_eq_true_eq, not_or] at hstill
    exact ⟨⟨hstill.1, hstill.2, hrest part List.mem_cons_self⟩, hup⟩

/-- The next name is looked up on a straight path. -/
theorem Nested.name (h : Nested all path rest outer known) (hskip : skip path rest = (other, part :: left)) :
    Nested all ⟨other.anchor, other.names ++ [part]⟩ left outer known := by
  obtain ⟨hstraight, hwhole, hname⟩ := straight_skip h.straight h.whole
  rw [hskip] at hstraight hwhole hname
  refine ⟨⟨hstraight.1, fun name hmem => ?_⟩, fun part hmem => hwhole part (List.mem_cons_of_mem _ hmem), h.links,
    h.distinct, h.results⟩
  rcases List.mem_append.mp hmem with hmem | hmem
  · exact hstraight.2 name hmem
  · obtain rfl := List.mem_singleton.mp hmem
    exact hname _ _ rfl

/-- A target that is resolved leads back to what is left after its link. -/
theorem Nested.pop (h : Nested all path [] (p :: outer) known) : Nested all path p.rest outer ((p.link, some path) :: known) where
  straight := h.straight
  whole := (h.links p List.mem_cons_self).1
  links := by
    intro q hq
    obtain ⟨hwhole, hall, hknown⟩ := h.links q (List.mem_cons_of_mem _ hq)
    exact ⟨hwhole, hall, List.mem_cons_of_mem _ hknown⟩
  distinct := (List.nodup_cons.mp h.distinct).2
  results := by
    intro link resolved hmem
    rcases List.mem_cons.mp hmem with heq | hmem
    · cases heq
      exact h.straight
    · exact h.results link resolved hmem

/-- What a visit leaves is nested as before. -/
theorem Nested.visit (cwd : String) (h : Nested all path rest outer known) :
    IsNested all ⟨visit cwd path rest outer known⟩ := by
  induction outer generalizing path rest known with
  | nil =>
    rcases visit_cases cwd path rest [] known with ⟨other, part, left, hskip, -, hvisit⟩ | ⟨other, -, hvisit⟩
    · rw [hvisit]
      exact h.name hskip
    · rw [hvisit]
      trivial
  | cons p outer ih =>
    rcases visit_cases cwd path rest (p :: outer) known with ⟨other, part, left, hskip, -, hvisit⟩ |
      ⟨other, hskip, hvisit⟩
    · rw [hvisit]
      exact h.name hskip
    · have hother := (straight_skip h.straight h.whole).1
      rw [hskip] at hother
      rw [hvisit, visit_pop]
      exact ih (Nested.pop { h with straight := hother, whole := List.forall_mem_nil _ })

/-- A link that is not known yet comes on top of those that it is nested in. -/
theorem Nested.link (h : Nested all path rest outer known) (hall : path ∈ all) (hnew : known.lookup path = none) {other : Path}
    (hother : other.Straight) {target : List String} (htarget : Whole target) :
    Nested all other target (⟨path, rest⟩ :: outer) ((path, none) :: known) where
  straight := hother
  whole := htarget
  links := by
    intro q hq
    rcases List.mem_cons.mp hq with rfl | hq
    · exact ⟨h.whole, hall, List.mem_cons_self⟩
    · obtain ⟨hwhole, hmem, hknown⟩ := h.links q hq
      exact ⟨hwhole, hmem, List.mem_cons_of_mem _ hknown⟩
  distinct := by
    refine List.nodup_cons.mpr ⟨fun hmem => ?_, h.distinct⟩
    obtain ⟨q, hq, heq⟩ := List.mem_map.mp hmem
    obtain ⟨entry, hentry, hkey⟩ := List.mem_map.mp (h.links q hq).2.2
    have hne := List.lookup_eq_none_iff.mp hnew entry hentry
    rw [hkey, show q.link = path from heq] at hne
    simp at hne
  results := by
    intro link resolved hmem
    rcases List.mem_cons.mp hmem with heq | hmem
    · cases heq
    · exact h.results link resolved hmem

/-- A resolution goes on to nested links only, where every link that it follows is one of the tree. -/
theorem IsNested.goes (h : IsNested {p | Disk.Found d p} r) (hanswers : Capture.Refuses d answer?)
    (hgoes : Goes cwd answer? r r') :
    IsNested {p | Disk.Found d p} r' := by
  induction hgoes with
  | refl => exact h
  | @ask r r' call resume a hnext ha _ ih =>
    refine ih ?_
    obtain ⟨phase⟩ := r
    cases phase with
    | name path rest outer known =>
      cases hnext
      have hnested : Nested {p | Disk.Found d p} path rest outer known := h
      unfold afterName
      split
      · exact hnested.visit cwd
      · trivial
      · rename_i info
        split
        · exact hnested.visit cwd
        · rename_i target htarget
          split
          · rename_i resolved hlookup
            exact Nested.visit cwd { hnested with straight := hnested.results path resolved (Listing.mem_of_lookup hlookup) }
          · trivial
          · -- the link has not been met before, so it may be nested in those that are being resolved
            rename_i hnew
            have hfound : Disk.Found d path := ⟨hnested.straight, Disk.locate_of_lstat (hanswers.answer_of_ok ha)⟩
            dsimp only
            split
            · exact (hnested.link hfound hnew ⟨rfl, List.forall_mem_nil _⟩ (whole_components _)).visit cwd
            · have habove : Path.Straight ⟨path.anchor, path.names.dropLast⟩ :=
                ⟨hnested.straight.1, fun name hmem => hnested.straight.2 name (List.dropLast_subset _ hmem)⟩
              exact (hnested.link hfound hnew habove (whole_components _)).visit cwd
    | check path =>
      cases hnext
      unfold afterCheck
      split
      · trivial
      · split <;> trivial
      · trivial
    | done => cases hnext

/-- Different links of a finite set nest no deeper than there are such links. -/
theorem IsNested.depth_le (h : IsNested all r) (hall : all.Finite) : r.depth ≤ hall.toFinset.card := by
  obtain ⟨phase⟩ := r
  cases phase with
  | name path rest outer known =>
    have hnested : Nested all path rest outer known := h
    have hsubset : (outer.map Pending.link).toFinset ⊆ hall.toFinset := by
      intro link hmem
      obtain ⟨p, hp, rfl⟩ := List.mem_map.mp (List.mem_toFinset.mp hmem)
      exact hall.mem_toFinset.mpr (hnested.links p hp).2.1
    have hcard := Finset.card_le_card hsubset
    rw [List.toFinset_card_of_nodup hnested.distinct, List.length_map] at hcard
    exact hcard
  | _ => exact Nat.zero_le _

/-- The resolution of an absolute path comes to its end, if every question gets the answer of a tree or a refusal. -/
theorem halts_of_absolute {p : Path} (hanswers : Capture.Refuses d answer?) (habsolute : p.isAbsolute = true)
    (hwhole : Whole p.names) (cwd : String) : ∃ r outcome, Goes cwd answer? (start cwd p) r ∧
    r.next cwd = .stop outcome := by
  have hanswer : ∀ call, ∃ a, answer? call = some a := fun call => (hanswers call).imp fun _ ha => ha.1
  obtain ⟨r, hgoes, ⟨outcome, hstop⟩ | hdeep⟩ := settles_start hanswer cwd ((Disk.finite_found d).toFinset.card + 1) p
  · exact ⟨r, outcome, hgoes, hstop⟩
  · have hstart : IsNested {p | Disk.Found d p} (start cwd p) := by
      unfold start
      rw [if_pos habsolute]
      exact Nested.visit cwd ⟨⟨rfl, List.forall_mem_nil _⟩, hwhole, List.forall_mem_nil _, List.nodup_nil,
        fun _ _ hmem => nomatch hmem⟩
    have hle := (hstart.goes hanswers hgoes).depth_le (Disk.finite_found d)
    omega

end Resolution

end DirWatch
