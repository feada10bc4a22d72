import DirWatch.Resolution
import DirWatch.Proofs.Listing
import DirWatch.Proofs.Path

/-!
# The links that a resolution meets

A resolution looks at one component after another, and all that counts is whether it is a link, and where to. `Reads r
seen r'` says that a resolution has gone on from `r` to `r'` and what it has seen of links on the way. If a path is
absolute, two resolutions of it that find the same links come to the same result, whatever else has changed between them
and whatever the current directories are (`Reads.same_result`).
-/

namespace DirWatch.Resolution

/-- The target of an object as an answer tells it. What cannot be looked at is taken for no link. -/
def linkOf : Except CallError Info → Option String
  | .ok info => info.target
  | .error _ => none

/-- A resolution goes on through questions and their answers. The paths that it looks at for links come with what it has
seen. -/
inductive Reads : Resolution → List (String × Option String) → Resolution → Prop
  | refl (r : Resolution) : Reads r [] r
  | link {cwd text : String} {r r' : Resolution} {resume : Except CallError Info → Resolution} {answer : Except CallError Info}
      {seen : List (String × Option String)} (hnext : r.next cwd = .ask (.lstat text) resume)
      (h : Reads (resume answer) seen r') :
      Reads r ((text, linkOf answer) :: seen) r'
  | result {cwd text : String} {r r' : Resolution} {resume : Except CallError Info → Resolution}
      {answer : Except CallError Info} {seen : List (String × Option String)} (hnext : r.next cwd = .ask (.stat text) resume)
      (h : Reads (resume answer) seen r') :
      Reads r seen r'

variable {cwd cwd' : String} {path : Path} {rest : List String} {outer : List Pending} {known : List (Path × Option Path)}
  {r r' r'' : Resolution} {seen seen' : List (String × Option String)}

/-- What a resolution sees later comes after what it has seen. -/
theorem Reads.trans (h : Reads r seen r') (h' : Reads r' seen' r'') : Reads r (seen ++ seen') r'' := by
  induction h with
  | refl => exact h'
  | link hnext _ ih => exact Reads.link hnext (ih h')
  | result hnext _ ih => exact Reads.result hnext (ih h')

/-! ## Failures -/

/-- A visit does not end a resolution. -/
theorem visit_ne_done (cwd : String) (path : Path) (rest : List String) (outer : List Pending)
    (known : List (Path × Option Path)) (outcome : Except ResolutionError Path) :
    visit cwd path rest outer known ≠ .done outcome := by
  induction outer generalizing path rest known with
  | nil =>
    unfold visit
    split
    · exact Phase.noConfusion
    · exact Phase.noConfusion
    · rename_i heq
      cases heq
  | cons p outer ih =>
    unfold visit
    split
    · exact Phase.noConfusion
    · rename_i heq
      cases heq
    · rename_i heq
      cases heq
      exact ih _ _ _

/-- What ends a resolution with an error is an error: at the result the refusal that tells of a circle, and anywhere
else none of the system. -/
theorem error_of_failed {call : Call} {resume : Except CallError call.Result → Resolution} {a : Except CallError call.Result}
    {e : ResolutionError} (hnext : r.next cwd = .ask call resume) (h : resume a = ⟨.done (.error e)⟩) :
    ∃ cause, a = .error cause ∧
      ((e = .call cause ∧ ∀ o, cause ≠ .system o) ∨
        ∃ path o, e = .linkLoop path ∧ call = .stat (toString path) ∧ cause = .system o ∧ o.reason = .tooManyLinks) := by
  have hvisit : ∀ {path rest outer known}, (⟨visit cwd path rest outer known⟩ : Resolution) ≠ ⟨.done (.error e)⟩ :=
    fun heq => visit_ne_done cwd _ _ _ _ _ (congrArg Resolution.phase heq)
  obtain ⟨phase⟩ := r
  cases phase with
  | name path rest outer known =>
    cases hnext
    unfold afterName at h
    split at h
    · exact absurd h hvisit
    · rename_i cause hother
      cases h
      exact ⟨cause, rfl, Or.inl ⟨rfl, hother⟩⟩
    · split at h
      · exact absurd h hvisit
      · split at h
        · exact absurd h hvisit
        · cases h
        · dsimp only at h
          split at h <;> exact absurd h hvisit
  | check path =>
    cases hnext
    unfold afterCheck at h
    split at h
    · cases h
    · rename_i o
      split at h
      · rename_i ho
        cases h
        exact ⟨_, rfl, Or.inr ⟨path, o, rfl, rfl, rfl, ho⟩⟩
      · cases h
    · rename_i cause hother
      cases h
      exact ⟨cause, rfl, Or.inl ⟨rfl, hother⟩⟩
  | done => cases hnext

/-! ## Absolute paths -/

/-- The links whose resolution is known have absolute paths. -/
def KnownAbsolute (known : List (Path × Option Path)) : Prop :=
  ∀ link resolved, (link, some resolved) ∈ known → resolved.isAbsolute = true

/-- What is left to a resolution does not depend on the current directory. -/
def IsAbsolute (r : Resolution) : Prop :=
  match r.phase with
  | .name path _ _ known => path.isAbsolute = true ∧ KnownAbsolute known
  | _ => True

/-- The directory above an absolute path is absolute. -/
theorem isAbsolute_up (h : path.isAbsolute = true) : (up path).isAbsolute = true := by
  unfold up
  split
  · rw [if_pos h]
    exact h
  · split <;> exact h

/-- Skipping parts leaves an absolute path absolute. -/
theorem isAbsolute_skip (h : path.isAbsolute = true) (rest : List String) : (skip path rest).1.isAbsolute = true := by
  fun_induction skip path rest with
  | case1 => exact h
  | case2 _ _ _ _ ih => exact ih h
  | case3 _ _ _ ih => exact ih (isAbsolute_up h)
  | case4 => exact h

/-- An absolute text is seen alike from everywhere. -/
theorem absolute_congr {text : String} (h : text.toList.head? = some '/') : absolute cwd' text = absolute cwd text := by
  unfold absolute joinText
  rw [if_pos h, if_pos h]

/-- The text of an absolute path begins with a slash. -/
theorem plainText_absolute (h : path.isAbsolute = true) : (plainText path).toList.head? = some '/' := by
  have hanchor : path.anchor ≠ .relative := of_decide_eq_true h
  unfold plainText
  rw [if_neg fun hplain => hanchor hplain.1]
  exact Path.isAbsolute_toString h

/-- So does a text joined to one that does. -/
theorem joinText_absolute {directory : String} (h : directory.toList.head? = some '/') (text : String) :
    (joinText directory text).toList.head? = some '/' := by
  have hhead : ∀ {more : List Char}, (directory.toList ++ more).head? = some '/' := by
    intro more
    rw [List.head?_append, h]
    rfl
  unfold joinText
  split
  · assumption
  · split <;> simp only [String.toList_append, List.append_assoc] <;> exact hhead

/-- A visit on from an absolute path does not ask for the current directory, and leaves none to be asked for. -/
theorem visit_absolute (cwd cwd' : String) (hpath : path.isAbsolute = true) (hknown : KnownAbsolute known)
    (rest : List String) (outer : List Pending) :
    IsAbsolute ⟨visit cwd path rest outer known⟩ ∧ visit cwd' path rest outer known = visit cwd path rest outer known := by
  induction outer generalizing path rest known with
  | nil =>
    have hskip := isAbsolute_skip hpath rest
    unfold visit
    split
    · rename_i hrest
      rw [hrest] at hskip
      exact ⟨⟨hskip, hknown⟩, rfl⟩
    · rename_i hrest _
      rw [hrest] at hskip
      exact ⟨trivial, congrArg Phase.check (absolute_congr (plainText_absolute hskip))⟩
    · rename_i heq
      cases heq
  | cons p outer ih =>
    have hskip := isAbsolute_skip hpath rest
    unfold visit
    split
    · rename_i hrest
      rw [hrest] at hskip
      exact ⟨⟨hskip, hknown⟩, rfl⟩
    · rename_i heq
      cases heq
    · rename_i hrest heq
      cases heq
      rw [hrest] at hskip
      refine ih hskip ?_ _
      intro link resolved hmem
      rcases List.mem_cons.mp hmem with heq | hmem
      · cases heq
        exact hskip
      · exact hknown link resolved hmem

/-- Nor does a path that is given up as it stands. -/
theorem giveUp_absolute (hpath : path.isAbsolute = true) (rest : List String) (outer : List Pending) :
    giveUp cwd' path rest outer = giveUp cwd path rest outer := by
  have hfold : ∀ (rests : List (List String)) {text : String}, text.toList.head? = some '/' →
      (rests.foldl (fun text rest => joinText text (restText rest)) text).toList.head? = some '/' := by
    intro rests
    induction rests with
    | nil => exact fun h => h
    | cons rest rests ih => exact fun h => ih (joinText_absolute h _)
  exact congrArg Phase.check (absolute_congr (hfold _ (plainText_absolute hpath)))

/-- The resolution of an absolute path does not depend on the current directory. -/
theorem start_absolute (h : path.isAbsolute = true) : (start cwd path).IsAbsolute ∧ start cwd' path = start cwd path := by
  have hroot : (if path.isAbsolute then Anchor.root else Anchor.relative) = Anchor.root := if_pos h
  unfold start
  rw [hroot]
  have hvisit := @visit_absolute ⟨.root, []⟩ [] cwd cwd' rfl (fun _ _ hmem => nomatch hmem) path.names []
  exact ⟨hvisit.1, congrArg Resolution.mk hvisit.2⟩

/-- So the answer about a name leaves a resolution that does not depend on the current directory, either. -/
theorem afterName_absolute (cwd cwd' : String) (hpath : path.isAbsolute = true) (hknown : KnownAbsolute known)
    (rest : List String) (outer : List Pending) (answer : Except CallError Info) :
    (afterName cwd path rest outer known answer).IsAbsolute ∧
      afterName cwd' path rest outer known answer = afterName cwd path rest outer known answer := by
  have hvisit : ∀ {path rest outer known}, path.isAbsolute = true → KnownAbsolute known →
      IsAbsolute ⟨visit cwd path rest outer known⟩ ∧
        (⟨visit cwd' path rest outer known⟩ : Resolution) = ⟨visit cwd path rest outer known⟩ := by
    intro path rest outer known hpath hknown
    have h := visit_absolute cwd cwd' hpath hknown rest outer
    exact ⟨h.1, congrArg Resolution.mk h.2⟩
  cases answer with
  | error e =>
    cases e with
    | system e => exact hvisit hpath hknown
    | _ => exact ⟨trivial, rfl⟩
  | ok info =>
    unfold afterName
    dsimp only
    cases info.target with
    | none => exact hvisit hpath hknown
    | some target =>
      dsimp only
      split
      · rename_i resolved hlookup
        exact hvisit (hknown _ _ (Listing.mem_of_lookup hlookup)) hknown
      · exact ⟨trivial, congrArg Resolution.mk (giveUp_absolute hpath rest outer)⟩
      · have hmore : KnownAbsolute ((path, none) :: known) := by
          intro link resolved hmem
          rcases List.mem_cons.mp hmem with heq | hmem
          · cases heq
          · exact hknown link resolved hmem
        split
        · exact hvisit rfl hmore
        · exact hvisit hpath hmore

/-! ## The result -/

/-- Answers that tell the same of a link have the same effect, unless one of them ends everything. -/
theorem afterName_alike (cwd : String) (path : Path) (rest : List String) (outer : List Pending)
    (known : List (Path × Option Path)) {answer answer' : Except CallError Info} (h : linkOf answer = linkOf answer') :
    afterName cwd path rest outer known answer = afterName cwd path rest outer known answer' ∨
      (∃ e, afterName cwd path rest outer known answer = ⟨.done (.error e)⟩) ∨
      ∃ e, afterName cwd path rest outer known answer' = ⟨.done (.error e)⟩ := by
  have hplain : ∀ {answer : Except CallError Info}, linkOf answer = none →
      afterName cwd path rest outer known answer = ⟨visit cwd path rest outer known⟩ ∨
        ∃ e, afterName cwd path rest outer known answer = ⟨.done (.error e)⟩ := by
    intro answer hnone
    cases answer with
    | error e =>
      cases e with
      | system e => exact Or.inl rfl
      | _ => exact Or.inr ⟨_, rfl⟩
    | ok info =>
      have htarget : info.target = none := hnone
      unfold afterName
      dsimp only
      rw [htarget]
      exact Or.inl rfl
  cases hlink : linkOf answer with
  | none =>
    rcases hplain hlink with heq | hfailed
    · rcases hplain (h ▸ hlink) with heq' | hfailed'
      · exact Or.inl (heq.trans heq'.symm)
      · exact Or.inr (Or.inr hfailed')
    · exact Or.inr (Or.inl hfailed)
  | some target =>
    cases answer with
    | error e => cases hlink
    | ok info =>
      cases answer' with
      | error e => cases h.symm.trans hlink
      | ok info' =>
        have htarget : info.target = info'.target := h
        unfold afterName
        dsimp only
        rw [htarget]
        exact Or.inl rfl

/-- A question about a link comes from a name of the path. -/
theorem next_link {text : String} {resume : Except CallError Info → Resolution} (h : r.next cwd = .ask (.lstat text) resume) :
    ∃ path rest outer known, r = ⟨.name path rest outer known⟩ ∧ text = toString path ∧
    resume = afterName cwd path rest outer known := by
  obtain ⟨phase⟩ := r
  cases phase with
  | name path rest outer known =>
    cases h
    exact ⟨path, rest, outer, known, rfl, rfl, rfl⟩
  | _ => cases h

/-- A question about an object comes from the last check of the result. -/
theorem next_result {text : String} {resume : Except CallError Info → Resolution} (h : r.next cwd = .ask (.stat text) resume) :
    ∃ path, r = ⟨.check path⟩ ∧ text = toString path ∧ resume = afterCheck path := by
  obtain ⟨phase⟩ := r
  cases phase with
  | check path =>
    cases h
    exact ⟨path, rfl, rfl, rfl⟩
  | _ => cases h

/-- A resolution stops when it is done. -/
theorem next_stop {outcome : Except ResolutionError Path} (h : r.next cwd = .stop outcome) : r = ⟨.done outcome⟩ := by
  obtain ⟨phase⟩ := r
  cases phase with
  | done =>
    cases h
    rfl
  | _ => cases h

/-- After that it reads no more. -/
theorem Reads.of_done {outcome : Except ResolutionError Path} (h : Reads ⟨.done outcome⟩ seen r) :
    r = ⟨.done outcome⟩ := by
  cases h with
  | refl => rfl
  | link hnext _ => cases hnext
  | result hnext _ => cases hnext

/-- A resolution that has come to its result asks for nothing but that. -/
theorem Reads.of_check {result : Path} (h : Reads ⟨.check path⟩ seen ⟨.done (.ok result)⟩) : result = path := by
  cases h with
  | link hnext _ => cases hnext
  | @result _ _ _ _ resume answer _ hnext h =>
    cases hnext
    unfold afterCheck at h
    split at h
    · cases h.of_done
      rfl
    · split at h
      · cases h.of_done
      · cases h.of_done
        rfl
    · cases h.of_done

/-- Two resolutions of an absolute path come to the same result if they find the same links. -/
theorem Reads.same_result {path' : Path} (h : Reads r seen ⟨.done (.ok path)⟩) (h' : Reads r seen' ⟨.done (.ok path')⟩)
    (hr : r.IsAbsolute) (hlinks : ∀ text link link', (text, link) ∈ seen → (text, link') ∈ seen' → link = link') :
    path = path' := by
  generalize hend : (⟨.done (.ok path)⟩ : Resolution) = r' at h
  induction h generalizing seen' with
  | refl r =>
    subst hend
    cases h'.of_done
    rfl
  | @link cwd text r r' resume answer seen hnext h ih =>
    subst hend
    obtain ⟨p, rest, outer, known, rfl, rfl, rfl⟩ := next_link hnext
    cases h' with
    | result hnext' _ => cases hnext'
    | @link cwd' text' _ _ resume' answer' seen' hnext' h' =>
      cases hnext'
      obtain ⟨hpath, hknown⟩ := hr
      have hlink : linkOf answer = linkOf answer' := hlinks _ _ _ List.mem_cons_self List.mem_cons_self
      obtain ⟨habsolute, heq⟩ := afterName_absolute cwd cwd' hpath hknown rest outer answer'
      rw [heq] at h'
      rcases afterName_alike cwd p rest outer known hlink with hsame | ⟨e, hfailed⟩ | ⟨e, hfailed⟩
      · rw [← hsame] at h' habsolute
        exact ih h' habsolute (fun text link link' hmem hmem' =>
          hlinks text link link' (List.mem_cons_of_mem _ hmem) (List.mem_cons_of_mem _ hmem')) rfl
      · rw [hfailed] at h
        cases h.of_done
      · rw [hfailed] at h'
        cases h'.of_done
  | @result cwd text r r' resume answer seen hnext h ih =>
    subst hend
    obtain ⟨result, rfl, -, -⟩ := next_result hnext
    rw [(Reads.result hnext h).of_check, h'.of_check]

end DirWatch.Resolution
