import DirWatch.Proofs.Disk.Following
import DirWatch.Proofs.Resolution.Termination

/-!
# Where a resolution leads

A resolution reads a path by itself, link after link, and remembers what it has resolved. The file system reads the text
of the path without a memory, and gives up after a number of links. Where an absolute text leads to a directory for the
file system, the resolution of its path ends at the place of that directory (`goes_to_place`): whatever the links in the
text are, and whether they are relative or absolute, the names of that place are the result.

`goes_of_follows` is by induction on the number of links. When the resolution turns to the target of a link, it needs
the least number of links that the target takes. If it met the link again within the target, fewer links would do
(`Stuck`); so it never does.
-/

namespace DirWatch.Resolution

open Disk (Follows IsMember aim)

variable {cwd : String} {answer? : (call : Call) → Option (Except CallError call.Result)} {d : Disk} {root : Node}
    {links fewer : Nat}
  {place found names parts rest : List String} {part : String} {path : Path} {outer : List Pending}
  {known known' known'' : List (Path × Option Path)} {r r' r'' : Resolution}

/-- A resolution that goes on from where it has come to goes on from its beginning. -/
theorem Goes.trans (h : Goes cwd answer? r r') (h' : Goes cwd answer? r' r'') : Goes cwd answer? r r'' := by
  induction h with
  | refl => exact h'
  | ask hnext ha _ ih => exact Goes.ask hnext ha (ih h')

/-- A resolution that has begun a way to its end is on that way. -/
theorem Goes.linear {outcome : Except ResolutionError Path} (h : Goes cwd answer? r r')
    (hend : Goes cwd answer? r ⟨.done outcome⟩) :
    Goes cwd answer? r' ⟨.done outcome⟩ := by
  induction h with
  | refl => exact hend
  | ask hnext ha _ ih =>
    cases hend with
    | refl => cases hnext
    | ask hnext' ha' hend =>
      rw [hnext] at hnext'
      cases hnext'
      rw [ha] at ha'
      cases ha'
      exact ih hend

/-- One that is done goes nowhere. -/
theorem Goes.of_done {outcome : Except ResolutionError Path} (h : Goes cwd answer? ⟨.done outcome⟩ r) :
    r = ⟨.done outcome⟩ := by
  cases h with
  | refl => rfl
  | ask hnext _ _ => cases hnext

/-! ## Visits -/

/-- A resolution goes on from the first part that is not skipped. -/
theorem visit_congr {other : Path} (h : skip path rest = skip other parts) :
    visit cwd path rest outer known = visit cwd other parts outer known := by
  unfold visit
  rw [h]

/-- An empty part or a dot leads nowhere. -/
theorem visit_still (hpart : part = "" ∨ part = ".") :
    visit cwd path (part :: rest) outer known = visit cwd path rest outer known := by
  refine visit_congr ?_
  rw [skip, if_pos (by simpa using hpart)]

/-- Two dots lead to the directory above. -/
theorem visit_up (hplace : ".." ∉ place) :
    visit cwd ⟨.root, place⟩ (".." :: rest) outer known = visit cwd ⟨.root, place.dropLast⟩ rest outer known := by
  have hup : up ⟨.root, place⟩ = ⟨.root, place.dropLast⟩ := by
    unfold up
    split
    · rename_i hlast
      obtain rfl : place = [] := List.getLast?_eq_none_iff.mp hlast
      rfl
    · rename_i name hlast
      refine if_neg ?_
      rintro rfl
      exact hplace (List.mem_of_getLast? hlast)
  have hskip : skip ⟨.root, place⟩ (".." :: rest) = skip ⟨.root, place.dropLast⟩ rest := by
    rw [skip, if_neg (by decide), if_pos rfl, hup]
  exact visit_congr hskip

/-- A name is looked up where it stands. -/
theorem visit_member (hpart : IsMember part) :
    visit cwd path (part :: rest) outer known = .name ⟨path.anchor, path.names ++ [part]⟩ rest outer known := by
  have hskip : skip path (part :: rest) = (path, part :: rest) := by
    rw [skip, if_neg (by simp [hpart.nonempty, hpart.not_dot]), if_neg hpart.not_up]
  unfold visit
  rw [hskip]

/-! ## Straight paths -/

/-- The names that lead anywhere in a valid tree are single components, none stands for the directory above, and none
has a NUL character. -/
theorem names_of_descend (hd : d.Valid) {n : Node} (h : d.root.descend? names = some n) :
    ∀ name ∈ names, Path.IsName name ∧ name ≠ ".." ∧ '\x00' ∉ name.toList := by
  have hsome : ∀ {n : Node} {names}, n.Named → (n.descend? names).isSome = true → ∀ name ∈ names, Path.IsName name := by
    intro n names hnamed hsome
    induction names generalizing n with
    | nil => exact List.forall_mem_nil _
    | cons name names ih =>
      obtain ⟨children, m, child, rfl, hget, hrest⟩ := Node.descend?_cons hsome
      obtain ⟨hname, hchild⟩ := hnamed.member (Listing.mem_of_get? hget)
      exact List.forall_mem_cons.mpr ⟨hname, ih hchild hrest⟩
  intro name hmem
  refine ⟨hsome hd.regular.named (by rw [h]; rfl) name hmem, ?_, fun hnul => ?_⟩
  · rintro rfl
    rw [hd.regular.upless names hmem] at h
    cases h
  · rw [hd.legible names ⟨name, hmem, hnul⟩] at h
    cases h

/-- The components of the text of an absolute path are its names, behind empty ones. -/
theorem components_absolute (habsolute : path.isAbsolute = true) (hwhole : Whole path.names) :
    ∃ still, (∀ part ∈ still, part = "") ∧ components (toString path).toList = still ++ path.names := by
  obtain ⟨still, hstill, hsplit⟩ := Disk.split_absolute habsolute hwhole
  refine ⟨still.map String.ofList, fun part hmem => ?_, ?_⟩
  · obtain ⟨piece, hpiece, rfl⟩ := List.mem_map.mp hmem
    rw [hstill piece hpiece]
  · unfold components
    rw [hsplit, List.map_append, List.map_map]
    refine congrArg (still.map String.ofList ++ ·) ?_
    exact (List.map_congr_left fun _ _ => String.ofList_toList).trans (List.map_id _)

/-- A straight path is spelled from the root. -/
theorem anchor_straight (h : path.Straight) : Anchor.ofChars (toString path).toList = .root := by
  obtain ⟨anchor, names⟩ := path
  obtain ⟨rfl, hnames⟩ := h
  cases names with
  | nil => rfl
  | cons name names =>
    obtain ⟨⟨hne, -, hslash⟩, -⟩ := hnames name List.mem_cons_self
    obtain ⟨c, chars, hchars⟩ : ∃ c chars, name.toList = c :: chars := List.exists_cons_of_ne_nil (by simpa using hne)
    have hc : c ≠ '/' := by
      rintro rfl
      exact hslash (by simp [hchars])
    have htext : ∃ more, (toString (⟨.root, name :: names⟩ : Path)).toList = '/' :: c :: more := by
      have hfirst : ∃ more, ("/".intercalate (name :: names)).toList = c :: more := by
        cases names with
        | nil => exact ⟨chars, by simpa using hchars⟩
        | cons => exact ⟨_, by rw [String.intercalate_cons_cons, String.toList_append, String.toList_append, hchars]; rfl⟩
      obtain ⟨more, hmore⟩ := hfirst
      exact ⟨more, by simp [toString, Path.toString, Anchor.text, hmore]⟩
    obtain ⟨more, hmore⟩ := htext
    rw [hmore]
    unfold Anchor.ofChars
    split
    · rename_i heq
      cases heq
      exact absurd rfl hc
    · rename_i heq
      cases heq
      exact absurd rfl hc
    · rfl
    · rename_i hother
      exact absurd rfl (hother _)

/-- A path that goes straight down is what its text reads as. -/
theorem collapse_straight (h : path.Straight) : collapse (toString path) = path := by
  have hpush : ∀ {names read : List String}, (∀ name ∈ names, Path.IsName name ∧ name ≠ "..") →
      names.foldl (pushComponent true) read = names.reverse ++ read := by
    intro names
    induction names with
    | nil => exact fun _ => rfl
    | cons name names ih =>
      intro read hnames
      obtain ⟨⟨⟨hne, hdot, -⟩, hup⟩, hlater⟩ := List.forall_mem_cons.mp hnames
      have hname : pushComponent true read name = name :: read := by simp [pushComponent, hne, hdot, hup]
      rw [List.foldl_cons, hname, ih hlater, List.reverse_cons, List.append_assoc]
      rfl
  have hskip : ∀ {still : List String}, (∀ part ∈ still, part = "") → still.foldl (pushComponent true) [] = [] := by
    intro still
    induction still with
    | nil => exact fun _ => rfl
    | cons part still ih =>
      intro hstill
      obtain ⟨rfl, hlater⟩ := List.forall_mem_cons.mp hstill
      exact ih hlater
  obtain ⟨still, hstill, hcomponents⟩ := components_absolute h.isAbsolute fun name hmem => (h.2 name hmem).1.2.2
  have hnames : (still ++ path.names).foldl (pushComponent true) [] = path.names.reverse := by
    rw [List.foldl_append, hskip hstill, hpush h.2, List.append_nil]
  unfold collapse
  rw [anchor_straight h, hcomponents]
  change Path.mk .root ((still ++ path.names).foldl (pushComponent true) []).reverse = path
  rw [hnames, List.reverse_reverse, ← h.1]

/-- Spelled out, it is read as itself, whatever the current directory. -/
theorem absolute_straight (cwd : String) (h : path.Straight) : absolute cwd (plainText path) = path := by
  have hplain : plainText path = toString path := if_neg fun hplain => by
    rw [h.1] at hplain
    cases hplain.1
  rw [absolute, joinText, if_pos (plainText_absolute h.isAbsolute), hplain, collapse_straight h]

/-- The place of an object in a valid tree is a straight path. -/
theorem straight_of_descend (hd : d.Valid) {n : Node} (h : d.root.descend? names = some n) :
    (⟨.root, names⟩ : Path).Straight :=
  ⟨rfl, fun name hmem => ⟨(names_of_descend hd h name hmem).1, (names_of_descend hd h name hmem).2.1⟩⟩

/-- Its text can be handed to the system. -/
theorem legible_of_descend (hd : d.Valid) {n : Node} (h : d.root.descend? names = some n) :
    '\x00' ∉ (toString (⟨.root, names⟩ : Path)).toList := by
  have hnames := names_of_descend hd h
  clear h
  induction names using List.reverseRecOn with
  | nil => decide
  | append_singleton above name ih =>
    obtain ⟨hname, -, hnul⟩ := hnames name (by simp)
    have hbelow :=
      Path.legible_child (p := ⟨.root, above⟩) hname (ih fun other hmem =>
      hnames other (List.mem_append_left _ hmem)) hnul
    rwa [Path.child_eq_down hname] at hbelow

/-- The place of a directory is that of the path with its names. -/
theorem leads_place (hd : d.Valid) {children : List (String × Node)} {m : Int}
    (h : d.root.descend? names = some (.directory children m)) :
    Disk.Leads d ⟨.root, names⟩ (.directory children m) := by
  induction names using List.reverseRecOn generalizing children m with
  | nil =>
    have hend : Disk.trailEnd d.root [] = .directory children m := Option.some.inj h
    have hfollow : Disk.follow d.root true Disk.maxLinks [] [[], []] = .ok [] := by
      rw [Disk.follow_skip hend (Or.inl rfl), Disk.follow_skip hend (Or.inl rfl), Disk.follow_eq]
      rfl
    have htext : toString (⟨.root, []⟩ : Path) = "/" := by decide
    have hsplit : Text.split '/' (d.absoluteText "/").toList = [[], []] := by
      rw [Disk.absoluteText, if_pos (by decide)]
      decide
    refine ⟨[], ?_⟩
    rw [htext, Disk.locate, if_neg (by decide), hsplit, hfollow, ← hend]
    rfl
  | append_singleton above name ih =>
    obtain ⟨hname, hup, -⟩ := names_of_descend hd h name (by simp)
    obtain ⟨others, m', habove, hget⟩ := Node.descend?_concat h
    have hleads := (ih habove).down hname hup hget fun _ _ => Node.noConfusion
    rwa [Path.child_eq_down hname] at hleads

/-- The path with the names of a place shows what is there, a link too. -/
theorem lstat_place (hd : d.Valid) {n : Node} (h : d.root.descend? (names ++ [part]) = some n) :
    d.answer (.lstat (toString (⟨.root, names ++ [part]⟩ : Path))) = .ok n.info := by
  obtain ⟨hname, hup, -⟩ := names_of_descend hd h part (by simp)
  obtain ⟨children, m, habove, hget⟩ := Node.descend?_concat h
  obtain ⟨place, hlocate⟩ := leads_place hd habove
  have hcontinues := Disk.continues_child d hname (Disk.locate_eq hlocate).1
  rw [Path.child_eq_down hname] at hcontinues
  obtain ⟨place, hmember⟩ : ∃ place, d.locate false (toString (⟨.root, names ++ [part]⟩ : Path)) = .ok (place, n) :=
    hcontinues.locate hlocate hname hup hget (Or.inl rfl)
  have hlegible : ¬(toString (⟨.root, names ++ [part]⟩ : Path)).toList.contains '\x00' = true :=
    fun hnul => legible_of_descend hd h (List.contains_iff_mem.mp hnul)
  unfold Disk.answer
  split
  · rename_i hnul
    exact absurd hnul hlegible
  · dsimp only
    rw [hmember]

/-- A directory is found where it stands. -/
theorem stat_place (hd : d.Valid) {children : List (String × Node)} {m : Int}
    (h : d.root.descend? names = some (.directory children m)) :
    d.answer (.stat (toString (⟨.root, names⟩ : Path))) = .ok (Node.directory children m).info := by
  rcases (leads_place hd h).stat with hnul | hok
  · have hlegible := legible_of_descend hd h
    obtain ⟨o, heq⟩ := @Disk.system_of_legible d (.stat (toString (⟨.root, names⟩ : Path))) hlegible _ hnul
    cases heq
  · exact hok

/-! ## Links and their memory -/

/-- A link whose target leads somewhere, through a number of links at most. -/
def Targets (root : Node) (links : Nat) (link found : List String) : Prop :=
  ∃ target m, root.descend? link = some (.link target m) ∧
    Follows root links (aim link.dropLast target.toList).1 (aim link.dropLast target.toList).2 found

/-- A link leads to one place only. -/
theorem Targets.unique {other : List String} (h : Targets root links names found) (h' : Targets root fewer names other) :
    found = other := by
  obtain ⟨target, m, hlink, hfollows⟩ := h
  obtain ⟨_, _, hlink', hfollows'⟩ := h'
  rw [hlink] at hlink'
  cases hlink'
  exact hfollows.unique hfollows'

/-- Whatever is remembered as resolved is a link, and its target leads there. -/
def Right (root : Node) (known : List (Path × Option Path)) : Prop :=
  ∀ link path, known.lookup link = some (some path) → ∃ links names found, link = ⟨.root, names⟩ ∧
    path = ⟨.root, found⟩ ∧
    Targets root links names found

/-- No link whose target is being resolved leads anywhere through less than a number of links. -/
def Stuck (root : Node) (links : Nat) (known : List (Path × Option Path)) : Prop :=
  ∀ names, known.lookup ⟨.root, names⟩ = some none → ∀ fewer < links, ∀ found, ¬Targets root fewer names found

/-- Of the links whose targets are being resolved, none is new. -/
def NoNew (known known' : List (Path × Option Path)) : Prop :=
  ∀ link, known'.lookup link = some none → known.lookup link = some none

/-- With fewer links allowed it leads nowhere, either. -/
theorem Stuck.mono (h : Stuck root links known) (hle : fewer ≤ links) : Stuck root fewer known :=
  fun names hnames least hleast => h names hnames least (hleast.trans_le hle)

/-- It is enough to look at the links known before, where none is new. -/
theorem Stuck.of_noNew (h : Stuck root links known) (hnew : NoNew known known') : Stuck root links known' :=
  fun names hnames => h names (hnew _ hnames)

/-- The memory when a link is met that was not known: its target takes the least number of links that it can. -/
theorem Stuck.push (h : Stuck root links known) (hle : fewer ≤ links)
    (hleast : ∀ less < fewer, ∀ found, ¬Targets root less names found) :
    Stuck root fewer ((⟨.root, names⟩, none) :: known) := by
  intro others hothers less hless
  by_cases heq : others = names
  · subst heq
    exact hleast less hless
  · have hne : ((⟨.root, others⟩ : Path) == ⟨.root, names⟩) = false := by simpa using heq
    rw [List.lookup_cons, hne] at hothers
    exact h others hothers less (hless.trans_le hle)

/-- A link whose target is being resolved is not yet resolved. -/
theorem Right.push (h : Right root known) : Right root ((path, none) :: known) := by
  intro link resolved hlookup
  rw [List.lookup_cons] at hlookup
  split at hlookup
  · cases hlookup
  · exact h link resolved hlookup

/-- When its target has been resolved, the link is remembered with the place it leads to. -/
theorem Right.pop (h : Right root known) (htargets : Targets root links names found) :
    Right root ((⟨.root, names⟩, some ⟨.root, found⟩) :: known) := by
  intro link resolved hlookup
  rw [List.lookup_cons] at hlookup
  split at hlookup
  · rename_i heq
    cases hlookup
    exact ⟨links, names, found, eq_of_beq heq, rfl, htargets⟩
  · exact h link resolved hlookup

/-- Once the target of a link is resolved, no link is left that was not there before it. -/
theorem NoNew.pop {resolved : Path} (h : NoNew ((path, none) :: known) known') :
    NoNew known ((path, some resolved) :: known') := by
  intro link hlookup
  rw [List.lookup_cons] at hlookup
  split at hlookup
  · cases hlookup
  · rename_i hne
    have hbelow := h link hlookup
    rwa [List.lookup_cons, hne] at hbelow

/-- A link that was not known is resolved from where its target starts. -/
theorem afterName_link (hnew : known.lookup ⟨.root, place ++ [part]⟩ = none) (target : String) (m : Int) :
    afterName cwd ⟨.root, place ++ [part]⟩ rest outer known (.ok (Node.link target m).info) =
      ⟨visit cwd ⟨.root, (aim place target.toList).1⟩ (aim place target.toList).2
        (⟨⟨.root, place ++ [part]⟩, rest⟩ :: outer) ((⟨.root, place ++ [part]⟩, none) :: known)⟩ := by
  unfold afterName
  dsimp only [Node.info]
  rw [hnew]
  dsimp only
  split
  · rename_i htarget
    rw [htarget]
    rfl
  · rename_i hrelative
    rw [Disk.aim_relative hrelative, List.dropLast_concat]

/-! ## The names of a path -/

/-- The names of the path that a text reads as lead where the parts of the text lead. -/
theorem follows_ofString {text : String} (h : Follows root links place (components text.toList) found) :
    Follows root links place (Path.ofString text).names found := by
  have hkeep : ∀ part : String, (part.toList != [] && part.toList != ['.']) = true ↔ ¬(part = "" ∨ part = ".") := by
    intro part
    rw [Bool.and_eq_true, bne_iff_ne, bne_iff_ne, not_or]
    have hdot : part.toList = ['.'] ↔ part = "." := @String.toList_inj part "."
    exact and_congr (not_congr String.toList_eq_nil_iff) (not_congr hdot)
  have hnames : (Path.ofString text).names = (components text.toList).filter fun part =>
    part.toList != [] && part.toList != ['.'] := by
    rw [components, List.filter_map]
    exact congrArg (List.map String.ofList) (List.filter_congr fun _ _ => by simp)
  rw [hnames]
  exact (Follows.filter_iff hkeep).mpr h

/-- The names of an absolute path lead where the parts of its text lead. -/
theorem follows_toString (habsolute : path.isAbsolute = true) (hwhole : Whole path.names)
    (h : Follows root links place (components (toString path).toList) found) : Follows root links place path.names found := by
  obtain ⟨still, hstill, hcomponents⟩ := components_absolute habsolute hwhole
  rw [hcomponents] at h
  clear hcomponents
  induction still with
  | nil => exact h
  | cons part still ih =>
    obtain ⟨hpart, hlater⟩ := List.forall_mem_cons.mp hstill
    exact ih (h.of_still (Or.inl hpart)) hlater

/-! ## The result -/

/-- A path that leads from the root through directories, without links, and that is its own resolution. -/
structure IsCanonical (d : Disk) (path : Path) : Prop where
  straight : path.Straight
  real : ∀ above, above <+: path.names → ∃ children m, d.root.descend? above = some (.directory children m)
  again : ∀ cwd, Goes cwd (fun call => some (d.answer call)) (start cwd path) ⟨.done (.ok path)⟩

variable (hd : d.Valid) (hanswers : ∀ call, answer? call = some (d.answer call))

include hd hanswers

/-- A member is looked at on the way. -/
theorem goes_member {n : Node} (hpart : IsMember part) (hmember : d.root.descend? (place ++ [part]) = some n)
    (h : Goes cwd answer? (afterName cwd ⟨.root, place ++ [part]⟩ rest outer known (.ok n.info)) r) :
    Goes cwd answer? ⟨visit cwd ⟨.root, place⟩ (part :: rest) outer known⟩ r := by
  rw [visit_member hpart]
  have hask := hanswers (.lstat (toString (⟨.root, place ++ [part]⟩ : Path)))
  rw [lstat_place hd hmember] at hask
  exact Goes.ask rfl hask h

/-- A visit goes on to where the parts that are left lead. -/
theorem goes_of_follows (h : Follows d.root links place parts found) (hplace : ".." ∉ place) (hright : Right d.root known)
    (hstuck : Stuck d.root links known) :
    ∃ known', Goes cwd answer? ⟨visit cwd ⟨.root, place⟩ parts outer known⟩
    ⟨visit cwd ⟨.root, found⟩ [] outer known'⟩ ∧
      Right d.root known' ∧ NoNew known known' := by
  induction links using Nat.strong_induction_on generalizing place parts found outer known with
  | _ links fewerlinks =>
    -- up to the next link the parts are visited one after another
    induction parts generalizing place known with
    | nil =>
      cases h
      exact ⟨known, Goes.refl _, hright, fun _ h => h⟩
    | cons part rest ih =>
      cases h with
      | still hpart h =>
        rw [visit_still hpart]
        exact ih h hplace hright hstuck
      | up h =>
        rw [visit_up hplace]
        exact ih h (fun hmem => hplace (List.dropLast_subset _ hmem)) hright hstuck
      | @member _ _ _ _ _ child hpart hmember hreal h =>
        have hnext : ".." ∉ place ++ [part] := by
          simpa [hplace] using hpart.not_up.symm
        obtain ⟨known', hgoes, hend⟩ := ih h hnext hright hstuck
        refine ⟨known', goes_member hd hanswers hpart hmember ?_, hend⟩
        cases child with
        | link target m => exact absurd rfl (hreal target m)
        | _ => exact hgoes
      | @link fewer _ _ _ _ target m middle hpart hmember htarget h =>
        have htargets : ∀ {links}, Targets d.root links (place ++ [part]) middle ↔
            Follows d.root links (aim place target.toList).1 (aim place target.toList).2 middle := by
          intro links
          unfold Targets
          rw [hmember, List.dropLast_concat]
          constructor
          · rintro ⟨_, _, heq, hfollows⟩
            cases heq
            exact hfollows
          · exact fun hfollows => ⟨target, m, rfl, hfollows⟩
        have hstart : ".." ∉ (aim place target.toList).1 := Disk.aim_upless hplace _
        have hmiddle : ".." ∉ middle := htarget.upless hstart
        have hrest : ∀ {known}, Right d.root known → Stuck d.root fewer known →
            ∃ known', Goes cwd answer? ⟨visit cwd ⟨.root, middle⟩ rest outer known⟩
              ⟨visit cwd ⟨.root, found⟩ [] outer known'⟩ ∧
              Right d.root known' ∧ NoNew known known' :=
          fun hright hstuck => fewerlinks fewer (Nat.lt_succ_self _) h hmiddle hright hstuck
        cases hlookup : known.lookup ⟨.root, place ++ [part]⟩ with
        | some entry =>
          cases entry with
          | none =>
            -- a link within its own target
            exact absurd (htargets.mpr htarget) (hstuck _ hlookup fewer (Nat.lt_succ_self _) middle)
          | some resolved =>
            obtain ⟨_, names, other, heq, rfl, hother⟩ := hright _ _ hlookup
            cases heq
            obtain rfl := (htargets.mpr htarget).unique hother
            obtain ⟨known', hgoes, hend⟩ := hrest hright (hstuck.mono (Nat.le_succ _))
            refine ⟨known', goes_member hd hanswers hpart hmember ?_, hend⟩
            unfold afterName
            dsimp only [Node.info]
            rw [hlookup]
            exact hgoes
        | none =>
          classical
          -- the target is resolved with the least number of links, so that none of them leads back
          have hsome : ∃ links, ∃ found, Targets d.root links (place ++ [part]) found :=
            ⟨fewer, middle, htargets.mpr htarget⟩
          obtain ⟨other, hother⟩ := Nat.find_spec hsome
          have hle : Nat.find hsome ≤ fewer := Nat.find_min' hsome ⟨middle, htargets.mpr htarget⟩
          obtain rfl := (htargets.mpr htarget).unique hother
          have hlinks : Nat.find hsome < fewer + 1 := Nat.lt_succ_of_le hle
          obtain ⟨known', hgoes, hright', hnew⟩ := fewerlinks (Nat.find hsome) hlinks (htargets.mp hother) hstart hright.push
            (hstuck.push hlinks.le fun less hless found hfound => Nat.find_min hsome hless ⟨found, hfound⟩)
          obtain ⟨known'', hgoes', hright'', hnew'⟩ := hrest (hright'.pop hother)
            ((hstuck.of_noNew hnew.pop).mono (Nat.le_succ _))
          refine ⟨known'', goes_member hd hanswers hpart hmember ?_, hright'',
            fun link hlink => hnew.pop _ (hnew' link hlink)⟩
          rw [afterName_link hlookup]
          exact hgoes.trans hgoes'

/-- Where the names of an absolute path lead to a directory, its resolution comes to the place of that directory. -/
theorem goes_to_place (habsolute : path.isAbsolute = true) (h : Follows d.root links [] path.names found)
    {children : List (String × Node)} {m : Int} (hfound : d.root.descend? found = some (.directory children m)) :
    Goes cwd answer? (start cwd path) ⟨.done (.ok ⟨.root, found⟩)⟩ := by
  have hstart : start cwd path = ⟨visit cwd ⟨.root, []⟩ path.names [] []⟩ := by
    unfold start
    rw [if_pos habsolute]
  have hcheck : ∀ known, visit cwd ⟨.root, found⟩ [] [] known = .check ⟨.root, found⟩ := fun _ =>
    congrArg Phase.check (absolute_straight cwd (straight_of_descend hd hfound))
  obtain ⟨known', hgoes, -⟩ : ∃ known',
      Goes cwd answer? ⟨visit cwd ⟨.root, []⟩ path.names [] []⟩ ⟨visit cwd ⟨.root, found⟩ [] [] known'⟩ ∧
        Right d.root known' ∧ NoNew [] known' :=
    goes_of_follows hd hanswers h List.not_mem_nil (fun _ _ hlookup => nomatch hlookup) (fun _ hlookup => nomatch hlookup)
  have hask := hanswers (.stat (toString (⟨.root, found⟩ : Path)))
  rw [stat_place hd hfound] at hask
  have hdone : Goes cwd answer? ⟨.check ⟨.root, found⟩⟩ ⟨.done (.ok ⟨.root, found⟩)⟩ :=
    Goes.ask rfl hask (Goes.refl _)
  rw [hcheck] at hgoes
  rw [hstart]
  exact hgoes.trans hdone

omit hanswers in
/-- The path with the names of a directory from the root is canonical. -/
theorem canonical_of_descend {children : List (String × Node)} {m : Int}
    (hfound : d.root.descend? found = some (.directory children m)) :
    IsCanonical d ⟨.root, found⟩ := by
  have hnames := names_of_descend hd hfound
  have hreal : ∀ above, above <+: found → ∃ children m, d.root.descend? above = some (.directory children m) :=
    fun _ habove => Node.descend?_prefix hfound habove
  have hfollows : Follows d.root 0 [] found ([] ++ found) := by
    refine Follows.straight (fun name hmem => ⟨(hnames name hmem).1.1, (hnames name hmem).1.2.1, (hnames name hmem).2.1⟩) ?_
    intro above habove
    obtain ⟨children, m, hdirectory⟩ := hreal above habove
    exact ⟨_, hdirectory, fun _ _ => Node.noConfusion⟩
  exact ⟨straight_of_descend hd hfound, hreal, fun cwd => goes_to_place hd (fun _ => rfl) rfl hfollows hfound⟩

end DirWatch.Resolution
