import DirWatch.Proofs.Capture.Determinism
import DirWatch.Proofs.Disk.Descent

/-!
# Captures come to an end

In a tree without a member that stands for the directory above it, every capture comes to an end, if each of its
questions gets the answer of the tree or fails (`halts_of_regular`). What is still to be listed are directories of the
tree, one below another: a directory is listed to its end with everything below it, whatever has still to be listed
after it (`Clears.directory`). The induction is on the directory.
-/

namespace DirWatch

/-- No name below an object is the one that stands for the directory above. -/
def Node.Upless (n : Node) : Prop :=
  ∀ names, ".." ∈ names → n.descend? names = none

/-- A tree as it can stand in a file system: every name is a single component, and none stands for the directory above. -/
structure Disk.Regular (d : Disk) : Prop where
  named : d.Named
  upless : d.root.Upless

/-- No name in the directory stands for the one above, and the same holds of what stands there. -/
theorem Node.Upless.child {children : List (String × Node)} {m : Int} {name : String} {n : Node}
    (h : (Node.directory children m).Upless) (hget : Listing.get? children name = some n) : name ≠ ".." ∧ n.Upless := by
  have hdescend : ∀ names, (Node.directory children m).descend? (name :: names) = n.descend? names := by
    intro names
    rw [descend?, hget]
    rfl
  refine ⟨?_, fun names hmem => (hdescend names).symm.trans (h _ (List.mem_cons_of_mem _ hmem))⟩
  rintro rfl
  have hnone := h [".."] (List.mem_singleton_self _)
  rw [hdescend] at hnone
  cases hnone

/-- That is enough for a directory. -/
theorem Node.upless_directory {children : List (String × Node)} {m : Int}
    (h : ∀ name n, (name, n) ∈ children → name ≠ ".." ∧ n.Upless) : (Node.directory children m).Upless := by
  intro names hmem
  cases names with
  | nil => cases hmem
  | cons name names =>
    rw [descend?]
    cases hget : Listing.get? children name with
    | none => rfl
    | some n =>
      obtain ⟨hup, hn⟩ := h name n (Listing.mem_of_get? hget)
      exact hn names ((List.mem_cons.mp hmem).resolve_left fun heq => hup heq.symm)

/-- What is known of a path with the links followed is known of an object of the tree. -/
theorem Disk.locate_of_stat {d : Disk} {text : String} {info : Info} (h : d.answer (.stat text) = .ok info) :
    ∃ place n, d.locate true text = .ok (place, n) ∧ info = n.info := by
  unfold answer at h
  split at h
  · cases h
  · dsimp only at h
    split at h
    · cases h
    · rename_i place n hlocate
      cases h
      exact ⟨place, n, hlocate, rfl⟩

namespace Capture

/-- Every question gets the answer of a tree, or it fails. -/
def Truthful (d : Disk) (answer? : (call : Call) → Option (Except CallError call.Result)) : Prop :=
  ∀ call, ∃ a, answer? call = some a ∧ (a = d.answer call ∨ ∃ e, a = .error e)

variable {d : Disk} {answer? : (call : Call) → Option (Except CallError call.Result)} {c : Capture} {p root : Path}
  {pending : List Path} {children : List (String × Node)} {m : Int}

variable (answer?) in
/-- A capture comes to an end. -/
def Halts (c : Capture) : Prop :=
  ∃ outcome, Ends answer? c outcome

variable (answer?) in
/-- Captures come to an end that have these directories still to list. -/
def Clears (pending : List Path) : Prop :=
  ∀ (c : Capture) mtime listed, Halts answer? (c.descend { mtime, pending, listed })

/-- A capture that finishes has come to its end. -/
theorem halts_finish (c : Capture) (outcome : Except CaptureError Snapshot) : Halts answer? (c.finish outcome) :=
  ⟨outcome, Ends.stop rfl⟩

/-- A capture comes to its end if it does after the answer to its question. -/
theorem halts_ask {call : Call} {resume : Except CallError call.Result → Capture × List Notice}
    (hnext : c.next = .ask call resume) {a : Except CallError call.Result} (ha : answer? call = some a)
    (h : Halts answer? (resume a).1) : Halts answer? c := by
  obtain ⟨outcome, hends⟩ := h
  exact ⟨outcome, Ends.ask hnext ha hends⟩

/-- With no directory left, a capture is put together. -/
theorem clears_nil : Clears answer? [] :=
  fun c _ _ => halts_finish c _

/-! ## One directory -/

/-- What was seen as a directory is one in the tree, under a real name. -/
def Found (children : List (String × Node)) (seen : Listing Seen) : Prop :=
  ∀ name one, (name, one) ∈ seen → one.isDirectory = true → Path.IsName name ∧ name ≠ ".." ∧
    ∃ below m, Listing.get? children name = some (.directory below m)

section

variable (htrue : Truthful d answer?) (hleads : Disk.Leads d p (.directory children m))

include hleads

/-- A directory whose directories come to an end is examined to its end. -/
theorem clears_below {seen : Listing Seen} (hfound : Found children seen) (h : Clears answer? pending)
    (hbelow : ∀ {name below m pending}, Listing.get? children name = some (.directory below m) →
      Disk.Leads d (p.child name) (.directory below m) → Clears answer? pending → Clears answer? (p.child name :: pending)) :
    Clears answer? (((seen.filter fun m => m.2.isDirectory).map fun m => p.child m.1) ++ pending) := by
  induction seen with
  | nil => exact h
  | cons first seen ih =>
    obtain ⟨name, one⟩ := first
    have hrest := ih fun name one hmem => hfound name one (List.mem_cons_of_mem _ hmem)
    rw [List.filter_cons]
    split
    · rename_i hdirectory
      obtain ⟨hname, hup, below, m, hget⟩ := hfound name one List.mem_cons_self hdirectory
      exact hbelow hget (hleads.down hname hup hget fun _ _ heq => nomatch heq) hrest
    · exact hrest

include htrue

/-- The members of a directory are looked at to the last. -/
theorem halts_examine {waiting : List String} {seen : Listing Seen} {mtime : Int} {listed : List (Path × Listing Seen)}
    (hwaiting : ∀ name ∈ waiting, Path.IsName name ∧ name ≠ ".." ∧ ∃ n, Listing.get? children name = some n)
    (hfound : Found children seen)
    (hends : ∀ seen listed, Found children seen → Halts answer? (c.examine p [] seen { mtime, pending, listed })) :
    Halts answer? (c.examine p waiting seen { mtime, pending, listed }) := by
  induction waiting generalizing seen with
  | nil => exact hends seen listed hfound
  | cons name waiting ih =>
    obtain ⟨hname, hup, n, hget⟩ := hwaiting name List.mem_cons_self
    have hrest : ∀ {seen}, Found children seen → Halts answer? (c.examine p waiting seen { mtime, pending, listed }) :=
      ih fun name hmem => hwaiting name (List.mem_cons_of_mem _ hmem)
    obtain ⟨a, ha, hreal⟩ := htrue (.member (memberText (toString p) name))
    refine halts_ask rfl ha ?_
    cases a with
    | error e =>
      cases e with
      | system e => exact hrest hfound
      | _ => exact halts_finish _ _
    | ok info =>
      refine hrest fun other one hmem hdirectory => ?_
      rcases List.mem_cons.mp hmem with heq | hmem
      · cases heq
        obtain hreal | ⟨e, herror⟩ := hreal
        · rcases hleads.member hname hup hget with hanswer | hanswer
          · rw [hanswer] at hreal
            cases hreal
          · rw [hanswer] at hreal
            cases hreal
            cases n with
            | directory below m => exact ⟨hname, hup, below, m, hget⟩
            | _ => cases hdirectory
        · cases herror
      · exact hfound other one hmem hdirectory

end

/-- A directory is listed to its end, with everything below it. -/
theorem Clears.directory (htrue : Truthful d answer?) {n : Node} (hdirectory : n = .directory children m)
    (hleads : Disk.Leads d p n) (hnamed : n.Named) (hupless : n.Upless) (h : Clears answer? pending) :
    Clears answer? (p :: pending) := by
  induction hsize : sizeOf n using Nat.strong_induction_on generalizing n p children m pending with
  | _ size ih =>
    subst hdirectory
    intro c mtime listed
    have hends : ∀ (c : Capture) seen listed, Found children seen →
        Halts answer? (c.examine p [] seen { mtime, pending, listed }) := by
      intro c seen listed hfound
      refine clears_below hleads hfound h (fun {name below m' pending} hget hdown hpending => ?_) c mtime _
      have hmem := Listing.mem_of_get? hget
      have hsmaller : sizeOf (Node.directory below m') < size := hsize ▸ Node.sizeOf_lt_of_mem hmem
      exact ih _ hsmaller rfl hdown (hnamed.member hmem).2 (hupless.child hget).2 hpending rfl
    have hnothing : Found children [] := fun _ _ hmem => nomatch hmem
    obtain ⟨a, ha, hreal⟩ := htrue (.list (toString p))
    refine halts_ask rfl ha ?_
    cases a with
    | error e =>
      cases e with
      | system e => exact hends _ [] listed hnothing
      | _ => exact halts_finish _ _
    | ok names =>
      refine halts_examine htrue hleads (fun name hmem => ?_) hnothing (hends _)
      obtain hreal | ⟨e, herror⟩ := hreal
      · rcases hleads.list with hanswer | hanswer
        · rw [hanswer] at hreal
          cases hreal
        · rw [hanswer] at hreal
          cases hreal
          obtain ⟨child, hchild⟩ := Listing.mem_names.mp (List.mem_of_mem_filter hmem)
          have hget := Listing.mem_sorted_iff.mp hchild
          exact ⟨(hnamed.member (Listing.mem_of_get? hget)).1, (hupless.child hget).1, child, hget⟩
      · cases herror

/-- Every capture comes to an end, if each of its questions gets the answer of a regular tree or fails. -/
theorem halts_of_regular (htrue : Truthful d answer?) (hregular : d.Regular) (root : Path) (patterns : List String)
    (capturedAt : Int) :
    Halts answer? { root, patterns, capturedAt } := by
  obtain ⟨a, ha, hreal⟩ := htrue (.stat (toString root))
  refine halts_ask rfl ha ?_
  cases a with
  | error e => cases e <;> exact halts_finish _ _
  | ok info =>
    unfold afterRoot
    dsimp only
    split
    · rename_i hdirectory
      obtain hreal | ⟨e, herror⟩ := hreal
      · obtain ⟨place, n, hlocate, rfl⟩ := Disk.locate_of_stat hreal.symm
        cases n with
        | directory children m =>
          have hupless : (Node.directory children m).Upless :=
            Disk.inherited_locate (fun h hget => (h.child hget).2) hregular.upless hlocate
          exact Clears.directory htrue rfl ⟨place, hlocate⟩ (hregular.named.locate hlocate) hupless clears_nil
            { root, patterns, capturedAt } m []
        | _ => cases hdirectory
      · cases herror
    · exact halts_finish _ _

end Capture

end DirWatch
