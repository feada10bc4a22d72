import DirWatch.Disk
import DirWatch.Proofs.Listing
import DirWatch.Proofs.Path

/-!
# Names in a tree of files

`Node.Named` says that every name below an object is a single component. Changes that put named objects under such names keep
this (`Disk.Named.put` and its siblings), and a directory of such a tree is listed with different single components
(`Disk.Named.list`).
-/

namespace DirWatch

namespace Node

mutual

/-- Every name below an object is a single component. -/
def Named : Node → Prop
  | directory children _ => NamedAll children
  | file _ | link _ _ => True

def NamedAll : List (String × Node) → Prop
  | [] => True
  | (name, n) :: rest => (Path.IsName name ∧ n.Named) ∧ NamedAll rest

end

/-- A listing is named if each member is, and stands under a single component. -/
theorem namedAll_iff {l : List (String × Node)} : NamedAll l ↔ ∀ name n, (name, n) ∈ l → Path.IsName name ∧
    n.Named := by
  induction l with
  | nil => simp [NamedAll]
  | cons p rest ih =>
    obtain ⟨m, a⟩ := p
    rw [NamedAll, ih]
    constructor
    · rintro ⟨ha, hrest⟩ name n hn
      rcases List.mem_cons.mp hn with heq | hn
      · cases heq
        exact ha
      · exact hrest name n hn
    · intro h
      exact ⟨h m a List.mem_cons_self, fun name n hn => h name n (List.mem_cons_of_mem _ hn)⟩

theorem Named.member {children : List (String × Node)} {m : Int} (h : (directory children m).Named) {name : String} {n : Node}
    (hn : (name, n) ∈ children) : Path.IsName name ∧ n.Named := by
  rw [Named, namedAll_iff] at h
  exact h name n hn

/-- Touching an object keeps the names. -/
theorem Named.setMtime {n : Node} (h : n.Named) (m : Int) : (n.setMtime m).Named := by
  cases n with
  | file _ => trivial
  | directory _ _ => exact h
  | link _ _ => trivial

/-- A named object may be put under a single component. -/
theorem Named.putChild {n child : Node} (h : n.Named) {name : String} (hname : Path.IsName name) (hchild : child.Named) :
    (Node.putChild name child n).Named := by
  cases n with
  | file _ => trivial
  | link _ _ => trivial
  | directory children m =>
    rw [Node.putChild, Named, namedAll_iff]
    intro other a ha
    rcases Listing.mem_insert ha with heq | ha
    · cases heq
      exact ⟨hname, hchild⟩
    · exact h.member ha

/-- A member may be taken away. -/
theorem Named.removeChild {n : Node} (h : n.Named) (name : String) : (n.removeChild name).Named := by
  cases n with
  | file _ => trivial
  | link _ _ => trivial
  | directory children m =>
    rw [Node.removeChild, Named, namedAll_iff]
    intro other a ha
    exact h.member (List.mem_filter.mp ha).1

/-- A change of one object keeps the names of the tree if it keeps those of the object. -/
theorem Named.modifyAt {f : Node → Node} (hf : ∀ n, n.Named → (f n).Named) {n : Node} (h : n.Named) (names : List String) :
    (modifyAt f names n).Named := by
  induction names generalizing n with
  | nil =>
    unfold Node.modifyAt
    exact hf n h
  | cons name names ih =>
    cases n with
    | file _ => trivial
    | link _ _ => trivial
    | directory children m =>
      rw [Node.modifyAt, Named, namedAll_iff]
      intro other a ha
      obtain ⟨⟨one, b⟩, hb, heq⟩ := List.mem_map.mp ha
      obtain ⟨hone, hnamed⟩ := h.member hb
      dsimp only at heq
      split at heq
      · cases heq
        exact ⟨hone, ih hnamed⟩
      · cases heq
        exact ⟨hone, hnamed⟩

end Node

namespace Disk

open Node (Named)

/-- Every name in the tree is a single component. -/
def Named (d : Disk) : Prop :=
  d.root.Named

variable {d d' : Disk}

/-! ## What a text leads to -/

/-- What holds of a directory holds of all that stands in it. -/
def Inherited (P : Node → Prop) : Prop :=
  ∀ {children m name child}, P (.directory children m) → Listing.get? children name = some child → P child

section

variable {P : Node → Prop} (hP : Inherited P) {root : Node} (hroot : P root)

include hP hroot

omit hP in
/-- What holds all along a trail holds at its end. -/
theorem inherited_trailEnd {trail : List (String × Node)} (h : ∀ p ∈ trail, P p.2) : P (trailEnd root trail) := by
  cases trail with
  | nil => exact hroot
  | cons p trail => exact h p List.mem_cons_self

/-- It holds one step further. -/
theorem inherited_extend {trail : List (String × Node)} {children : List (String × Node)} {m : Int} {name : String}
    {child : Node} (h : ∀ p ∈ trail, P p.2) (hend : trailEnd root trail = .directory children m)
    (hget : Listing.get? children name = some child) : ∀ p ∈ (name, child) :: trail, P p.2 := by
  intro p hp
  rcases List.mem_cons.mp hp with rfl | hp
  · exact hP (hend ▸ inherited_trailEnd hroot h) hget
  · exact h p hp

/-- Components lead to what inherits, if the targets of links do. -/
theorem inherited_advance {last : Bool}
    {jump : List Char → List (String × Node) → List (List Char) → Except Errno (List (String × Node))}
    (hjump : ∀ {target trail rest found}, (∀ p ∈ trail, P p.2) → jump target trail rest = .ok found →
      ∀ p ∈ found, P p.2)
    {trail found : List (String × Node)} {rest : List (List Char)} (h : ∀ p ∈ trail, P p.2)
    (hf : advance root last jump trail rest = .ok found) : ∀ p ∈ found, P p.2 := by
  induction rest generalizing trail with
  | nil =>
    cases hf
    exact h
  | cons part rest ih =>
    unfold Disk.advance at hf
    split at hf
    · rename_i children m hend
      split at hf
      · exact ih h hf
      · split at hf
        · exact ih (fun p hp => h p (List.mem_of_mem_tail hp)) hf
        · dsimp only at hf
          split at hf
          · cases hf
          · rename_i target m hget
            split at hf
            · cases hf
              exact inherited_extend hP hroot h hend hget
            · exact hjump h hf
          · rename_i child _ hget
            exact ih (inherited_extend hP hroot h hend hget) hf
    · cases hf

/-- What is inherited holds all along the trail of a text, link or not. -/
theorem inherited_follow {last : Bool} {links : Nat} {trail found : List (String × Node)} {rest : List (List Char)}
    (h : ∀ p ∈ trail, P p.2) (hf : follow root last links trail rest = .ok found) : ∀ p ∈ found, P p.2 := by
  induction links generalizing trail found rest with
  | zero =>
    refine inherited_advance hP hroot ?_ h hf
    intro target trail rest found h hjump
    cases hjump
  | succ links ih =>
    refine inherited_advance hP hroot ?_ h hf
    intro target trail rest found h hjump
    split at hjump
    · cases hjump
    · exact ih (List.forall_mem_nil _) hjump
    · exact ih h hjump

end

/-- A text leads to an object that inherits what holds of the root. -/
theorem inherited_locate {P : Node → Prop} (hP : Inherited P) (hroot : P d.root) {last : Bool} {path : String}
    {place : List String} {n : Node} (hl : d.locate last path = .ok (place, n)) : P n := by
  unfold Disk.locate at hl
  split at hl
  · cases hl
  · split at hl
    · cases hl
    · rename_i trail hfollow
      cases hl
      exact inherited_trailEnd hroot (inherited_follow hP hroot (List.forall_mem_nil _) hfollow)

/-- Names are inherited. -/
theorem inherited_named : Inherited Node.Named :=
  fun h hget => (h.member (Listing.mem_of_get? hget)).2

/-- A text leads to a named object. -/
theorem Named.locate (h : d.Named) {last : Bool} {path : String} {place : List String} {n : Node}
    (hl : d.locate last path = .ok (place, n)) : n.Named :=
  inherited_locate inherited_named h hl

/-- A directory of a named tree is listed with different single components. -/
theorem Named.list (h : d.Named) {path : String} {names : List String} (hl : d.answer (.list path) = .ok names) :
    (∀ name ∈ names, Path.IsName name) ∧ names.Nodup := by
  unfold answer at hl
  split at hl
  · cases hl
  · dsimp only at hl
    split at hl
    · cases hl
    · rename_i place children m hlocate
      cases hl
      refine ⟨?_, (Listing.ordered_sorted children).nodup⟩
      intro name hname
      obtain ⟨n, hn⟩ := Listing.mem_names.mp hname
      exact ((h.locate hlocate).member (Listing.mem_of_mem_sorted hn)).1
    · cases hl

/-! ## Changes -/

/-- A named object can be put under a name that is a single component. -/
theorem Named.put (h : d.Named) {path : String} {n : Node} (hname : Path.IsName (splitName path).2) (hn : n.Named)
    (hput : d.put path n = .ok d') : d'.Named := by
  unfold Disk.put at hput
  split at hput
  · cases hput
  · cases hput
    exact Node.Named.modifyAt (fun _ hnamed => hnamed.putChild hname hn) h _

/-- Removing an object keeps the names of the tree. -/
theorem Named.remove (h : d.Named) {path : String} (hremove : d.remove path = .ok d') : d'.Named := by
  unfold Disk.remove at hremove
  split at hremove
  · cases hremove
  · dsimp only at hremove
    split at hremove
    · cases hremove
    · cases hremove
      exact Node.Named.modifyAt (fun _ hnamed => hnamed.removeChild _) h _

/-- So does touching one. -/
theorem Named.touch (h : d.Named) {path : String} {mtime : Int} (htouch : d.touch path mtime = .ok d') : d'.Named := by
  unfold Disk.touch at htouch
  split at htouch
  · cases htouch
  · cases htouch
    exact Node.Named.modifyAt (fun _ hnamed => hnamed.setMtime mtime) h _

end Disk

end DirWatch
