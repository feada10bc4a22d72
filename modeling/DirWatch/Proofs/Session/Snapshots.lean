import DirWatch.Proofs.Capture.Recursion
import DirWatch.Proofs.Session.Retries

/-!
# What a capture hands over

In a valid tree whose faults are refusals of the system, a capture that a session begins comes to its end by itself and
hands over the snapshot that the recursion over the directories gives (`capture_depicts`).
-/

namespace DirWatch.Session

open Capture (Depicts Recorded Refuses look)

/-- Whether all that can go wrong with a call is that the system refuses it. -/
def onlyRefuses (s : Session) : Bool :=
  s.faults.all fun fault =>
    match fault.2 with
    | .refuse _ => true
    | _ => false

variable {s : Session}

/-- Where calls are only refused, a fault is a refusal. -/
theorem refuse_of_fault (h : s.onlyRefuses = true) {call : Call} {fault : Fault Action} (hfault : s.faultOf? call = some fault) :
    ∃ reason, fault = .refuse reason := by
  have hrefuses := List.all_eq_true.mp h _ (mem_faults hfault)
  cases fault with
  | refuse reason => exact ⟨reason, rfl⟩
  | disrupt => cases hrefuses
  | precede steps => cases hrefuses

/-- Such a session answers as its tree does, or refuses. -/
theorem refuses_of_onlyRefuses (h : s.onlyRefuses = true) : Refuses s.disk s.answerTo? := by
  intro call
  cases hfault : s.faultOf? call with
  | none =>
    refine ⟨s.disk.answer call, answer_of_ask ?_, Or.inl rfl⟩
    unfold ask
    rw [hfault]
  | some fault =>
    obtain ⟨reason, rfl⟩ := refuse_of_fault h hfault
    refine ⟨.error (.system ⟨reason, call.path⟩), answer_of_ask ?_, Or.inr ⟨_, rfl⟩⟩
    unfold ask
    rw [hfault]

/-- A capture of a valid tree ends, if no call on a path fails but by a refusal of the system, and it hands over the one
snapshot that the recursion over the directories below the root gives. -/
theorem capture_depicts {root : Path} (hdisk : s.disk.Valid) (hfaults : s.onlyRefuses = true)
    (hroot : '\x00' ∉ (toString root).toList) : ∃ snapshot, Depicts s.answerTo? s.patterns root (s.clock + 1) snapshot ∧
      (∀ other, Depicts s.answerTo? s.patterns root (s.clock + 1) other → other = snapshot) ∧
      ∃ n, (run n (s.beginCapture root)).stack = s.stack ∧
        (run n (s.beginCapture root)).signal = some (.captured (.ok snapshot)) := by
  obtain ⟨snapshot, hdepicts, hends⟩ :=
    Capture.depicts_of_valid (refuses_of_onlyRefuses hfaults) hdisk hroot s.patterns (s.clock + 1)
  have hanswers : Answers root s.answerTo? (s.beginCapture root) := fun call _ => answerTo?_congr rfl rfl
  obtain ⟨n, hstack, hsignal, -, -⟩ := run_capture hends rfl hanswers fun habsolute => habsolute
  exact ⟨snapshot, hdepicts, fun other hother => hother.unique hdepicts, n, hstack, hsignal⟩

/-- A root with links in a circle, a directory that cannot be listed, a file that cannot be looked at, and one that a
pattern leaves out. -/
def thicket : World where
  disk := { root := .directory [("w", .directory [
    ("a", .directory [("up", .link "/w" 4), ("x", .file 5)] 3),
    ("gone", .file 6),
    ("locked", .directory [("y", .file 8)] 7),
    ("loop", .link "loop" 9),
    ("z.tmp", .file 10)] 2)] 1 }
  faults := [(("/w/locked", .list), .refuse .accessDenied), (("/w/gone", .member), .refuse .noEntry)]

def thicketTable : Session :=
  (createTable thicket (.text "poll") 1000 4 ["*.tmp"]).toOption.getD default

/-- The links are files, the locked directory is empty, and two files are missing. -/
theorem capture_depicts_thicket : thicketTable.disk.Valid ∧ thicketTable.onlyRefuses = true ∧
    '\x00' ∉ (toString (⟨.root, ["w"]⟩ : Path)).toList ∧
    ∃ n, (run n (thicketTable.beginCapture ⟨.root, ["w"]⟩)).signal = some (.captured (.ok
      { root := ⟨.root, ["w"]⟩
        tree := some (.directory ⟨.root, ["w"]⟩ 2 [
          ("a", .directory ⟨.root, ["w", "a"]⟩ 3
            [("up", .file ⟨.root, ["w", "a", "up"]⟩ 4), ("x", .file ⟨.root, ["w", "a", "x"]⟩ 5)]),
          ("locked", .directory ⟨.root, ["w", "locked"]⟩ 7 []),
          ("loop", .file ⟨.root, ["w", "loop"]⟩ 9)])
        capturedAt := 1 })) := by
  have hdisk : thicketTable.disk.Valid := Disk.valid_of_isValid (by decide +kernel)
  have hfaults : thicketTable.onlyRefuses = true := by decide +kernel
  have hroot : '\x00' ∉ (toString (⟨.root, ["w"]⟩ : Path)).toList := by decide
  obtain ⟨snapshot, -, hunique, n, -, hsignal⟩ := capture_depicts hdisk hfaults hroot
  refine ⟨hdisk, hfaults, hroot, n, ?_⟩
  rw [hsignal, ← hunique _ ?_]
  have hinfo : thicketTable.answerTo? (.stat (toString (⟨.root, ["w"]⟩ : Path))) =
      some (.ok { isDirectory := true, mtime := 2 }) := by rfl
  have hlook : ∀ {p} seen {l}, look thicketTable.answerTo? thicketTable.patterns p = seen →
      Recorded thicketTable.answerTo? thicketTable.patterns p seen l →
        Recorded thicketTable.answerTo? thicketTable.patterns p (look thicketTable.answerTo? thicketTable.patterns p) l := by
    rintro p seen l rfl h
    exact h
  refine Depicts.directory hinfo rfl ?_
  refine hlook [("a", ⟨true, 3⟩), ("locked", ⟨true, 7⟩), ("loop", ⟨false, 9⟩)] (by decide +kernel) ?_
  refine Recorded.directory ?_ (Recorded.directory ?_ (Recorded.file Recorded.nil))
  · refine hlook [("up", ⟨false, 4⟩), ("x", ⟨false, 5⟩)] (by decide +kernel) ?_
    exact Recorded.file (Recorded.file Recorded.nil)
  · exact hlook [] (by decide +kernel) Recorded.nil

end DirWatch.Session
