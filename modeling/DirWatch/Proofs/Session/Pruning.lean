import DirWatch.Proofs.Capture.Pruning
import DirWatch.Proofs.Session.Snapshots

/-!
# Captures with patterns

The captures of one root with different patterns come out alike, up to the patterns: what a session captures is the tree
that it would capture without any patterns, pruned by its own (`captures_pruned`).
-/

namespace DirWatch.Session

open Entry (stamp)

/-- The capture of a root comes to its end by itself, and hands this over. -/
def Captures (s : Session) (root : Path) (outcome : Except CaptureError Snapshot) : Prop :=
  ∃ n, (run n (s.beginCapture root)).stack = s.stack ∧
    (run n (s.beginCapture root)).signal = some (.captured (outcome.mapError Failure.ofCapture))

variable {s : Session} {root : Path}

/-- The patterns of a session change no answer, and a capture with them comes out as the answers say. -/
theorem captures_of_ends {P : List String} {outcome : Except CaptureError Snapshot} (hroot : root.isAbsolute = true)
    (hends : Capture.Ends s.answerTo? { root, patterns := P, capturedAt := s.clock + 1 } outcome) :
    Captures { s with patterns := P } root outcome := by
  have hanswers : Answers root s.answerTo? (beginCapture { s with patterns := P } root) := fun call _ => answerTo?_congr rfl rfl
  obtain ⟨n, hstack, hsignal, -, -⟩ := run_capture hends rfl hanswers fun _ => hroot
  exact ⟨n, hstack, hsignal⟩

/-- In a valid tree whose faults are refusals of the system, the capture of an absolute root comes to one outcome
without patterns, and to the same outcome with patterns, pruned by them: whatever names lead to is left as it was if the
patterns exclude none of the members on the way, and is missing else, and the root stays in any case. So one list of
patterns after another prunes a captured tree further, and the order of the patterns, or a pattern that stands in the
list twice, makes no difference. -/
theorem captures_pruned (hdisk : s.disk.Valid) (hfaults : s.onlyRefuses = true) (hroot : root.Rooted) :
    ∃ whole : Except CaptureError Snapshot, Captures { s with patterns := [] } root whole ∧
      (∀ P, Captures { s with patterns := P } root (whole.map (·.prune P))) ∧
      (∀ P Q, Captures { s with patterns := P ++ Q } root ((whole.map (·.prune P)).map (·.prune Q))) ∧
      (∀ P Q, (∀ pattern, pattern ∈ P ↔ pattern ∈ Q) →
        Captures { s with patterns := Q } root (whole.map (·.prune P))) ∧
      ∀ snapshot, whole = .ok snapshot → snapshot.root = root ∧ ∀ P names, ((snapshot.prune P).at? names).map stamp =
        if Capture.shown P root names then (snapshot.at? names).map stamp else none := by
  obtain ⟨whole, hends, hwhole⟩ := Capture.exists_outcome (refuses_of_onlyRefuses hfaults) hdisk hroot (s.clock + 1)
  have hcaptures : ∀ P, Captures { s with patterns := P } root (whole.map (·.prune P)) :=
    fun P => captures_of_ends hroot.absolute (hends P)
  refine ⟨whole, ?_, hcaptures, fun P Q => ?_, fun P Q hsame => ?_, fun snapshot heq => ?_⟩
  · have hnone := hcaptures []
    rw [funext Snapshot.prune_nil] at hnone
    cases whole <;> exact hnone
  · have hboth := hcaptures (P ++ Q)
    rw [funext (Snapshot.prune_append P Q)] at hboth
    cases whole <;> exact hboth
  · rw [funext (Snapshot.prune_congr hsame)]
    exact hcaptures Q
  · obtain ⟨hwf, rfl⟩ := hwhole snapshot heq
    exact ⟨rfl, hwf.at?_prune hroot⟩

/-- A directory with a member that looks like something temporary, though it is a directory itself. -/
def shed : World where
  disk := { root := .directory [("w", .directory [
    ("a", .directory [("kept", .file 4), ("x.tmp", .file 5)] 3),
    ("b.tmp", .directory [("inner", .file 7)] 6),
    ("locked", .directory [("y", .file 9)] 8)] 2)] 1 }
  faults := [(("/w/locked", .list), .refuse .accessDenied)]

def shedTable : Session :=
  (createTable shed (.text "poll") 1000 4 ["unused"]).toOption.getD default

/-- With the directory everything below it is missing, and below the other one a file. -/
theorem captures_pruned_shed : shedTable.disk.Valid ∧ shedTable.onlyRefuses = true ∧ (⟨.root, ["w"]⟩ : Path).Rooted ∧
    ∃ whole, Captures { shedTable with patterns := [] } ⟨.root, ["w"]⟩ whole ∧
      Captures { shedTable with patterns := ["*.tmp"] } ⟨.root, ["w"]⟩ (whole.map (·.prune ["*.tmp"])) ∧
      ∀ snapshot, whole = .ok snapshot →
        (∀ names ∈ [["b.tmp"], ["b.tmp", "inner"], ["a", "x.tmp"]],
          ((snapshot.prune ["*.tmp"]).at? names).map stamp = none) ∧
        ∀ names ∈ [[], ["a"], ["a", "kept"], ["locked"]],
          ((snapshot.prune ["*.tmp"]).at? names).map stamp = (snapshot.at? names).map stamp := by
  have hdisk : shedTable.disk.Valid := Disk.valid_of_isValid (by decide +kernel)
  have hfaults : shedTable.onlyRefuses = true := by decide +kernel
  have hroot : (⟨.root, ["w"]⟩ : Path).Rooted := ⟨by decide, by decide⟩
  obtain ⟨whole, hbare, hpruned, -, -, hleft⟩ := captures_pruned hdisk hfaults hroot
  refine ⟨hdisk, hfaults, hroot, whole, hbare, hpruned ["*.tmp"], fun snapshot heq => ?_⟩
  obtain ⟨-, hshown⟩ := hleft snapshot heq
  have hgone : ∀ names ∈ [["b.tmp"], ["b.tmp", "inner"], ["a", "x.tmp"]],
      Capture.shown ["*.tmp"] ⟨.root, ["w"]⟩ names = false := by decide +kernel
  have hstays : ∀ names ∈ [[], ["a"], ["a", "kept"], ["locked"]],
      Capture.shown ["*.tmp"] ⟨.root, ["w"]⟩ names = true := by decide +kernel
  refine ⟨fun names hmem => ?_, fun names hmem => ?_⟩
  · rw [hshown, hgone names hmem]
    rfl
  · rw [hshown, hstays names hmem]
    rfl

end DirWatch.Session
