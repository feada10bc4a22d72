import DirWatch.Proofs.Log.Files

/-!
# The destination in force

A log whose configuration in force writes to a file is usable as long as this file is open. A configuration that
succeeds leaves a usable log. One that fails leaves the old configuration in force, and the log is usable as before
unless the configuration had come to turn away from the file in force: the old file is closed before a new one is opened
(`usable_of_history`, `usable_lost`).
-/

namespace DirWatch.Log

open LogFiles (Turned)

variable {log log' : Log}

/-- The destination in force, if there is one, takes lines. -/
def Usable (log : Log) : Prop :=
  ∀ configuration, log.configuration = some configuration → log.accepts configuration.destination = true

/-- The settings name another file than the one in force, or none. -/
def TurnsAway (log : Log) (settings : LogSettings) : Prop :=
  ∃ configuration id file, log.configuration = some configuration ∧ configuration.destination = .file id ∧
    log.files.opened[id]? = some file ∧ settings.filePath.map toString ≠ some file.name

/-- The configuration in force writes to a file that was opened. -/
def Placed (log : Log) : Prop :=
  ∀ configuration id, log.configuration = some configuration → configuration.destination = .file id →
    id < log.files.opened.length

/-- This depends on the files and the configuration only. -/
theorem Placed.congr (h : log.Placed) (hfiles : log'.files = log.files) (hkept : log'.configuration = log.configuration) :
    log'.Placed := by
  intro configuration id hconfiguration hdestination
  rw [hfiles]
  exact h configuration id (hkept ▸ hconfiguration) hdestination

/-- Usable is a log that writes to the current file or to none. -/
theorem Usable.holds (h : log.Usable) (hs : log.files.Sound) {configuration : LogConfiguration} {id : LogFileId}
    (hconfiguration : log.configuration = some configuration) (hdestination : configuration.destination = .file id) :
    ∃ name, log.files.Holds id name := by
  have haccepts := h configuration hconfiguration
  rw [hdestination] at haccepts
  exact hs.holds haccepts

/-- Whether lines are taken depends on the files and the configuration only. -/
theorem Usable.congr (hfiles : log'.files = log.files) (hkept : log'.configuration = log.configuration) :
    log'.Usable ↔ log.Usable := by
  have haccepts : ∀ destination, log'.accepts destination = log.accepts destination := by
    intro destination
    cases destination with
    | standardOutput => rfl
    | file id => exact congrArg (LogFiles.isOpen · id) hfiles
  simp only [Usable, hkept, haccepts]

/-- A destination that has been turned to takes lines; if it is a file, that is one of those that were opened. -/
theorem accepts_of_turned {name? : Option String} {destination : LogDestination}
    (h : Turned log.files name? (.ok destination) log'.files) :
    log'.accepts destination = true ∧ ∀ id, destination = .file id → id < log'.files.opened.length := by
  cases name? with
  | none =>
    obtain ⟨rfl, -⟩ := h.current_eq_none
    exact ⟨rfl, fun _ hc => nomatch hc⟩
  | some name =>
    obtain ⟨id, rfl, hholds⟩ := h.holds
    refine ⟨hholds.isOpen, ?_⟩
    rintro _ ⟨⟩
    exact (List.getElem?_eq_some_iff.mp hholds.file).1

/-- A configuration that succeeds writes to a file that was opened for it. -/
theorem Configured.placed {settings : Except Settings.Error Settings} {r : Except Error Unit} (h : Configured log settings r log')
    (hp : log.Placed) : log'.Placed := by
  cases h with
  | early _ _ hfiles hkept => exact hp.congr hfiles hkept
  | late _ _ _ hturned hkept =>
    intro configuration id hconfiguration hdestination
    have hlt := hp configuration id (hkept ▸ hconfiguration) hdestination
    obtain ⟨file, hget, -⟩ := hturned.remembers id _ (List.getElem?_eq_getElem hlt)
    exact (List.getElem?_eq_some_iff.mp hget).1
  | done _ hturned hnew =>
    intro configuration id hconfiguration hdestination
    rw [hnew] at hconfiguration
    cases hconfiguration
    exact (accepts_of_turned hturned).2 id hdestination

/-- So the file in force was opened, whatever has become of the log. -/
theorem History.placed (h : History log) : log.Placed := by
  induction h with
  | fresh => exact fun _ _ hc => nomatch hc
  | configure h filtering env refusal ih => exact (configured_configure _ filtering env refusal).placed ih
  | resettle _ _ ih => exact ih.congr rfl rfl
  | write _ env logger entry timestamp ih =>
    obtain ⟨hfiles, hkept⟩ := write_kept _ env logger entry timestamp
    exact ih.congr hfiles hkept

/-- When a destination has been turned to and the old configuration stays in force, that is usable as before unless it
was turned away from its file. -/
theorem usable_iff_of_turned (hs : log.files.Sound) (hp : log.Placed) {settings : LogSettings}
    {r : Except CallError LogDestination} (hturned : Turned log.files (settings.filePath.map toString) r log'.files)
    (hkept : log'.configuration = log.configuration) :
    log'.Usable ↔ log.Usable ∧ ¬ log.TurnsAway settings := by
  have haccepts : ∀ configuration id, log.configuration = some configuration → configuration.destination = .file id →
      (log'.accepts configuration.destination = true ↔
        ∃ name, settings.filePath.map toString = some name ∧ log.files.Holds id name) := by
    intro configuration id hconfiguration hdestination
    rw [hdestination]
    exact hturned.isOpen_iff hs (hp configuration id hconfiguration hdestination)
  constructor
  · intro h
    refine ⟨fun configuration hconfiguration => ?_, ?_⟩
    · cases hdestination : configuration.destination with
      | standardOutput => rfl
      | file id =>
        obtain ⟨name, -, hholds⟩ :=
          (haccepts configuration id hconfiguration hdestination).mp (h configuration (hkept ▸ hconfiguration))
        exact hholds.isOpen
    · rintro ⟨configuration, id, file, hconfiguration, hdestination, hget, hne⟩
      obtain ⟨name, hname, hholds⟩ :=
        (haccepts configuration id hconfiguration hdestination).mp (h configuration (hkept ▸ hconfiguration))
      rw [hholds.file] at hget
      cases hget
      exact hne hname
  · rintro ⟨h, hstays⟩ configuration hconfiguration
    rw [hkept] at hconfiguration
    cases hdestination : configuration.destination with
    | standardOutput => rfl
    | file id =>
      obtain ⟨name, hholds⟩ := h.holds hs hconfiguration hdestination
      have hname : settings.filePath.map toString = some name := Decidable.of_not_not fun hne =>
        hstays ⟨configuration, id, _, hconfiguration, hdestination, hholds.file, hne⟩
      rw [← hdestination]
      exact (haccepts configuration id hconfiguration hdestination).mpr ⟨name, hname, hholds⟩

/-- However a log has been configured, a configuration that succeeds leaves it usable. One that fails leaves the
configuration in force as it was, and leaves it usable just if it was usable before and the settings, as far as they
could be read and named a level, do not turn away from the file in force. -/
theorem usable_of_history (h : History log) (filtering : Filtering) (env : Environment)
    (refusal : Path → Option CallError) :
    ((log.configure filtering env refusal).1 = .ok () → (log.configure filtering env refusal).2.Usable) ∧
    ∀ e, (log.configure filtering env refusal).1 = .error e →
      (log.configure filtering env refusal).2.configuration = log.configuration ∧
      ((log.configure filtering env refusal).2.Usable ↔ log.Usable ∧
        ∀ settings named, (log.settings.get env).1 = .ok settings →
          namedLevel settings.logging.level = .ok named → ¬ log.TurnsAway settings.logging) := by
  have hconfigured := configured_configure log filtering env refusal
  refine ⟨fun hok => ?_, fun e he => ?_⟩
  · rw [hok] at hconfigured
    cases hconfigured with
    | done _ hturned hnew =>
      intro configuration hconfiguration
      rw [hnew] at hconfiguration
      cases hconfiguration
      exact (accepts_of_turned hturned).1
  · rw [he] at hconfigured
    cases hconfigured with
    | early _ hlevel hfiles hkept =>
      refine ⟨hkept, (Usable.congr hfiles hkept).trans (iff_self_and.mpr fun _ settings named hsettings hnamed => ?_)⟩
      exact absurd hnamed (hlevel settings hsettings named)
    | late _ hsettings hnamed hturned hkept =>
      refine ⟨hkept, (usable_iff_of_turned h.sound h.placed hturned hkept).trans (and_congr_right fun _ => ?_)⟩
      constructor
      · intro hstays settings _ hothers _
        rw [hsettings] at hothers
        cases hothers
        exact hstays
      · exact fun hstays => hstays _ _ hsettings hnamed

/-- The configuration in force for the log that has been configured with a file. -/
def openedConfiguration : LogConfiguration :=
  ⟨20, .json, .file 0⟩

/-- A log that has been configured with a file is usable. It is not usable any more after another file could not be
opened, and usable again, with a new file, when it has been configured with the first one again. -/
theorem usable_of_history_stranded : openedLog.Usable ∧ ¬ strandedLog.Usable ∧ reopenedLog.Usable := by
  have hopened := (usable_of_history (History.fresh.resettle (filedIn "a")) Journal.thresholdOf [] fun _ => none).1 rfl
  have hstranded := (usable_of_history (history_openedLog.resettle (filedIn "b")) Journal.thresholdOf []
    fun _ => some (.system ⟨.noEntry, "/b"⟩)).2 (.unopenable (.system ⟨.noEntry, "/b"⟩)) rfl
  have hreopened := (usable_of_history (history_strandedLog.resettle (filedIn "a")) Journal.thresholdOf [] fun _ => none).1 rfl
  refine ⟨hopened, fun husable => ?_, hreopened⟩
  obtain ⟨-, hstays⟩ := hstranded.2.mp husable
  exact hstays { logging := { filePath := some ⟨.root, ["b"]⟩ } } (.threshold 20) rfl rfl
    ⟨openedConfiguration, 0, ⟨"/a", true⟩, rfl, rfl, rfl, by decide +kernel⟩

/-- The destination in force can be a closed file: that is so when a configuration has failed to open another one. -/
theorem usable_lost : ¬ ∀ log, History log → log.Usable := by
  intro h
  have haccepts := h strandedLog history_strandedLog openedConfiguration rfl
  have hclosed : strandedLog.accepts openedConfiguration.destination = false := by decide +kernel
  rw [hclosed] at haccepts
  cases haccepts

end DirWatch.Log
