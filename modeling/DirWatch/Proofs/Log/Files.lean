import DirWatch.Log.Journal

/-!
# The files of a log

A log opens files and closes them as it is configured. `LogFiles.Sound` says that the current file, if there is one, is
open, and that no other file is. `LogFiles.Turned` and `Log.Configured` list what a configuration can come to; that
leaves the files sound whether it succeeds or fails (`files_of_history`).
-/

namespace DirWatch

namespace LogFiles

variable {fs fs' : LogFiles} {id : LogFileId} {name : String} {name? : Option String}
  {r : Except CallError LogDestination}

/-- Just the current file is open. -/
def Sound (fs : LogFiles) : Prop :=
  ∀ id, fs.isOpen id = true ↔ fs.current = some id

/-- Files keep their numbers and their names, and those that are closed stay so. -/
def Remembers (fs fs' : LogFiles) : Prop :=
  ∀ (id : LogFileId) (file : LogFile), fs.opened[id]? = some file → ∃ file', fs'.opened[id]? = some file' ∧
    file'.name = file.name ∧ (file'.isOpen = true → file.isOpen = true)

/-- The current file is open under a name. -/
structure Holds (fs : LogFiles) (id : LogFileId) (name : String) : Prop where
  current : fs.current = some id
  file : fs.opened[id]? = some { name, isOpen := true }

/-- A file held under a name is open. -/
theorem Holds.isOpen (h : fs.Holds id name) : fs.isOpen id = true := by
  rw [LogFiles.isOpen, h.file]
  rfl

theorem Remembers.refl (fs : LogFiles) : Remembers fs fs :=
  fun _ file hget => ⟨file, hget, rfl, fun h => h⟩

/-- An open file is one of those that were opened. -/
theorem get_of_isOpen (h : fs.isOpen id = true) : ∃ name, fs.opened[id]? = some { name, isOpen := true } := by
  rw [isOpen] at h
  cases hget : fs.opened[id]? with
  | none =>
    rw [hget] at h
    cases h
  | some file =>
    rw [hget] at h
    have hopen : file.isOpen = true := h
    exact ⟨file.name, by rw [← hopen]⟩

/-- The current file is held under its name. -/
theorem Sound.holds (h : fs.Sound) (hopen : fs.isOpen id = true) : ∃ name, fs.Holds id name := by
  obtain ⟨name, hget⟩ := get_of_isOpen hopen
  exact ⟨name, (h id).mp hopen, hget⟩

/-! ## Closing and opening -/

/-- After closing there is no current file. -/
theorem current_close (fs : LogFiles) : fs.close.current = none := by
  unfold close
  split
  · assumption
  · rfl

/-- Closing marks the current file as closed, and no other. -/
theorem opened_close (fs : LogFiles) (id : LogFileId) : fs.close.opened[id]? =
    if fs.current = some id then fs.opened[id]?.map fun file => { file with isOpen := false } else fs.opened[id]? := by
  unfold close
  cases fs.current with
  | none => rfl
  | some k =>
    have hmodify := List.getElem?_modify (fun file : LogFile => { file with isOpen := false }) k fs.opened id
    refine hmodify.trans ?_
    by_cases heq : k = id
    · subst heq
      simp
    · simp [heq]

/-- Closed files are kept. -/
theorem length_close (fs : LogFiles) : fs.close.opened.length = fs.opened.length := by
  unfold close
  split
  · rfl
  · exact List.length_modify ..

/-- No file is open when the current one has been closed. -/
theorem Sound.isOpen_close (h : fs.Sound) (id : LogFileId) : fs.close.isOpen id = false := by
  rw [isOpen, opened_close]
  split
  · cases fs.opened[id]? <;> rfl
  · rename_i hne
    rw [← Bool.not_eq_true]
    exact fun hopen => hne ((h id).mp hopen)

/-- In sound files, closing leaves none open. -/
theorem Sound.close (h : fs.Sound) : fs.close.Sound := by
  intro id
  rw [h.isOpen_close, current_close]
  simp

/-- No file comes back by closing. -/
theorem remembers_close (fs : LogFiles) : Remembers fs fs.close := by
  intro id file hget
  rw [opened_close, hget]
  split
  · exact ⟨_, rfl, rfl, fun h => nomatch h⟩
  · exact ⟨file, rfl, rfl, fun h => h⟩

/-- A file that is opened gets the next number. -/
theorem opened_add (fs : LogFiles) (name : String) (id : LogFileId) : (fs.add name).opened[id]? =
    if id = fs.opened.length then some { name, isOpen := true } else fs.opened[id]? := by
  change (fs.opened ++ [⟨name, true⟩])[id]? = _
  split
  · rename_i heq
    rw [heq, List.getElem?_concat_length]
  · rename_i hne
    rcases Nat.lt_or_ge id fs.opened.length with hlt | hge
    · exact List.getElem?_append_left hlt
    · have hbeyond : fs.opened.length < id := Nat.lt_of_le_of_ne hge (Ne.symm hne)
      rw [List.getElem?_eq_none hge, List.getElem?_eq_none]
      rw [List.length_append]
      exact hbeyond

/-- When no file is open, one can be opened. -/
theorem sound_add (h : ∀ id, fs.isOpen id = false) (name : String) : (fs.add name).Sound := by
  intro id
  rw [isOpen, opened_add]
  change _ ↔ some fs.opened.length = some id
  by_cases heq : id = fs.opened.length
  · rw [if_pos heq, heq]
    simp
  · have hclosed := h id
    rw [isOpen] at hclosed
    rw [if_neg heq, hclosed]
    simp [Ne.symm heq]

/-- A new file takes no number of an older one. -/
theorem remembers_add (fs : LogFiles) (name : String) : Remembers fs (fs.add name) := by
  intro id file hget
  have hne : id ≠ fs.opened.length := Nat.ne_of_lt (List.getElem?_eq_some_iff.mp hget).1
  exact ⟨file, by rw [opened_add, if_neg hne, hget], rfl, fun h => h⟩

/-- What two changes in a row remember, they remember together. -/
theorem Remembers.trans {fs'' : LogFiles} (h : Remembers fs fs') (h' : Remembers fs' fs'') : Remembers fs fs'' := by
  intro id file hget
  obtain ⟨file', hget', hname, hopen⟩ := h id file hget
  obtain ⟨file'', hget'', hname', hopen'⟩ := h' id file' hget'
  exact ⟨file'', hget'', hname'.trans hname, fun hon => hopen (hopen' hon)⟩

/-! ## Turning to a destination -/

/-- A file is used again if it is held under the name asked for. -/
theorem reusable?_eq_some : fs.reusable? name = some id ↔ fs.Holds id name := by
  unfold reusable? currentFile?
  constructor
  · intro h
    cases hcurrent : fs.current with
    | none =>
      rw [hcurrent] at h
      cases h
    | some k =>
      cases hget : fs.opened[k]? with
      | none => simp [hcurrent, hget] at h
      | some file =>
        simp only [hcurrent, hget, Option.bind_some, Option.map_some, Bool.and_eq_true, beq_iff_eq,
          Option.ite_none_right_eq_some, Option.some.injEq] at h
        obtain ⟨⟨hopen, rfl⟩, rfl⟩ := h
        exact ⟨hcurrent, by rw [hget, ← hopen]⟩
  · intro h
    simp [h.current, h.file]

/-- What turning to a file of a name, or to the standard output, comes to. -/
inductive Turned (fs : LogFiles) : Option String → Except CallError LogDestination → LogFiles → Prop
  /-- There is to be no file any more. -/
  | released : Turned fs none (.ok .standardOutput) fs.close
  /-- The current file is open under this name already. -/
  | reused (id : LogFileId) (name : String) (h : fs.Holds id name) : Turned fs (some name) (.ok (.file id)) fs
  | opened (name : String) (hnew : ∀ id, ¬ fs.Holds id name) :
      Turned fs (some name) (.ok (.file fs.opened.length)) (fs.close.add name)
  /-- The file cannot be opened, and the current one has been closed. -/
  | refused (name : String) (e : CallError) (hnew : ∀ id, ¬ fs.Holds id name) : Turned fs (some name) (.error e) fs.close

/-- Turning to a destination comes to one of these. -/
theorem turned_turnTo (fs : LogFiles) (refusal : Path → Option CallError) (path : Option Path) :
    Turned fs (path.map toString) (Log.turnTo fs refusal path).1 (Log.turnTo fs refusal path).2 := by
  unfold Log.turnTo
  cases path with
  | none => exact .released
  | some path =>
    dsimp only [Option.map_some]
    unfold use
    cases hreusable : fs.reusable? (toString path) with
    | some id => exact .reused _ _ (reusable?_eq_some.mp hreusable)
    | none =>
      have hnew : ∀ id, ¬ fs.Holds id (toString path) := by
        intro id h
        rw [reusable?_eq_some.mpr h] at hreusable
        cases hreusable
      cases refusal path with
      | some e => exact .refused _ _ hnew
      | none =>
        have hopened : Turned fs (some (toString path)) (.ok (.file fs.opened.length)) (fs.close.add (toString path)) :=
          .opened _ hnew
        rw [← length_close] at hopened
        exact hopened

/-- Turning keeps the files sound, also where the new one is refused. -/
theorem Turned.sound (h : Turned fs name? r fs') (hs : fs.Sound) : fs'.Sound := by
  cases h with
  | released => exact hs.close
  | reused => exact hs
  | opened => exact sound_add hs.isOpen_close _
  | refused => exact hs.close

/-- It brings no closed file back. -/
theorem Turned.remembers (h : Turned fs name? r fs') : Remembers fs fs' := by
  cases h with
  | released => exact remembers_close fs
  | reused => exact .refl fs
  | opened => exact (remembers_close fs).trans (remembers_add _ _)
  | refused => exact remembers_close fs

/-- No file is current when the standard output has been turned to. -/
theorem Turned.current_eq_none {destination : LogDestination} (h : Turned fs none (.ok destination) fs') :
    destination = .standardOutput ∧ fs'.current = none := by
  cases h with
  | released => exact ⟨rfl, current_close fs⟩

/-- A file that has been turned to is held under its name. -/
theorem Turned.holds {destination : LogDestination} (h : Turned fs (some name) (.ok destination) fs') :
    ∃ id, destination = .file id ∧ fs'.Holds id name := by
  cases h with
  | reused id _ h => exact ⟨id, rfl, h⟩
  | opened _ hnew =>
    have hadded : (fs.close.add name).Holds fs.close.opened.length name := ⟨rfl, by rw [opened_add, if_pos rfl]⟩
    rw [length_close] at hadded
    exact ⟨_, rfl, hadded⟩

/-- The file that was open before stays so only if it is turned to again. -/
theorem Turned.isOpen_iff (h : Turned fs name? r fs') (hs : fs.Sound) (hlt : id < fs.opened.length) :
    fs'.isOpen id = true ↔ ∃ name, name? = some name ∧ fs.Holds id name := by
  have hclosed : fs.close.isOpen id = false := hs.isOpen_close id
  have hadded : ∀ name, (fs.close.add name).isOpen id = false := by
    intro name
    have hne : id ≠ fs.close.opened.length := by
      rw [length_close]
      exact Nat.ne_of_lt hlt
    rw [isOpen, opened_add, if_neg hne]
    exact hclosed
  cases h with
  | released => simp [hclosed]
  | reused k name h =>
    constructor
    · intro hopen
      have hk : some k = some id := h.current.symm.trans ((hs id).mp hopen)
      cases hk
      exact ⟨name, rfl, h⟩
    · rintro ⟨_, _, h⟩
      exact h.isOpen
  | opened name hnew =>
    rw [hadded]
    simp only [Bool.false_eq_true, false_iff]
    rintro ⟨_, ⟨⟩, h⟩
    exact hnew id h
  | refused name e hnew =>
    rw [hclosed]
    simp only [Bool.false_eq_true, false_iff]
    rintro ⟨_, ⟨⟩, h⟩
    exact hnew id h

end LogFiles

namespace Log

open LogFiles (Sound Remembers Turned)

variable {log log' : Log} {id : LogFileId}

/-- What configuring a log with settings comes to, or without settings if they cannot be read. -/
inductive Configured (log : Log) (settings : Except Settings.Error Settings) : Except Error Unit → Log → Prop
  /-- The settings cannot be read, or there is no such level. -/
  | early (e : Error) {log' : Log} (hlevel : ∀ s, settings = .ok s → ∀ named, namedLevel s.logging.level ≠ .ok named)
      (hfiles : log'.files = log.files) (hkept : log'.configuration = log.configuration) :
      Configured log settings (.error e) log'
  /-- The new destination has been turned to, or was to be, when the configuration failed. -/
  | late (e : Error) {log' : Log} {s : Settings} {named : Threshold.Named} {r : Except CallError LogDestination}
      (hs : settings = .ok s) (hlevel : namedLevel s.logging.level = .ok named)
      (hturned : Turned log.files (s.logging.filePath.map toString) r log'.files)
      (hkept : log'.configuration = log.configuration) : Configured log settings (.error e) log'
  | done {log' : Log} {s : Settings} {configuration : LogConfiguration} (hs : settings = .ok s)
      (hturned : Turned log.files (s.logging.filePath.map toString) (.ok configuration.destination) log'.files)
      (hnew : log'.configuration = some configuration) : Configured log settings (.ok ()) log'

/-- Configuring a log is one of the things that it can come to, whatever a filter makes of the level. -/
theorem configured_configure (log : Log) (filtering : Filtering) (env : Environment) (refusal : Path → Option CallError) :
    Configured log (log.settings.get env).1 (log.configure filtering env refusal).1
      (log.configure filtering env refusal).2 := by
  unfold configure readSettings
  cases hread : log.settings.get env with
  | mk r cache =>
    cases r with
    | error e => exact .early _ (fun _ hs => nomatch hs) rfl rfl
    | ok s =>
      dsimp only
      unfold configureWith
      cases hlevel : namedLevel s.logging.level with
      | error e =>
        refine .early _ (fun _ hs named hnamed => ?_) rfl rfl
        cases hs
        rw [hlevel] at hnamed
        cases hnamed
      | ok named =>
        have hturned := LogFiles.turned_turnTo log.files refusal s.logging.filePath
        dsimp only
        cases hturn : turnTo log.files refusal s.logging.filePath with
        | mk r files =>
          rw [hturn] at hturned
          cases r with
          | error e => exact .late _ rfl hlevel hturned rfl
          | ok destination =>
            cases filtering named with
            | error e => exact .late _ rfl hlevel hturned rfl
            | ok threshold => exact .done rfl hturned rfl

/-- So a configuration keeps them sound, whether it succeeds or fails. -/
theorem Configured.sound {settings : Except Settings.Error Settings} {r : Except Error Unit} (h : Configured log settings r log')
    (hs : log.files.Sound) : log'.files.Sound := by
  cases h with
  | early _ _ hfiles => exact hfiles ▸ hs
  | late _ _ _ hturned => exact hturned.sound hs
  | done _ hturned => exact hturned.sound hs

/-- It brings none back, either. -/
theorem Configured.remembers {settings : Except Settings.Error Settings} {r : Except Error Unit}
    (h : Configured log settings r log') : Remembers log.files log'.files := by
  cases h with
  | early _ _ hfiles =>
    rw [hfiles]
    exact .refl _
  | late _ _ _ hturned => exact hturned.remembers
  | done _ hturned => exact hturned.remembers

/-! ## The history of a log -/

/-- What a log can have become: it was configured any number of times, with any settings and any filters, whether that
succeeded or not, and entries were written between. -/
inductive History : Log → Prop
  | fresh : History {}
  | configure {log : Log} (h : History log) (filtering : Filtering) (env : Environment)
      (refusal : Path → Option CallError) : History (log.configure filtering env refusal).2
  /-- The settings are forgotten, or become others. -/
  | resettle {log : Log} (h : History log) (settings : Settings.Cache) : History { log with settings }
  | write {log : Log} (h : History log) (env : Environment) (logger : Option String) (entry : LogEntry) (timestamp : String) :
      History (log.write env logger entry timestamp).2

/-- Looking up the configuration of a logger touches no file. -/
theorem configurationFor_kept (log : Log) (logger : Option String) :
    (log.configurationFor logger).2.files = log.files ∧ (log.configurationFor logger).2.configuration = log.configuration := by
  unfold configurationFor
  split
  · exact ⟨rfl, rfl⟩
  · split <;> exact ⟨rfl, rfl⟩

/-- Writing changes neither the files nor the configuration. -/
theorem write_kept (log : Log) (env : Environment) (logger : Option String) (entry : LogEntry) (timestamp : String) :
    (log.write env logger entry timestamp).2.files = log.files ∧
      (log.write env logger entry timestamp).2.configuration = log.configuration := by
  have hkept := configurationFor_kept log logger
  have hread : ∀ log' : Log, (log'.readSettings env).2.files = log'.files ∧
      (log'.readSettings env).2.configuration = log'.configuration := fun _ => ⟨rfl, rfl⟩
  unfold write
  cases hfor : log.configurationFor logger with
  | mk configuration found =>
    rw [hfor] at hkept
    cases configuration with
    | none => exact hkept
    | some configuration =>
      have hread := hread found
      dsimp only
      split
      · cases hsettings : found.readSettings env with
        | mk r settled =>
          rw [hsettings] at hread
          have hsettled := And.intro (hread.1.trans hkept.1) (hread.2.trans hkept.2)
          cases r with
          | error e => exact hsettled
          | ok settings =>
            dsimp only
            split <;> exact hsettled
      · exact hkept

/-- The files of a log are sound, whatever has become of it. -/
theorem History.sound (h : History log) : log.files.Sound := by
  induction h with
  | fresh =>
    intro id
    simp [LogFiles.isOpen]
  | configure h filtering env refusal ih => exact (configured_configure _ filtering env refusal).sound ih
  | resettle _ _ ih => exact ih
  | write _ env logger entry timestamp ih =>
    rw [(write_kept _ env logger entry timestamp).1]
    exact ih

/-- However a log has been configured, at most one of all files that it ever opened is open, and that is the current
one. The next configuration, whether it succeeds or fails, leaves it so; closed files stay closed. If it succeeds with a
file, then that is open under the text of its path, and it is the file that was current before just if that was open
under the same text; without a file, none is open. -/
theorem files_of_history (h : History log) (filtering : Filtering) (env : Environment)
    (refusal : Path → Option CallError) :
    log.files.Sound ∧ (log.configure filtering env refusal).2.files.Sound ∧
    Remembers log.files (log.configure filtering env refusal).2.files ∧
    ((log.configure filtering env refusal).1 = .ok () → ∃ settings, (log.settings.get env).1 = .ok settings ∧
      (settings.logging.filePath = none → ∀ id, (log.configure filtering env refusal).2.files.isOpen id = false) ∧
      ∀ path, settings.logging.filePath = some path →
      ∃ id, (log.configure filtering env refusal).2.files.current = some id ∧
        (log.configure filtering env refusal).2.files.opened[id]? = some { name := toString path, isOpen := true } ∧
        (log.files.current = some id ↔ ∃ k, log.files.current = some k ∧
          log.files.opened[k]? = some { name := toString path, isOpen := true })) := by
  have hconfigured := configured_configure log filtering env refusal
  have hs := hconfigured.sound h.sound
  refine ⟨h.sound, hs, hconfigured.remembers, fun hok => ?_⟩
  rw [hok] at hconfigured
  cases hconfigured with
  | @done _ settings configuration hsettings hturned hnew =>
    refine ⟨settings, hsettings, fun hnone => ?_, fun path hpath => ?_⟩
    · rw [hnone] at hturned
      intro id
      rw [← Bool.not_eq_true, hs id, hturned.current_eq_none.2]
      exact fun hcurrent => nomatch hcurrent
    · rw [hpath] at hturned
      obtain ⟨id, -, hholds⟩ := hturned.holds
      refine ⟨id, hholds.current, hholds.file, fun hcurrent => ?_, fun ⟨k, hcurrent, hget⟩ => ?_⟩
      · obtain ⟨name, hbefore⟩ := h.sound.holds ((h.sound id).mpr hcurrent)
        obtain ⟨file, hfile, hname, -⟩ := hturned.remembers id _ hbefore.file
        rw [hholds.file] at hfile
        cases hfile
        obtain rfl : toString path = name := hname
        exact ⟨id, hcurrent, hbefore.file⟩
      · have hlt := (List.getElem?_eq_some_iff.mp hget).1
        have hopen := (hturned.isOpen_iff h.sound hlt).mpr ⟨_, rfl, hcurrent, hget⟩
        have hsame := ((hs k).mp hopen).symm.trans hholds.current
        rw [hcurrent, hsame]

/-- Settings with a log file in the root directory. -/
def filedIn (name : String) : Settings.Cache :=
  ⟨some { logging := { filePath := some ⟨.root, [name]⟩ } }⟩

/-- A log that has been configured with a file. -/
def openedLog : Log :=
  ({ settings := filedIn "a" : Log }.configure Journal.thresholdOf [] fun _ => none).2

/-- The same log after another file could not be opened. -/
def strandedLog : Log :=
  ({ openedLog with settings := filedIn "b" }.configure Journal.thresholdOf [] fun _ => some (.system ⟨.noEntry, "/b"⟩)).2

/-- The same log when it has been configured with the first file again. -/
def reopenedLog : Log :=
  ({ strandedLog with settings := filedIn "a" }.configure Journal.thresholdOf [] fun _ => none).2

theorem history_openedLog : History openedLog :=
  (History.fresh.resettle (filedIn "a")).configure Journal.thresholdOf [] _

theorem history_strandedLog : History strandedLog :=
  (history_openedLog.resettle (filedIn "b")).configure Journal.thresholdOf [] _

theorem history_reopenedLog : History reopenedLog :=
  (history_strandedLog.resettle (filedIn "a")).configure Journal.thresholdOf [] _

/-- The second file of the same name is a new one, which the next configuration keeps. -/
theorem files_of_history_reopened : strandedLog.files.current = none ∧ reopenedLog.files.Sound ∧
    reopenedLog.files.opened = [⟨"/a", false⟩, ⟨"/a", true⟩] ∧
    ∃ id, (reopenedLog.configure Journal.thresholdOf [] fun _ => none).2.files.current = some id ∧
    reopenedLog.files.current = some id := by
  obtain ⟨hsound, -, -, hsucceeds⟩ := files_of_history history_reopenedLog Journal.thresholdOf [] fun _ => none
  have hok : (reopenedLog.configure Journal.thresholdOf [] fun _ => none).1 = .ok () := by rfl
  obtain ⟨settings, hsettings, -, hfile⟩ := hsucceeds hok
  have hread : (reopenedLog.settings.get []).1 = .ok { logging := { filePath := some ⟨.root, ["a"]⟩ } } := by rfl
  rw [hread] at hsettings
  cases hsettings
  obtain ⟨id, hcurrent, -, hsame⟩ := hfile ⟨.root, ["a"]⟩ rfl
  exact ⟨by decide +kernel, hsound, by decide +kernel, id, hcurrent, hsame.mpr ⟨1, by decide +kernel, by decide +kernel⟩⟩

end Log

end DirWatch
