/-
  The output fast path (`LOG_LEVEL` of `runtime/log_level.rs`).

  Configuration calls keep a global threshold for the sinks that they install.

  * `Config.Sound`: what holds of every configuration that calls lead to.
  * `fast_path_agrees`: between the calls the threshold lets an event pass exactly
    if some installed sink does.
-/
import Eventline.Runtime.Logging
import Eventline.Runtime.Reconfigure
import Eventline.Writer.Sink

namespace Eventline

/-- `level_enabled`, for the threshold that it loads. -/
def levelEnabled (threshold : LogLevel) (kind : EventKind) : Bool :=
  threshold.toNat ≤ (levelForEventKind kind).toNat

/-- `enabled_for_record`. -/
def enabledForRecord (threshold : LogLevel) (record : Record) : Bool :=
  match record.kind with
  | .event kind _ _ => levelEnabled threshold kind
  | .scopeExit .. => true

/-- The level of the `FilteredWriter` of a sink. -/
def Sink.minLevel : Sink → LogLevel
  | stdout _ minLevel | file _ _ minLevel | rotating _ _ _ _ minLevel => minLevel

/-- The sink gets the record. -/
def Sink.takes (sink : Sink) (record : Record) : Bool := recordEnabledAtLevel record sink.minLevel

def InstalledWriter.sinks : InstalledWriter → List Sink
  | noop => []
  | async sinks _ => sinks

/-! ## Levels -/

theorem recordEnabledAtLevel_event {record : Record} {kind : EventKind} {name : String}
    {fields : Fields} (hkind : record.kind = .event kind name fields) (minLevel : LogLevel) :
    recordEnabledAtLevel record minLevel = levelEnabled minLevel kind := by
  unfold recordEnabledAtLevel levelEnabled
  rw [hkind]
  cases kind <;> exact decide_eq_decide.2 Nat.not_lt

/-- The threshold is the lowest level of the outputs that are on. -/
theorem effectiveLevel_le_iff {cfg : Config} {n : ℕ} (hn : n < LogLevel.off.toNat) :
    cfg.effectiveLevel.toNat ≤ n ↔
      cfg.consoleEnabled = true ∧ cfg.consoleLevel.toNat ≤ n ∨
        cfg.fileEnabled = true ∧ cfg.fileLevel.toNat ≤ n := by
  have hoff : ∀ level : LogLevel, level.toNat ≤ LogLevel.off.toNat := by
    intro level
    cases level <;> decide
  have hlt : ∀ a b : LogLevel, a < b ↔ a.toNat < b.toNat := fun _ _ => Iff.rfl
  have hconsole := hoff cfg.consoleLevel
  have hfile := hoff cfg.fileLevel
  unfold Config.effectiveLevel
  dsimp only
  simp only [hlt]
  cases cfg.consoleEnabled with
  | false =>
    cases cfg.fileEnabled with
    | false => simpa using hn
    | true =>
      simp only [Bool.false_eq_true, false_and, if_false, true_and, false_or]
      split_ifs <;> omega
  | true =>
    cases cfg.fileEnabled with
    | false =>
      simp only [Bool.false_eq_true, false_and, if_false, true_and, or_false]
      split_ifs <;> omega
    | true =>
      simp only [true_and]
      split_ifs <;> omega

theorem levelEnabled_effectiveLevel {cfg : Config} {kind : EventKind} :
    levelEnabled cfg.effectiveLevel kind = true ↔
      cfg.consoleEnabled = true ∧ levelEnabled cfg.consoleLevel kind = true ∨
        cfg.fileEnabled = true ∧ levelEnabled cfg.fileLevel kind = true := by
  have hkind : (levelForEventKind kind).toNat < LogLevel.off.toNat := by cases kind <;> decide
  simp only [levelEnabled, decide_eq_true_eq]
  exact effectiveLevel_le_iff hkind

/-! ## Configurations -/

/-- What holds of every configuration that calls lead to. -/
structure Config.Sound (cfg : Config) : Prop where
  file : cfg.fileEnabled = cfg.filePath.isSome
  policy : cfg.filePolicyMaxBytes.isSome = cfg.filePolicyKeepBackups.isSome
  rotates : cfg.filePolicyMaxBytes.isSome = true → cfg.fileEnabled = true
  retention : 0 < cfg.maxJournalRecords

namespace Config

theorem initial_sound : initial.Sound := ⟨rfl, rfl, by rintro ⟨⟩, by decide⟩

variable {cfg : Config} (h : cfg.Sound)
include h

theorem Sound.withoutFile : cfg.withoutFile.Sound := ⟨rfl, rfl, by rintro ⟨⟩, h.retention⟩

theorem Sound.withFile (path : String) (format : FileFormat) : (cfg.withFile path format).Sound :=
  ⟨rfl, rfl, by rintro ⟨⟩, h.retention⟩

theorem Sound.withRotation (path : String) (policy : LogPolicy) :
    (cfg.withRotation path policy).Sound := ⟨rfl, rfl, fun _ => rfl, h.retention⟩

theorem Sound.withRetention (maxRecords : ℕ) : (cfg.withRetention maxRecords).Sound :=
  ⟨h.file, h.policy, h.rotates, Nat.lt_of_lt_of_le Nat.one_pos (Nat.le_max_right ..)⟩

theorem Sound.setup (s : Setup) : (s.change cfg).Sound := by
  obtain ⟨verbose, level, consoleLevel, fileLevel, file, retention⟩ := s
  have hlevels : ∀ console file : LogLevel, Config.Sound
      { cfg with consoleEnabled := verbose, consoleLevel := console, fileLevel := file } :=
    fun _ _ => ⟨h.file, h.policy, h.rotates, h.retention⟩
  unfold Setup.change
  cases retention with
  | none =>
    rcases file with _ | (_ | path | path | ⟨path, policy, rotated⟩)
    · exact hlevels _ _
    · exact (hlevels _ _).withoutFile
    · exact (hlevels _ _).withFile path _
    · exact (hlevels _ _).withFile path _
    · exact (hlevels _ _).withRotation path policy
  | some maxRecords =>
    rcases file with _ | (_ | path | path | ⟨path, policy, rotated⟩)
    · exact (hlevels _ _).withRetention maxRecords
    · exact ((hlevels _ _).withRetention maxRecords).withoutFile
    · exact ((hlevels _ _).withRetention maxRecords).withFile path _
    · exact ((hlevels _ _).withRetention maxRecords).withFile path _
    · exact ((hlevels _ _).withRetention maxRecords).withRotation path policy

/-- **Every call keeps configurations sound.** -/
theorem Sound.change (c : ConfigCall) : (c.change cfg).Sound := by
  have hsame : ∀ cfg' : Config, cfg'.fileEnabled = cfg.fileEnabled → cfg'.filePath = cfg.filePath →
      cfg'.filePolicyMaxBytes = cfg.filePolicyMaxBytes →
      cfg'.filePolicyKeepBackups = cfg.filePolicyKeepBackups →
      cfg'.maxJournalRecords = cfg.maxJournalRecords → cfg'.Sound := by
    intro cfg' henabled hpath hmax hkeep hretention
    refine ⟨?_, ?_, ?_, hretention ▸ h.retention⟩
    · rw [henabled, hpath, h.file]
    · rw [hmax, hkeep, h.policy]
    · rw [hmax, henabled]
      exact h.rotates
  cases c with
  | setJournalRetention maxRecords => exact h.withRetention maxRecords
  | update c =>
    cases c with
    | enableFileOutput path => exact h.withFile path _
    | enableFileOutputJsonl path => exact h.withFile path _
    | enableFileOutputRotating path policy _ => exact h.withRotation path policy
    | disableFileOutput => exact h.withoutFile
    | disableAllOutput =>
      exact ⟨h.withoutFile.file, h.withoutFile.policy, h.withoutFile.rotates, h.retention⟩
    | setup s => exact h.setup s
    | _ => exact hsame _ rfl rfl rfl rfl rfl

/-- The sinks of a sound configuration are those of the outputs that are on. -/
theorem Sound.sink_iff (header : Option RunHeader) (p : LogLevel → Prop) :
    (∃ sink ∈ buildWriters cfg header, p sink.minLevel) ↔
      cfg.consoleEnabled = true ∧ p cfg.consoleLevel ∨ cfg.fileEnabled = true ∧ p cfg.fileLevel := by
  have hconsole : (∃ sink ∈ (if cfg.consoleEnabled then
      [Sink.stdout ⟨cfg.consoleColor, cfg.consoleShowScope, cfg.consoleShowScopeExit,
        cfg.consoleDuration, cfg.consoleTimestamp⟩ cfg.consoleLevel] else []), p sink.minLevel) ↔
      cfg.consoleEnabled = true ∧ p cfg.consoleLevel := by
    split_ifs with henabled
    · simp [henabled, Sink.minLevel]
    · simp [henabled]
  have hfile := h.file
  unfold buildWriters
  simp only [List.mem_append, or_and_right, exists_or]
  refine or_congr hconsole ?_
  cases hpath : cfg.filePath with
  | none =>
    rw [hpath] at hfile
    simp [hfile]
  | some path =>
    rw [hpath] at hfile
    simp only [hfile, Option.isSome_some, true_and]
    cases cfg.filePolicy <;> simp [Sink.minLevel]

end Config

/-! ## Runs -/

/-- The configuration that a call is about to install or commit. -/
def ConfigPc.pending : ConfigPc → Option Config
  | changed _ cfg _ | installed _ cfg _ | leveled _ cfg _ | committed _ cfg _ => some cfg
  | _ => none

namespace Configuration

variable {s s' : Configuration} {t : ThreadId}

/-- The configuration is sound, and those that calls are about to commit. -/
structure AllSound (s : Configuration) : Prop where
  config : s.st.config.Sound
  pending : ∀ t cfg, (s.threads t).pending = some cfg → cfg.Sound

theorem new_allSound : new.AllSound := ⟨Config.initial_sound, by rintro t cfg ⟨⟩⟩

/-- A thread moves on. -/
theorem AllSound.move (h : s.AllSound) {pc : ConfigPc}
    (hthreads : s'.threads = Function.update s.threads t pc) (hconfig : s'.st.config.Sound)
    (hpc : ∀ cfg, pc.pending = some cfg → cfg.Sound) : s'.AllSound := by
  refine ⟨hconfig, fun u cfg hcfg => ?_⟩
  rw [hthreads] at hcfg
  by_cases hu : u = t
  · subst hu
    rw [Function.update_self] at hcfg
    exact hpc cfg hcfg
  · rw [Function.update_of_ne hu] at hcfg
    exact h.pending u cfg hcfg

theorem AllSound.next (h : s.AllSound) (hs : s.next t = some s') : s'.AllSound := by
  unfold Configuration.next at hs
  split at hs
  · rename_i call before hpc
    dsimp only at hs
    split_ifs at hs
    · obtain rfl := Option.some.inj hs
      exact h.move (t := t) rfl h.config (by rintro cfg ⟨⟩)
    · obtain rfl := Option.some.inj hs
      refine h.move (t := t) rfl h.config ?_
      rintro cfg ⟨⟩
      exact h.config.change (.update call)
  · rename_i maxRecords before hpc
    obtain rfl := Option.some.inj hs
    exact h.move (t := t) rfl (h.config.withRetention maxRecords) (by rintro cfg ⟨⟩)
  · obtain rfl := Option.some.inj hs
    exact h.move (t := t) rfl h.config (by rintro cfg ⟨⟩)
  · obtain rfl := Option.some.inj hs
    exact h.move (t := t) rfl h.config (by rintro cfg ⟨⟩)
  · rename_i call cfg before hpc
    obtain rfl := Option.some.inj hs
    refine h.move (t := t) rfl h.config ?_
    rintro cfg ⟨⟩
    exact h.pending t _ (by rw [hpc]; rfl)
  · rename_i call cfg before hpc
    obtain rfl := Option.some.inj hs
    have hcfg : cfg.Sound := h.pending t _ (by rw [hpc]; rfl)
    refine h.move (t := t) rfl hcfg ?_
    rintro cfg ⟨⟩
    exact hcfg
  · obtain rfl := Option.some.inj hs
    exact h.move (t := t) rfl h.config (by rintro cfg ⟨⟩)
  · cases hs
  · cases hs
  · cases hs

/-- **Every step keeps the configurations sound**, also in the middle of calls. -/
theorem AllSound.step (h : s.AllSound) {a : ConfigAction} (hs : s.step a = some s') :
    s'.AllSound := by
  cases a with
  | call t c =>
    rw [Configuration.step] at hs
    split at hs
    · obtain rfl := Option.some.inj hs
      exact h.move (t := t) rfl h.config (by rintro cfg ⟨⟩)
    · cases hs
  | lock t =>
    rw [Configuration.step] at hs
    split at hs
    · obtain rfl := Option.some.inj hs
      exact h.move (t := t) rfl h.config (by rintro cfg ⟨⟩)
    · cases hs
  | next t => exact h.next hs
  | build t r =>
    rw [Configuration.step] at hs
    unfold Configuration.build at hs
    split at hs
    · obtain rfl := Option.some.inj hs
      exact h.move (t := t) rfl h.config (by rintro cfg ⟨⟩)
    · rename_i call cfg before hpc
      obtain rfl := Option.some.inj hs
      refine h.move (t := t) rfl h.config ?_
      rintro cfg ⟨⟩
      exact h.pending t _ (by rw [hpc]; rfl)
    · cases hs
  | recordError operation error =>
    obtain rfl := Option.some.inj hs
    exact ⟨h.config, h.pending⟩
  | setLogLevel level =>
    obtain rfl := Option.some.inj hs
    exact ⟨h.config, h.pending⟩

/-- How the fast path and the sinks agree. -/
structure FastPathAgrees (s : Configuration) : Prop where
  /-- at any moment -/
  sound : s.st.config.Sound
  /-- an event passes the threshold exactly if some sink gets it -/
  event : ∀ record kind name fields, record.kind = .event kind name fields →
    (enabledForRecord s.st.level record = true ↔
      ∃ sink ∈ s.st.writer.sinks, sink.takes record = true)
  /-- and the fast path holds back nothing -/
  record : ∀ sink ∈ s.st.writer.sinks, ∀ record, sink.takes record = true →
    enabledForRecord s.st.level record = true

/-- **The fast path agrees with the sinks**, for any number of threads, calls and
    failures: once an update has succeeded, between the calls, and as long as the
    threshold is not set directly. -/
theorem fast_path_agrees {actions : List ConfigAction} (hs : Machine.run step new actions = some s)
    (hidle : s.holder = none) (hdirect : s.direct = false)
    (hinstalled : ∃ e ∈ s.log, ∃ c, e.call = .update c ∧ e.result = .applied) :
    s.FastPathAgrees := by
  have hinv : s.Inv := Machine.run_invariant (fun _ _ _ h hs => h.step hs) hs new_inv
  have hsound : s.AllSound := Machine.run_invariant (fun _ _ _ h hs => h.step hs) hs new_allSound
  obtain ⟨-, ⟨header, hwriter⟩, hlevel⟩ := hinv.kept.settled hidle hinstalled
  have hevent : ∀ record kind name fields, record.kind = .event kind name fields →
      (enabledForRecord s.st.level record = true ↔
        ∃ sink ∈ s.st.writer.sinks, sink.takes record = true) := by
    intro record kind name fields hkind
    have htakes : ∀ sink : Sink, sink.takes record = levelEnabled sink.minLevel kind :=
      fun sink => recordEnabledAtLevel_event hkind _
    rw [hlevel hdirect, hwriter, enabledForRecord, hkind]
    simp only [htakes]
    rw [levelEnabled_effectiveLevel]
    exact (hsound.config.sink_iff header fun level => levelEnabled level kind = true).symm
  constructor
  · exact hsound.config
  · exact hevent
  · intro sink hsink record htakes
    cases hkind : record.kind with
    | event kind name fields => exact (hevent record kind name fields hkind).2 ⟨sink, hsink, htakes⟩
    | scopeExit outcome durationNs => rw [enabledForRecord, hkind]

/-- Two threads have configured the runtime. -/
theorem fast_path_agrees_concurrent : ∃ s, Machine.run step new concurrent = some s ∧
    s.st.level = .info ∧ s.FastPathAgrees := by
  obtain ⟨s, hs, hidle, hdirect, hlevel, hlog⟩ : ∃ s, Machine.run step new concurrent = some s ∧
    s.holder = none ∧ s.direct = false ∧ s.st.level = .info ∧
    ∃ e, s.log[0]? = some e ∧ e.call = .update .initSync ∧ e.result = .applied :=
    ⟨_, rfl, rfl, rfl, rfl, _, rfl, rfl, rfl⟩
  obtain ⟨e, he, hcall, hresult⟩ := hlog
  exact ⟨s, hs, hlevel, fast_path_agrees hs hidle hdirect
    ⟨e, List.mem_of_getElem? he, _, hcall, hresult⟩⟩

end Configuration

end Eventline
