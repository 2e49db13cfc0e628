/-
  The output configuration of the runtime (`runtime/mod.rs`, `configure.rs`)
  and the calls that change it.

  * `OutputCall`: the callers of `update_writers`, each with the change of the
    configuration, the header and the `force` flag that it passes.
  * `Configuration.step`: any number of threads in such calls, section by
    section.  The calls exclude each other by the mutex `last_cfg`; whether
    opening, rotating, header writing, metadata seeding and thread start succeed
    is part of the step.  The writer mutex, which they take under `last_cfg`, is
    left out: no other call replaces the installed writer.
  * The history fields (`background`, `direct`, `during`, `log`) are read by no
    step.
-/
import Eventline.Writer.Files
import Eventline.Writer.Async
import Eventline.Runtime.Machine

namespace Eventline

inductive LogLevel where
  | debug
  | info
  | warning
  | error
  | off
  deriving DecidableEq, Repr

/-- The discriminant. -/
def LogLevel.toNat : LogLevel → ℕ
  | debug => 0
  | info => 1
  | warning => 2
  | error => 3
  | off => 4

instance : LT LogLevel := ⟨fun a b => a.toNat < b.toNat⟩

instance (a b : LogLevel) : Decidable (a < b) := inferInstanceAs (Decidable (a.toNat < b.toNat))

inductive FileFormat where
  | text
  | jsonl
  deriving DecidableEq, Repr

structure RunHeader where
  title : String
  showPid : Bool
  width : ℕ
  deriving DecidableEq, Repr

structure Config where
  consoleEnabled : Bool
  consoleLevel : LogLevel
  consoleColor : Bool
  consoleShowScope : Bool
  consoleShowScopeExit : Bool
  consoleDuration : Bool
  consoleTimestamp : Bool
  fileEnabled : Bool
  fileLevel : LogLevel
  filePath : Option String
  fileFormat : FileFormat
  filePolicyMaxBytes : Option ℕ
  filePolicyKeepBackups : Option ℕ
  maxJournalRecords : ℕ
  writerMode : WriteMode
  deriving DecidableEq, Repr

namespace Config

/-- `Config::default`. -/
def initial : Config where
  consoleEnabled := true
  consoleLevel := .info
  consoleColor := true
  consoleShowScope := true
  consoleShowScopeExit := true
  consoleDuration := false
  consoleTimestamp := false
  fileEnabled := false
  fileLevel := .debug
  filePath := none
  fileFormat := .text
  filePolicyMaxBytes := none
  filePolicyKeepBackups := none
  maxJournalRecords := defaultMaxJournalRecords
  writerMode := .bestEffort

def filePolicy (cfg : Config) : Option LogPolicy := do
  let maxBytes ← cfg.filePolicyMaxBytes
  let keepBackups ← cfg.filePolicyKeepBackups
  some ⟨maxBytes, keepBackups⟩

def effectiveLevel (cfg : Config) : LogLevel :=
  let level := LogLevel.off
  let level := if cfg.consoleEnabled ∧ cfg.consoleLevel < level then cfg.consoleLevel else level
  if cfg.fileEnabled ∧ cfg.fileLevel < level then cfg.fileLevel else level

end Config

/-! ## The installed writer -/

structure ConsoleStyle where
  color : Bool
  showScope : Bool
  showScopeExit : Bool
  showDuration : Bool
  showTimestamp : Bool
  deriving DecidableEq, Repr

structure FileStyle where
  showTimestamp : Bool
  showScope : Bool
  format : FileFormat
  deriving DecidableEq, Repr

/-- A sink of the `MultiWriter`, with the level of its `FilteredWriter`. -/
inductive Sink where
  | stdout (style : ConsoleStyle) (minLevel : LogLevel)
  | file (path : String) (style : FileStyle) (minLevel : LogLevel)
  | rotating (path : String) (style : FileStyle) (policy : LogPolicy) (header : Option RunHeader)
      (minLevel : LogLevel)

/-- The sinks that `build_writers` adds; none makes a `NoopWriter`. -/
def buildWriters (cfg : Config) (header : Option RunHeader) : List Sink :=
  let console : List Sink :=
    if cfg.consoleEnabled then
      [.stdout ⟨cfg.consoleColor, cfg.consoleShowScope, cfg.consoleShowScopeExit, cfg.consoleDuration,
        cfg.consoleTimestamp⟩ cfg.consoleLevel]
    else []
  let file : List Sink :=
    match cfg.fileEnabled, cfg.filePath with
    | true, some path =>
      let style : FileStyle := ⟨true, true, cfg.fileFormat⟩
      match cfg.filePolicy with
      | some policy => [.rotating path style policy header cfg.fileLevel]
      | none => [.file path style cfg.fileLevel]
    | _, _ => []
  console ++ file

inductive InstalledWriter where
  /-- the `NoopWriter` that the runtime starts with -/
  | noop
  /-- an `AsyncWriter` over these sinks -/
  | async (sinks : List Sink) (mode : WriteMode)

/-! ## The calls -/

inductive FileSetup where
  | off
  | plain (path : String)
  | jsonl (path : String)
  | rotating (path : String) (policy : LogPolicy) (header : Option RunHeader)

structure Setup where
  verbose : Bool
  level : Option LogLevel
  consoleLevel : Option LogLevel
  fileLevel : Option LogLevel
  file : Option FileSetup
  journalRetention : Option ℕ

/-- The callers of `update_writers`. -/
inductive OutputCall where
  | initSync
  | enableConsoleOutput (enable : Bool)
  | setConsoleLevel (level : LogLevel)
  | enableConsoleColor (enable : Bool)
  | enableConsoleScopeLabels (enable : Bool)
  | enableConsoleScopeExits (enable : Bool)
  | enableConsoleDuration (enable : Bool)
  | enableConsoleTimestamp (enable : Bool)
  | enableFileOutput (path : String)
  | setFileLevel (level : LogLevel)
  | setFileFormat (format : FileFormat)
  | setWriterMode (mode : WriteMode)
  | enableFileOutputJsonl (path : String)
  | enableFileOutputRotating (path : String) (policy : LogPolicy) (header : Option RunHeader)
  | disableFileOutput
  | disableAllOutput
  /-- `apply_setup` -/
  | setup (s : Setup)

/-- No file output. -/
def Config.withoutFile (cfg : Config) : Config :=
  { cfg with
    fileEnabled := false, filePath := none, filePolicyMaxBytes := none
    filePolicyKeepBackups := none }

/-- Output to a file that is not rotated. -/
def Config.withFile (cfg : Config) (path : String) (format : FileFormat) : Config :=
  { cfg with
    fileEnabled := true, filePath := some path, fileFormat := format, filePolicyMaxBytes := none
    filePolicyKeepBackups := none }

/-- Output to a file that is rotated. -/
def Config.withRotation (cfg : Config) (path : String) (policy : LogPolicy) : Config :=
  { cfg with
    fileEnabled := true, filePath := some path, filePolicyMaxBytes := some policy.maxBytes
    filePolicyKeepBackups := some policy.keepBackups }

/-- `max_journal_records`, at least one. -/
def Config.withRetention (cfg : Config) (maxRecords : ℕ) : Config :=
  { cfg with maxJournalRecords := max maxRecords 1 }

/-- The change of `apply_setup`. -/
def Setup.change (s : Setup) (cfg : Config) : Config :=
  let sharedLevel := s.level.getD (if s.verbose then .debug else .info)
  let cfg := { cfg with
    consoleEnabled := s.verbose
    consoleLevel := s.consoleLevel.getD sharedLevel
    fileLevel := s.fileLevel.getD sharedLevel }
  let cfg := match s.journalRetention with
    | some maxRecords => cfg.withRetention maxRecords
    | none => cfg
  match s.file with
  | none => cfg
  | some .off => cfg.withoutFile
  | some (.plain path) => cfg.withFile path .text
  | some (.jsonl path) => cfg.withFile path .jsonl
  | some (.rotating path policy _) => cfg.withRotation path policy

namespace OutputCall

def change (cfg : Config) : OutputCall → Config
  | initSync => cfg
  | enableConsoleOutput enable => { cfg with consoleEnabled := enable }
  | setConsoleLevel level => { cfg with consoleLevel := level }
  | enableConsoleColor enable => { cfg with consoleColor := enable }
  | enableConsoleScopeLabels enable => { cfg with consoleShowScope := enable }
  | enableConsoleScopeExits enable => { cfg with consoleShowScopeExit := enable }
  | enableConsoleDuration enable => { cfg with consoleDuration := enable }
  | enableConsoleTimestamp enable => { cfg with consoleTimestamp := enable }
  | enableFileOutput path => cfg.withFile path .text
  | setFileLevel level => { cfg with fileLevel := level }
  | setFileFormat format => { cfg with fileFormat := format }
  | setWriterMode mode => { cfg with writerMode := mode }
  | enableFileOutputJsonl path => cfg.withFile path .jsonl
  | enableFileOutputRotating path policy _ => cfg.withRotation path policy
  | disableFileOutput => cfg.withoutFile
  | disableAllOutput => { cfg.withoutFile with consoleEnabled := false }
  | setup s => s.change cfg

def header : OutputCall → Option RunHeader
  | enableFileOutputRotating _ _ header => header
  | setup s =>
    match s.file with
    | some (.rotating _ _ header) => header
    | _ => none
  | _ => none

def force : OutputCall → Bool
  | enableFileOutput _ | enableFileOutputJsonl _ | enableFileOutputRotating .. => true
  | setup s =>
    match s.file with
    | some (.plain _) | some (.jsonl _) | some (.rotating ..) => true
    | _ => false
  | _ => false

end OutputCall

inductive ConfigCall where
  | update (c : OutputCall)
  | setJournalRetention (maxRecords : ℕ)

/-- The change that the call makes when it succeeds. -/
def ConfigCall.change (cfg : Config) : ConfigCall → Config
  | update c => c.change cfg
  | setJournalRetention maxRecords => cfg.withRetention maxRecords

/-! ## The calls under concurrency -/

/-- The state that the calls change together. -/
@[ext]
structure OutputState where
  config : Config
  lastCfg : Option Config
  writer : InstalledWriter
  level : LogLevel

inductive CallResult where
  /-- a writer was installed, or the retention set -/
  | applied
  /-- the shortcut: nothing was to change -/
  | unchanged
  | failed (error : IoError)
  deriving DecidableEq

def CallResult.isFailed : CallResult → Bool
  | failed _ => true
  | _ => false

/-- A call that returned, with the state when it locked `last_cfg` and when it
    unlocked it, and the levels that `set_log_level` set in between. -/
structure CallEntry where
  call : ConfigCall
  result : CallResult
  before : OutputState
  after : OutputState
  during : List LogLevel

/-- Where a thread is in a configuration call; `before` is history. -/
inductive ConfigPc where
  | user
  /-- waiting for `last_cfg` -/
  | waiting (call : ConfigCall)
  /-- `last_cfg` is locked -/
  | locked (call : ConfigCall) (before : OutputState)
  /-- `set_journal_retention`: the configuration is written -/
  | retained (maxRecords : ℕ) (before : OutputState)
  /-- `update_writers`: the request is not cut short -/
  | changed (call : OutputCall) (cfg : Config) (before : OutputState)
  /-- the error of the setup is recorded -/
  | failed (call : OutputCall) (error : IoError) (before : OutputState)
  /-- the new writer is installed -/
  | installed (call : OutputCall) (cfg : Config) (before : OutputState)
  /-- the global level is set -/
  | leveled (call : OutputCall) (cfg : Config) (before : OutputState)
  /-- the configuration is written -/
  | committed (call : OutputCall) (cfg : Config) (before : OutputState)

structure Configuration where
  st : OutputState
  state : WriterState
  /-- the thread that has locked `last_cfg` -/
  holder : Option ThreadId
  threads : ThreadId → ConfigPc
  /-- the failed operations that no setup recorded -/
  background : ℕ
  /-- `set_log_level` was called directly -/
  direct : Bool
  /-- the levels that it set since `last_cfg` was locked last -/
  during : List LogLevel
  /-- the calls that returned, in the order in which they had the lock -/
  log : List CallEntry

inductive ConfigAction where
  | call (t : ThreadId) (c : ConfigCall)
  | lock (t : ThreadId)
  /-- the next section of a call that has the lock -/
  | next (t : ThreadId)
  /-- the old writer is drained, then `build_writers` and the thread start end -/
  | build (t : ThreadId) (r : IoResult)
  /-- a worker or a flush records a failed operation -/
  | recordError (operation : String) (error : IoError)
  | setLogLevel (level : LogLevel)

namespace Configuration

/-- Before any call. -/
def new : Configuration where
  st := ⟨.initial, none, .noop, .info⟩
  state := .new
  holder := none
  threads _ := .user
  background := 0
  direct := false
  during := []
  log := []

def goto (s : Configuration) (t : ThreadId) (pc : ConfigPc) : Configuration :=
  { s with threads := Function.update s.threads t pc }

/-- The call returns: `last_cfg` is unlocked. -/
def ret (s : Configuration) (t : ThreadId) (call : ConfigCall) (result : CallResult)
    (before : OutputState) : Configuration :=
  { s.goto t .user with holder := none, log := s.log ++ [⟨call, result, before, s.st, s.during⟩] }

/-- The text of a failed setup. -/
def operation (cfg : Config) : String :=
  match cfg.filePath, cfg.fileEnabled with
  | some path, true => "configuring output for log file '" ++ path ++ "'"
  | _, _ => "configuring output"

/-- The next section of a call. -/
def next (s : Configuration) (t : ThreadId) : Option Configuration :=
  match s.threads t with
  | .locked (.update call) before =>
    let cfg := call.change s.st.config
    if call.force = false ∧ s.st.lastCfg = some cfg then
      some (s.ret t (.update call) .unchanged before)
    else some (s.goto t (.changed call cfg before))
  | .locked (.setJournalRetention maxRecords) before =>
    some ({ s with st.config := s.st.config.withRetention maxRecords }.goto t
      (.retained maxRecords before))
  | .retained maxRecords before =>
    some ({ s with
      st.lastCfg := s.st.lastCfg.map (Config.withRetention · maxRecords) }.ret t
        (.setJournalRetention maxRecords) .applied before)
  | .failed call error before => some (s.ret t (.update call) (.failed error) before)
  | .installed call cfg before =>
    some ({ s with st.level := cfg.effectiveLevel }.goto t (.leveled call cfg before))
  | .leveled call cfg before =>
    some ({ s with st.config := cfg }.goto t (.committed call cfg before))
  | .committed call cfg before =>
    some ({ s with st.lastCfg := some cfg }.ret t (.update call) .applied before)
  | .user | .waiting _ | .changed .. => none

def build (s : Configuration) (t : ThreadId) (r : IoResult) : Option Configuration :=
  match s.threads t, r with
  | .changed call cfg before, .error error =>
    some ({ s with state := s.state.recordError (operation cfg) error }.goto t
      (.failed call error before))
  | .changed call cfg before, .ok () =>
    some ({ s with st.writer := .async (buildWriters cfg call.header) cfg.writerMode }.goto t
      (.installed call cfg before))
  | _, _ => none

def step (s : Configuration) : ConfigAction → Option Configuration
  | .call t c =>
    match s.threads t with
    | .user => some (s.goto t (.waiting c))
    | _ => none
  | .lock t =>
    match s.threads t, s.holder with
    | .waiting c, none => some { s.goto t (.locked c s.st) with holder := some t, during := [] }
    | _, _ => none
  | .next t => s.next t
  | .build t r => s.build t r
  | .recordError operation error =>
    some { s with state := s.state.recordError operation error, background := s.background + 1 }
  | .setLogLevel level =>
    some { s with st.level := level, direct := true, during := s.during ++ [level] }

end Configuration

end Eventline
