/-
  The ways into `runtime::emit`: the logging macros (`macros.rs`) and the bridges
  from the crates `log` and `tracing` (`integrations.rs`), with the recording
  threshold (`runtime/log_level.rs`).

  A call checks what its kind of entry checks, formats its arguments, and emits.
  Formatting runs user code, which may log, change the threshold or unwind, so
  each thread has a stack of calls that are being formatted.

  * `Logging.step`: a step of the process with its logging calls; `emitted` is
    history.
  * `Logging.Entered`: the records of events are those of the calls, in order.
  * `Logging.run_native`: the macros respect the threshold in every run.
  * `threshold_holds`: so does every run whose bridge calls are not below it, and
    no call below it that is emitted does.
-/
import Eventline.Runtime.Config
import Eventline.Runtime.Live

namespace Eventline

/-! ## Levels -/

def levelForEventKind : EventKind → LogLevel
  | .debug => .debug
  | .info => .info
  | .warning => .warning
  | .error => .error

/-- `recording_enabled`, for the threshold that it loads. -/
def recordingEnabled (threshold : LogLevel) (kind : EventKind) : Bool :=
  threshold.toNat ≤ (levelForEventKind kind).toNat

theorem recordingEnabled_iff {threshold : LogLevel} {kind : EventKind} :
    recordingEnabled threshold kind = true ↔ ¬ levelForEventKind kind < threshold := by
  simp only [recordingEnabled, decide_eq_true_eq]
  exact Nat.not_lt.symm

/-- `log::Level` and `tracing::Level`. -/
inductive FacadeLevel where
  | error
  | warn
  | info
  | debug
  | trace
  deriving DecidableEq, Repr

/-- `map_level`, the same for both crates. -/
def mapLevel : FacadeLevel → EventKind
  | .error => .error
  | .warn => .warning
  | .info => .info
  | .debug | .trace => .debug

/-- `log::LevelFilter`. -/
inductive LevelFilter where
  | off
  | upTo (level : FacadeLevel)
  deriving DecidableEq, Repr

def FacadeLevel.toNat : FacadeLevel → ℕ
  | error => 1
  | warn => 2
  | info => 3
  | debug => 4
  | trace => 5

def LevelFilter.toNat : LevelFilter → ℕ
  | off => 0
  | upTo level => level.toNat

/-- `EventlineLogger::enabled`. -/
def EventlineLogger.enabled (maxLevel : LevelFilter) (level : FacadeLevel) : Bool :=
  level.toNat ≤ maxLevel.toNat

/-! ## Arguments -/

/-- `__eventline_fields!`. -/
def eventlineFields (entries : List (String × Value)) : Fields :=
  entries.foldl (fun f x => f.insert x.1 x.2) .new

structure EventVisitor where
  message : Option String
  fields : Fields

/-- A field that `event.record` passes to the visitor; what has no method of its
    own comes as its debug text. -/
inductive Visited where
  | debug (text : String)
  | i64 (n : Int64)
  | u64 (n : UInt64)
  | bool (b : Bool)
  | str (text : String)

namespace EventVisitor

/-- `EventVisitor::default()`. -/
def new : EventVisitor := ⟨none, .new⟩

/-- The methods of `Visit`: the text for the message, the value for a field. -/
def recordAs (v : EventVisitor) (name : String) (text : String) (value : Value) : EventVisitor :=
  if name = "message" then { v with message := some text }
  else { v with fields := v.fields.insert name value }

def record (v : EventVisitor) (field : String × Visited) : EventVisitor :=
  match field.2 with
  | .debug text => v.recordAs field.1 text (.string text)
  | .i64 n => v.recordAs field.1 (toString n) (.int n)
  | .u64 n => v.recordAs field.1 (toString n) (.uint n)
  | .bool b => v.recordAs field.1 (toString b) (.bool b)
  | .str text => v.recordAs field.1 text (.string text)

end EventVisitor

/-- The arguments of a call, once formatted. -/
inductive Arguments where
  /-- the first arm of a macro -/
  | fields (message : String) (entries : List (String × Value))
  /-- the second arm of a macro, and a record of `log` -/
  | format (message : String)
  /-- an event of `tracing`: the name of its metadata, and its fields -/
  | event (name : String) (entries : List (String × Visited))

/-- The message and the fields that are emitted. -/
def Arguments.emitted : Arguments → String × Fields
  | .fields message entries => (message, eventlineFields entries)
  | .format message => (message, .new)
  | .event name entries =>
    let visitor := entries.foldl EventVisitor.record .new
    (visitor.message.getD name, visitor.fields)

/-! ## Calls -/

/-- The macros `info!`, `debug!`, `warn!` and `error!`. -/
inductive LogMacro where
  | info
  | debug
  | warn
  | error
  deriving DecidableEq, Repr

def LogMacro.kind : LogMacro → EventKind
  | info => .info
  | debug => .debug
  | warn => .warning
  | error => .error

inductive EntryPath where
  | native (name : LogMacro)
  | log (level : FacadeLevel)
  | tracing (level : FacadeLevel)
  deriving DecidableEq, Repr

namespace EntryPath

def kind : EntryPath → EventKind
  | native name => name.kind
  | log level | tracing level => mapLevel level

/-- The arguments that a call of this kind can have. -/
def takes : EntryPath → Arguments → Bool
  | native _, .fields _ entries => !entries.isEmpty
  | native _, .format _ => true
  | log _, .format _ => true
  | tracing _, .event _ _ => true
  | _, _ => false

end EntryPath

/-- A call that was let through, and the threshold when it was made. -/
structure LogCall where
  path : EntryPath
  threshold : LogLevel
  deriving DecidableEq, Repr

/-- The event is below the threshold that was in force. -/
def LogCall.Below (c : LogCall) : Prop := levelForEventKind c.path.kind < c.threshold

/-- A record that was pushed for a call. -/
structure Emission where
  record : Record
  call : LogCall

structure Logging where
  process : Process
  /-- `RECORD_LEVEL` -/
  recordLevel : LogLevel
  /-- `log::max_level()` -/
  maxLevel : LevelFilter
  /-- the calls that a thread is formatting, the innermost first -/
  formatting : ThreadId → List LogCall
  emitted : List Emission

inductive LogAction where
  | setRecordLevel (level : LogLevel)
  | setMaxLevel (level : LevelFilter)
  /-- a logging call up to its check -/
  | log (t : ThreadId) (path : EntryPath)
  /-- the innermost call is formatted, and in `runtime::emit` -/
  | emit (t : ThreadId) (arguments : Arguments) (nanos : UInt64)
  /-- formatting the innermost call unwinds -/
  | unwind (t : ThreadId)
  /-- anything else, but for `runtime::emit` called directly -/
  | other (a : Action)

namespace Logging

/-- The check of a call: the macros ask for the recording threshold, the bridge
    from `log` for that of `log`, and the one from `tracing` for nothing. -/
def admits (w : Logging) : EntryPath → Bool
  | .native name => recordingEnabled w.recordLevel name.kind
  | .log level => EventlineLogger.enabled w.maxLevel level
  | .tracing _ => true

def log (w : Logging) (t : ThreadId) (path : EntryPath) : Option Logging :=
  match (w.process.threads t).pc with
  | .user =>
    some (if w.admits path then
      { w with
        formatting :=
          Function.update w.formatting t (⟨path, w.recordLevel⟩ :: w.formatting t) }
    else w)
  | _ => none

def emit (w : Logging) (t : ThreadId) (arguments : Arguments) (nanos : UInt64) : Option Logging :=
  match w.formatting t with
  | [] => none
  | call :: calls =>
    if call.path.takes arguments then do
      let process ← w.process.step
        (.call t (.emit call.path.kind arguments.emitted.1 arguments.emitted.2 nanos))
      let record ← process.runtime.pushed.getLast?
      some { w with
        process
        formatting := Function.update w.formatting t calls
        emitted := w.emitted ++ [⟨record, call⟩] }
    else none

def unwind (w : Logging) (t : ThreadId) : Option Logging :=
  match (w.process.threads t).pc, w.formatting t with
  | .user, _ :: calls => some { w with formatting := Function.update w.formatting t calls }
  | _, _ => none

def other (w : Logging) (a : Action) : Option Logging :=
  match a with
  | .call _ (.emit ..) => none
  | a => (w.process.step a).map fun process => { w with process }

def step (w : Logging) : LogAction → Option Logging
  | .setRecordLevel level => some { w with recordLevel := level }
  | .setMaxLevel level => some { w with maxLevel := level }
  | .log t path => w.log t path
  | .emit t arguments nanos => w.emit t arguments nanos
  | .unwind t => w.unwind t
  | .other a => w.other a

/-- A process before any activity: everything is recorded, and `log` is off. -/
def new (runId : String) (wantsScopeMetadata : Bool) (maxJournalRecords : ℕ) : Logging where
  process := .new runId wantsScopeMetadata maxJournalRecords
  recordLevel := .debug
  maxLevel := .off
  formatting _ := []
  emitted := []

end Logging

/-! ## What is pushed -/

/-- The kind of a record that is an event. -/
def Record.eventKind (r : Record) : Option EventKind :=
  match r.kind with
  | .event kind _ _ => some kind
  | .scopeExit .. => none

/-- The record that a thread has in hand. -/
def Thread.record (th : Thread) : Option Record := th.inHand.bind (·.record)

/-- What a section may push: `emit` an event of its kind, the others no event. -/
def Act.Pushes : Act → Option Record → Prop
  | .emit kind _ _ _, added => ∃ x, added = some x ∧ x.eventKind = some kind
  | _, added => ∀ x, added = some x → x.eventKind = none

/-- The records of a section: what it pushes, and who has a record after it. -/
structure SectionRecords (r : Runtime) (th : Thread) (a : Act) (r' : Runtime) (th' : Thread)
    (added : Option Record) : Prop where
  pushed : r'.pushed = r.pushed ++ added.toList
  pushes : a.Pushes added
  inHand : ∀ x, th'.record = some x → th.record = some x ∨ added = some x
  written : ∀ x ∈ r'.writtenRecords, x ∈ r.writtenRecords ∨ th.record = some x

section
variable {r r' : Runtime} {th th' : Thread} {a : Act}

/-- A section that pushes nothing. -/
theorem SectionRecords.quiet (hpushed : r'.pushed = r.pushed) (hpushes : a.Pushes none)
    (hhand : ∀ x, th'.record = some x → th.record = some x)
    (hwritten : ∀ x ∈ r'.writtenRecords, x ∈ r.writtenRecords ∨ th.record = some x) :
    SectionRecords r th a r' th' none where
  pushed := by rw [hpushed, Option.toList_none, List.append_nil]
  pushes := hpushes
  inHand x hx := .inl (hhand x hx)
  written := hwritten

theorem Thread.record_of_pc (h : th'.pc = th.pc) : th'.record = th.record := by
  rw [Thread.record, Thread.record, Thread.inHand, Thread.inHand, h]

theorem writtenRecords_call (r : Runtime) (c : WriterCall) :
    Runtime.writtenRecords { r with writer := r.writer.call c } =
      r.writtenRecords ++ c.parts.record.toList := by
  rw [Runtime.writtenRecords, Runtime.written, AttachedWriter.call, List.map_append,
    List.filterMap_append]
  cases c <;> rfl

/-- **The records of a critical section.** -/
theorem Section.records (hwf : r.journal.WF) (h : Section r th a r' th') :
    ∃ added, SectionRecords r th a r' th' added := by
  cases h with
  | @emit kind message fields nanos j id record scope hpc h =>
    obtain ⟨-, -, -, -, -, rfl, -⟩ := Journal.recordNoWriteInScope_inv hwf h
    exact ⟨some _, rfl, ⟨_, rfl, rfl⟩, fun x hx => .inr hx, fun x hx => .inl hx⟩
  | @exitScope id outcome finishedAt millis nanos j rid record scope hpc h =>
    obtain ⟨-, -, -, -, -, -, -, hpayload⟩ := Journal.exitScopeNoWrite_inv hwf h
    split at hpayload
    · cases hpayload.1
    · obtain ⟨record', heq, hrecord, -⟩ := hpayload
      obtain ⟨rfl, -⟩ := Prod.mk.inj (Option.some.inj heq)
      refine ⟨some record, rfl, ?_, fun x hx => .inr hx, fun x hx => .inl hx⟩
      rintro x ⟨⟩
      rw [hrecord]
      rfl
  | @write record scope hpc hfree =>
    refine ⟨none, .quiet rfl (by rintro _ ⟨⟩) (by rintro x ⟨⟩) fun x hx => ?_⟩
    rw [writtenRecords_call, List.mem_append] at hx
    refine hx.imp id fun hx => ?_
    rw [Thread.record, Thread.inHand, hpc]
    exact (Option.mem_toList.1 hx).symm ▸ rfl
  | @found id scope hpc h =>
    refine ⟨none, .quiet rfl (by rintro _ ⟨⟩) (by rintro x ⟨⟩) fun x hx => .inl ?_⟩
    rw [← (writtenRecords_call r (.scope scope)).trans (List.append_nil _)]
    exact hx
  | @updateWriters wants hpc hfree =>
    refine ⟨none, .quiet rfl (by rintro _ ⟨⟩) (fun x hx => hx) fun x hx => ?_⟩
    obtain ⟨p, hp, hpx⟩ := List.mem_filterMap.1 hx
    obtain ⟨c, hc, rfl⟩ := List.mem_map.1 hp
    split_ifs at hc
    · obtain ⟨s, -, rfl⟩ := List.mem_map.1 hc
      cases hpx
    · cases hc
  | @count record scope pc hpc hnext =>
    refine ⟨none, .quiet rfl (by rintro _ ⟨⟩) (fun x hx => ?_) fun x hx => .inl hx⟩
    rw [Thread.record, Thread.inHand, hpc]
    rcases hnext with rfl | rfl
    · exact hx
    · exact hx
  | @due record scope hpc =>
    refine ⟨none, .quiet rfl (by rintro _ ⟨⟩) (fun x hx => ?_) fun x hx => .inl hx⟩
    rw [Thread.record, Thread.inHand, hpc]
    exact hx
  | @trim max record scope j₁ j₂ hpc =>
    refine ⟨none, .quiet rfl (by rintro _ ⟨⟩) (fun x hx => ?_) fun x hx => .inl hx⟩
    rw [Thread.record, Thread.inHand, hpc]
    exact hx
  | enterScope | lock | unwanted | panic | clear | finishClear =>
    exact ⟨none, .quiet rfl (by rintro _ ⟨⟩) (by rintro x ⟨⟩) fun x hx => .inl hx⟩
  | exitNothing | messages | retention =>
    exact ⟨none, .quiet rfl (by rintro _ ⟨⟩) (fun x hx => hx) fun x hx => .inl hx⟩

end

/-- Every record that a thread has in hand or the writer got was pushed. -/
structure Process.HoldsPushed (s : Process) : Prop where
  journal : s.runtime.journal.WF
  inHand : ∀ t x, (s.threads t).record = some x → x ∈ s.runtime.pushed
  written : ∀ x ∈ s.runtime.writtenRecords, x ∈ s.runtime.pushed

namespace Process

variable {s s' : Process}

theorem new_holdsPushed (runId : String) (wantsScopeMetadata : Bool) (maxJournalRecords : ℕ) :
    (new runId wantsScopeMetadata maxJournalRecords).HoldsPushed where
  journal := Journal.new_wf runId
  inHand t x hx := by cases hx
  written x hx := by cases hx

/-- **A call** pushes what its section pushes. -/
theorem HoldsPushed.call (h : s.HoldsPushed) {t : ThreadId} {a : Act}
    (hs : s.step (.call t a) = some s') :
    s'.HoldsPushed ∧ ∃ added, a.Pushes added ∧ s'.runtime.pushed = s.runtime.pushed ++ added.toList := by
  obtain ⟨r, th, hsec, hr, hthreads, -⟩ := call_inv hs
  obtain ⟨added, hpushed, hpushes, hhand, hwritten⟩ := hsec.records h.journal
  have hmem : ∀ x, x ∈ s.runtime.pushed ∨ added = some x → x ∈ r.pushed := by
    intro x hx
    rw [hpushed, List.mem_append, Option.mem_toList]
    exact hx
  refine ⟨⟨hr ▸ hsec.wf h.journal, ?_, ?_⟩, added, hpushes, by rw [hr, hpushed]⟩
  · rw [hr, hthreads]
    refine (Function.forall_update_iff s.threads
      (p := fun _ th => ∀ x, th.record = some x → x ∈ r.pushed)).2 ⟨?_, ?_⟩
    · exact fun x hx => hmem x ((hhand x hx).imp (h.inHand t x) id)
    · exact fun u _ x hx => hmem x (.inl (h.inHand u x hx))
  · intro x hx
    rw [hr] at hx ⊢
    exact hmem x (.inl ((hwritten x hx).elim (h.written x) (h.inHand t x)))

/-- A step that is no `emit` pushes no event. -/
theorem HoldsPushed.other (h : s.HoldsPushed) {a : Action}
    (ha : ∀ t kind message fields nanos, a ≠ .call t (.emit kind message fields nanos))
    (hs : s.step a = some s') :
    s'.HoldsPushed ∧ s'.runtime.pushed.filter (·.eventKind.isSome) =
      s.runtime.pushed.filter (·.eventKind.isSome) := by
  by_cases hcall : ∃ t b, a = .call t b
  · obtain ⟨t, b, rfl⟩ := hcall
    obtain ⟨h', added, hpushes, hpushed⟩ := h.call hs
    refine ⟨h', ?_⟩
    have hnone : ∀ x, added = some x → x.eventKind = none := by
      cases b with
      | emit kind message fields nanos => exact absurd rfl (ha t kind message fields nanos)
      | _ => exact hpushes
    rw [hpushed, List.filter_append]
    cases added with
    | none => exact List.append_nil _
    | some x => simp [hnone x rfl]
  · obtain ⟨hruntime, hthreads⟩ := step_context hs fun t b hb => hcall ⟨t, b, hb⟩
    refine ⟨⟨hruntime ▸ h.journal, ?_, by rw [hruntime]; exact h.written⟩, by rw [hruntime]⟩
    intro t x hx
    rw [Thread.record_of_pc (hthreads t).1] at hx
    rw [hruntime]
    exact h.inHand t x hx

end Process

/-! ## Runs -/

namespace Logging

/-- The events that were pushed are those of the calls, in order, and no other
    one is in hand or with the writer. -/
structure Entered (w : Logging) : Prop where
  holds : w.process.HoldsPushed
  pushed : w.process.runtime.pushed.filter (·.eventKind.isSome) = w.emitted.map (·.record)
  kinds : ∀ e ∈ w.emitted, e.record.eventKind = some e.call.path.kind

/-- Every call that is being formatted or was emitted. -/
structure AllCalls (P : LogCall → Prop) (w : Logging) : Prop where
  formatting : ∀ t, ∀ c ∈ w.formatting t, P c
  emitted : ∀ e ∈ w.emitted, P e.call

variable {w w' : Logging}

theorem emit_inv {t : ThreadId} {arguments : Arguments} {nanos : UInt64}
    (h : w.emit t arguments nanos = some w') :
    ∃ call calls process record, w.formatting t = call :: calls ∧
      w.process.step (.call t (.emit call.path.kind arguments.emitted.1 arguments.emitted.2 nanos)) =
        some process ∧ process.runtime.pushed.getLast? = some record ∧
      w' = { w with
        process
        formatting := Function.update w.formatting t calls
        emitted := w.emitted ++ [⟨record, call⟩] } := by
  unfold emit at h
  split at h
  · cases h
  · rename_i call calls hformatting
    split_ifs at h
    simp only [Option.bind_eq_bind, Option.bind_eq_some_iff] at h
    obtain ⟨process, hprocess, record, hrecord, h⟩ := h
    exact ⟨call, calls, process, record, hformatting, hprocess, hrecord, (Option.some.inj h).symm⟩

theorem other_inv {a : Action} (h : w.other a = some w') :
    (∀ t kind message fields nanos, a ≠ .call t (.emit kind message fields nanos)) ∧
      ∃ process, w.process.step a = some process ∧ w' = { w with process } := by
  unfold other at h
  split at h
  · cases h
  · rename_i hne
    obtain ⟨process, hprocess, rfl⟩ := Option.map_eq_some_iff.1 h
    exact ⟨fun t kind message fields nanos ha => hne t kind message fields nanos ha, process,
      hprocess, rfl⟩

theorem log_inv {t : ThreadId} {path : EntryPath} (h : w.log t path = some w') :
    w.admits path = false ∧ w' = w ∨ w.admits path = true ∧ w' = { w with
      formatting := Function.update w.formatting t (⟨path, w.recordLevel⟩ :: w.formatting t) } := by
  unfold log at h
  split at h
  · obtain rfl := Option.some.inj h
    split_ifs with hadmits
    · exact .inr ⟨hadmits, rfl⟩
    · exact .inl ⟨by simpa using hadmits, rfl⟩
  · cases h

theorem unwind_inv {t : ThreadId} (h : w.unwind t = some w') :
    ∃ call calls, w.formatting t = call :: calls ∧
      w' = { w with formatting := Function.update w.formatting t calls } := by
  unfold unwind at h
  split at h
  · rename_i call calls _ hformatting
    exact ⟨call, calls, hformatting, (Option.some.inj h).symm⟩
  · cases h

/-- **Every event comes from a call.** -/
theorem Entered.step (h : w.Entered) {a : LogAction} (hs : w.step a = some w') : w'.Entered := by
  cases a with
  | setRecordLevel level | setMaxLevel level =>
    obtain rfl := Option.some.inj hs
    exact ⟨h.holds, h.pushed, h.kinds⟩
  | log t path =>
    rcases log_inv hs with ⟨-, rfl⟩ | ⟨-, rfl⟩
    · exact h
    · exact ⟨h.holds, h.pushed, h.kinds⟩
  | unwind t =>
    obtain ⟨call, calls, -, rfl⟩ := unwind_inv hs
    exact ⟨h.holds, h.pushed, h.kinds⟩
  | other a =>
    obtain ⟨ha, process, hprocess, rfl⟩ := other_inv hs
    obtain ⟨hholds, hpushed⟩ := h.holds.other ha hprocess
    exact ⟨hholds, hpushed.trans h.pushed, h.kinds⟩
  | emit t arguments nanos =>
    obtain ⟨call, calls, process, record, -, hprocess, hrecord, rfl⟩ := emit_inv hs
    obtain ⟨hholds, added, ⟨x, rfl, hx⟩, hpushed⟩ := h.holds.call hprocess
    rw [hpushed, Option.toList_some, List.getLast?_concat] at hrecord
    obtain rfl := Option.some.inj hrecord
    refine ⟨hholds, ?_, ?_⟩
    · show process.runtime.pushed.filter (·.eventKind.isSome) = _
      rw [hpushed, List.filter_append, h.pushed, List.map_append]
      simp [hx]
    · intro e he
      rcases List.mem_append.1 he with he | he
      · exact h.kinds e he
      · rw [List.mem_singleton.1 he]
        exact hx

/-- What holds of the calls that are let through holds of all calls. -/
theorem AllCalls.step {P : LogCall → Prop} (h : w.AllCalls P) {a : LogAction}
    (hlog : ∀ t path, a = .log t path → w.admits path = true → P ⟨path, w.recordLevel⟩)
    (hs : w.step a = some w') : w'.AllCalls P := by
  have hpop : ∀ {t : ThreadId} {call : LogCall} {calls : List LogCall},
      w.formatting t = call :: calls →
      P call ∧ ∀ u, ∀ c ∈ Function.update w.formatting t calls u, P c := by
    intro t call calls hformatting
    obtain ⟨hcall, hcalls⟩ := List.forall_mem_cons.1 (hformatting ▸ h.formatting t)
    exact ⟨hcall, (Function.forall_update_iff w.formatting (p := fun _ cs => ∀ c ∈ cs, P c)).2
      ⟨hcalls, fun u _ => h.formatting u⟩⟩
  cases a with
  | setRecordLevel level | setMaxLevel level =>
    obtain rfl := Option.some.inj hs
    exact ⟨h.formatting, h.emitted⟩
  | log t path =>
    rcases log_inv hs with ⟨-, rfl⟩ | ⟨hadmits, rfl⟩
    · exact h
    · refine ⟨(Function.forall_update_iff w.formatting (p := fun _ cs => ∀ c ∈ cs, P c)).2
        ⟨List.forall_mem_cons.2 ⟨hlog t path rfl hadmits, h.formatting t⟩,
          fun u _ => h.formatting u⟩, h.emitted⟩
  | unwind t =>
    obtain ⟨call, calls, hformatting, rfl⟩ := unwind_inv hs
    exact ⟨(hpop hformatting).2, h.emitted⟩
  | other a =>
    obtain ⟨-, process, -, rfl⟩ := other_inv hs
    exact ⟨h.formatting, h.emitted⟩
  | emit t arguments nanos =>
    obtain ⟨call, calls, process, record, hformatting, -, -, rfl⟩ := emit_inv hs
    obtain ⟨hcall, hcalls⟩ := hpop hformatting
    exact ⟨hcalls, List.forall_mem_append.2 ⟨h.emitted, by simpa using hcall⟩⟩

section
variable {runId : String} {wantsScopeMetadata : Bool} {maxJournalRecords : ℕ}
  {actions : List LogAction}
  (hrun : Machine.run step (new runId wantsScopeMetadata maxJournalRecords) actions = some w)
include hrun

theorem run_entered : w.Entered :=
  Machine.run_invariant (fun _ _ _ h hs => h.step hs) hrun
    ⟨Process.new_holdsPushed .., rfl, by rintro _ ⟨⟩⟩

/-- **The macros respect the threshold**, in every run: an event below it comes
    from a bridge. -/
theorem run_native : ∀ e ∈ w.emitted, ∀ name, e.call.path = .native name → ¬ e.call.Below := by
  have hall : w.AllCalls fun c => ∀ name, c.path = .native name → ¬ c.Below := by
    refine Machine.run_invariant ?_ hrun ⟨by rintro _ _ ⟨⟩, by rintro _ ⟨⟩⟩
    intro w a w' h hs
    refine h.step ?_ hs
    rintro t path rfl hadmits name rfl
    exact recordingEnabled_iff.1 hadmits
  exact hall.emitted

end

/-- Each event that was pushed to the journal, or handed to the writer, is that of
    a call that was not below the threshold when it was made. -/
structure RespectsThreshold (w : Logging) : Prop where
  pushed : w.process.runtime.pushed.filter (·.eventKind.isSome) = w.emitted.map (·.record)
  handed : ∀ r ∈ w.process.runtime.writtenRecords, r.eventKind.isSome →
    r ∈ w.emitted.map (·.record)
  enabled : ∀ e ∈ w.emitted, ∀ kind, e.record.eventKind = some kind →
    ¬ levelForEventKind kind < e.call.threshold

/-- The threshold is respected exactly if no call was below it. -/
theorem Entered.respects_iff (h : w.Entered) :
    w.RespectsThreshold ↔ ∀ e ∈ w.emitted, ¬ e.call.Below := by
  constructor
  · exact fun hw e he => hw.enabled e he _ (h.kinds e he)
  · intro hcalls
    refine ⟨h.pushed, ?_, ?_⟩
    · intro r hr hevent
      rw [← h.pushed]
      exact List.mem_filter.2 ⟨h.holds.written r hr, hevent⟩
    · intro e he kind hkind
      rw [h.kinds e he] at hkind
      obtain rfl := Option.some.inj hkind
      exact hcalls e he

/-- A call of a bridge that the bridge lets through is not below the threshold. -/
def BridgeEnabled (w : Logging) : LogAction → Prop
  | .log _ (.native _) => True
  | .log _ path => w.admits path = true → ¬ levelForEventKind path.kind < w.recordLevel
  | _ => True

instance (w : Logging) (a : LogAction) : Decidable (w.BridgeEnabled a) :=
  match a with
  | .log _ (.native _) => .isTrue trivial
  | .log _ (.log level) => inferInstanceAs (Decidable (w.admits (.log level) = true → ¬ _))
  | .log _ (.tracing level) => inferInstanceAs (Decidable (w.admits (.tracing level) = true → ¬ _))
  | .setRecordLevel _ | .setMaxLevel _ | .emit .. | .unwind _ | .other _ => .isTrue trivial

end Logging

open Logging in
/-- **The threshold is respected in every run whose bridge calls are not below
    it**; a call below it that a bridge lets through breaks it when it is emitted. -/
theorem threshold_holds {runId : String} {wantsScopeMetadata : Bool} {maxJournalRecords : ℕ}
    {actions : List LogAction} {w : Logging}
    (hrun : Machine.run step (new runId wantsScopeMetadata maxJournalRecords) actions = some w) :
    (Machine.Meets step BridgeEnabled (new runId wantsScopeMetadata maxJournalRecords) actions →
      w.RespectsThreshold) ∧
    ∀ t path arguments nanos w', ¬ w.BridgeEnabled (.log t path) →
      Machine.run step w [.log t path, .emit t arguments nanos] = some w' →
      ¬ w'.RespectsThreshold := by
  constructor
  · intro hmeets
    refine (run_entered hrun).respects_iff.2 ?_
    have hall : w.AllCalls fun c => ¬ c.Below := by
      refine Machine.run_invariant_of_meets ?_ hrun hmeets
        ⟨by rintro _ _ ⟨⟩, by rintro _ ⟨⟩⟩
      intro w a w' h hbridge hs
      refine h.step ?_ hs
      rintro t path rfl hadmits
      cases path with
      | native name => exact recordingEnabled_iff.1 hadmits
      | log level | tracing level => exact hbridge hadmits
    exact hall.emitted
  · intro t path arguments nanos w' hbridge hrest hw'
    have hentered : w'.Entered := run_entered (Machine.run_append_eq_some.2 ⟨w, hrun, hrest⟩)
    obtain ⟨hadmits, hbelow⟩ : w.admits path = true ∧ levelForEventKind path.kind < w.recordLevel := by
      cases path with
      | native name => exact absurd trivial hbridge
      | log level | tracing level => exact Classical.not_imp.1 hbridge |>.imp id not_not.1
    obtain ⟨u, hu, hrest⟩ := Machine.run_cons_eq_some.1 hrest
    obtain ⟨v, hv, hrest⟩ := Machine.run_cons_eq_some.1 hrest
    obtain rfl := Option.some.inj hrest
    obtain ⟨call, calls, process, record, hformatting, -, -, rfl⟩ := emit_inv hv
    have hcall : call = ⟨path, w.recordLevel⟩ := by
      rcases log_inv hu with ⟨hdenied, -⟩ | ⟨-, rfl⟩
      · rw [hadmits] at hdenied
        cases hdenied
      · simp only [Function.update_self] at hformatting
        exact (List.cons.inj hformatting).1.symm
    exact hentered.respects_iff.1 hw' ⟨record, call⟩ (by simp) (hcall ▸ hbelow)

/-- A run that raises the threshold, with a warning of `warn!` and an error from `log`. -/
def raisedRun : List LogAction :=
  [.setMaxLevel (.upTo .error), .setRecordLevel .warning, .log 0 (.log .info),
    .log 0 (.native .warn), .emit 0 (.format "slow") 1, .other (.call 0 .next),
    .other (.call 0 .next), .other (.call 0 .next), .other (.call 0 .next),
    .log 0 (.log .error), .emit 0 (.format "failed") 2]

theorem threshold_holds_raised :
    ∃ w, Machine.run Logging.step (.new "run" false 500) raisedRun = some w ∧
      w.process.runtime.pushed.length = 2 ∧ w.RespectsThreshold := by
  obtain ⟨w, hrun, hpushed⟩ : ∃ w, Machine.run Logging.step (.new "run" false 500) raisedRun = some w ∧
      w.process.runtime.pushed.length = 2 := ⟨_, rfl, rfl⟩
  have hbridges : Machine.Meets Logging.step Logging.BridgeEnabled (.new "run" false 500) raisedRun := by
    decide
  exact ⟨w, hrun, hpushed, (threshold_holds hrun).1 hbridges⟩

/-- An event of `log` below the threshold is pushed and handed to the writer. -/
theorem bridge_below_threshold :
    ∃ w, Machine.run Logging.step (.new "run" false 500)
        [.setMaxLevel (.upTo .info), .setRecordLevel .error, .log 0 (.log .info),
          .emit 0 (.format "tick") 1, .other (.call 0 .next), .other (.call 0 .next),
          .other (.call 0 .next), .other (.call 0 .next)] = some w ∧
      w.process.runtime.pushed = [⟨⟨0⟩, none, 1, .event .info "tick" .new⟩] ∧
      w.process.runtime.writer.calls = [.record ⟨⟨0⟩, none, 1, .event .info "tick" .new⟩ none] ∧
      ¬ w.RespectsThreshold := by
  refine ⟨_, rfl, rfl, rfl, fun h => ?_⟩
  have hemitted := h.enabled ⟨⟨⟨0⟩, none, 1, .event .info "tick" .new⟩, ⟨.log .info, .error⟩⟩
    List.mem_cons_self .info rfl
  exact hemitted (by decide)

end Eventline
