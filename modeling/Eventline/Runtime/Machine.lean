/-
  The runtime under concurrency (`runtime/mod.rs`, `runtime/scope_context.rs`).

  A step of the process is one critical section of a call, by some thread, or
  the start or end of a poll or drop of a wrapped future.  The mutexes are the
  sections themselves, but for the writer mutex: `enter_scope` and `clear` hold
  it over sections of the journal mutex (`writerLocked`).  Calls that only read
  are left out.  A call that runs out of memory has no step.

  `pushed`, `lives`, `recordIds`, `panicked`, `before` and `contexts` are
  history: no code reads them.

  * `Runtime.act` is a critical section; `Section` says what one can do.
  * `Process.step` is a step of the process.
-/
import Eventline.Journal
import Eventline.Lib.Machine

namespace Eventline

open Checked (toOption_eq_some)

/-- `TRIM_INTERVAL`. -/
def trimInterval : UInt64 := 128

/-- `DEFAULT_MAX_JOURNAL_RECORDS`. -/
def defaultMaxJournalRecords : ℕ := 500

/-- Where a thread is, between the critical sections of a call. -/
inductive Pc where
  /-- in user code -/
  | user
  /-- `emit`: the record is in the journal -/
  | recorded (record : Record) (scope : Option Scope)
  /-- `emit`: a trim is due -/
  | due (record : Record) (scope : Option Scope)
  /-- `emit`: the retention is read -/
  | trimming (maxRecords : ℕ) (record : Record) (scope : Option Scope)
  /-- `emit` and `exit_scope`: a record is to be written -/
  | writing (record : Record) (scope : Option Scope)
  /-- `enter_scope`: the scope is in the journal and on the stack -/
  | entered (id : ScopeId)
  /-- `enter_scope`: the writer is locked and wants the metadata -/
  | lookingUp (id : ScopeId)
  /-- `clear`: the writer is locked and the journal is cleared -/
  | clearing

abbrev ThreadId := ℕ

abbrev FutureId := ℕ

/-- An installed context: the future it belongs to, and the stack of the thread
    before it was installed. -/
structure InstalledContext where
  future : FutureId
  before : List ScopeId

structure Thread where
  pc : Pc
  /-- `SCOPE_STACK` -/
  stack : List ScopeId
  /-- the guards, the innermost first -/
  frames : List InstalledContext
  panicked : Bool

/-- A scope that was entered: as it was entered, as it was when it exited, and
    whether its exit messages have been others since. -/
structure Life where
  scope : Scope
  exited : Option Scope
  changed : Bool

structure Runtime where
  journal : Journal
  writer : AttachedWriter
  writerLocked : Bool
  emitCount : UInt64
  maxJournalRecords : ℕ
  pushed : List Record
  lives : List Life
  recordIds : ℕ

/-! ## The stack of a thread -/

def Thread.currentScope (th : Thread) : Option ScopeId := th.stack.getLast?

/-- `rposition` of an id. -/
def rposition (stack : List ScopeId) (id : ScopeId) : Option ℕ :=
  (stack.reverse.findIdx? fun scopeId => scopeId = id).map fun i => stack.length - 1 - i

def removeScopeFromStack (stack : List ScopeId) (id : ScopeId) : List ScopeId :=
  if stack.getLast? = some id then stack.dropLast
  else
    match rposition stack id with
    | some pos => stack.eraseIdx pos
    | none => stack

/-! ## Critical sections -/

/-- What a thread does: it starts a call, or goes on with the one it is in. -/
inductive Act where
  | emit (kind : EventKind) (message : String) (fields : Fields) (nanos : UInt64)
  | enterScope (name : String) (startedAt : Instant) (millis : UInt64)
  | exitScope (id : ScopeId) (outcome : Outcome) (finishedAt : Instant) (millis nanos : UInt64)
  | setScopeExitMessages (id : ScopeId) (msgs : ExitMessages)
  | clear
  | updateWriters (wantsScopeMetadata : Bool)
  | setJournalRetention (maxRecords : ℕ)
  | next

namespace Life

/-- The life of a scope that exits. -/
def exit (scope : Scope) (l : Life) : Life :=
  if l.scope.id = scope.id then { l with exited := some scope } else l

/-- The life of a scope whose messages are set. -/
def setMessages (id : ScopeId) (msgs : ExitMessages) (l : Life) : Life :=
  if l.scope.id = id then
    { l with
      changed := l.changed ||
        l.exited.any fun scope => scope.exitMessages.overlay msgs ≠ scope.exitMessages }
  else l

end Life

namespace Runtime

/-- The first section of `emit`. -/
def emit (r : Runtime) (th : Thread) (kind : EventKind) (message : String) (fields : Fields)
    (nanos : UInt64) : Option (Runtime × Thread) := do
  let (journal, _, record, scope) ←
    (r.journal.recordNoWriteInScope kind message fields th.currentScope nanos).toOption
  some ({ r with journal, pushed := r.pushed ++ [record], recordIds := r.recordIds + 1 },
    { th with pc := .recorded record scope })

/-- `emit_count.fetch_add`, and the test of the count. -/
def countEmit (r : Runtime) (th : Thread) (record : Record) (scope : Option Scope) :
    Runtime × Thread :=
  let count := r.emitCount
  ({ r with emitCount := count + 1 },
    { th with pc := if count % trimInterval = 0 then .due record scope else .writing record scope })

/-- The section of `emit` that trims. -/
def trim (r : Runtime) (th : Thread) (maxRecords : ℕ) (record : Record) (scope : Option Scope) :
    Option (Runtime × Thread) := do
  let journal ← (r.journal.trimRecords maxRecords).toOption
  let journal ← (journal.trimScopes maxRecords).toOption
  some ({ r with journal }, { th with pc := .writing record scope })

def writeRecord (r : Runtime) (th : Thread) (record : Record) (scope : Option Scope) :
    Option (Runtime × Thread) :=
  if r.writerLocked then none
  else some ({ r with writer := r.writer.call (.record record scope) }, { th with pc := .user })

/-- The first section of `enter_scope`, and the push on the stack. -/
def enterScope (r : Runtime) (th : Thread) (name : String) (startedAt : Instant)
    (millis : UInt64) : Option (Runtime × Thread) := do
  let parent := th.currentScope
  let (journal, id) ← (r.journal.enterScopeWithParent name parent startedAt millis).toOption
  let scope : Scope := ⟨id, parent, millis, some name, none, .none⟩
  some ({ r with journal, lives := r.lives ++ [⟨scope, none, false⟩] },
    { th with stack := th.stack ++ [id], pc := .entered id })

/-- `enter_scope` locks the writer, and unlocks it if that wants no metadata. -/
def lockWriter (r : Runtime) (th : Thread) (id : ScopeId) : Option (Runtime × Thread) :=
  if r.writerLocked then none
  else if r.writer.wantsScopeMetadata then
    some ({ r with writerLocked := true }, { th with pc := .lookingUp id })
  else some (r, { th with pc := .user })

/-- The lookup of `enter_scope` with its `expect`, and the write. -/
def lookUp (r : Runtime) (th : Thread) (id : ScopeId) : Option (Runtime × Thread) := do
  let found ← (r.journal.getScope id).toOption
  match found with
  | some scope =>
    some ({ r with writer := r.writer.call (.scope scope), writerLocked := false },
      { th with pc := .user })
  | none => some ({ r with writerLocked := false }, { th with pc := .user, panicked := true })

/-- The journal section of `exit_scope`, and the removal from the stack. -/
def exitScope (r : Runtime) (th : Thread) (id : ScopeId) (outcome : Outcome)
    (finishedAt : Instant) (millis nanos : UInt64) : Option (Runtime × Thread) := do
  let (journal, _, payload) ←
    (r.journal.exitScopeNoWrite id outcome finishedAt millis nanos).toOption
  let r := { r with journal, recordIds := r.recordIds + 1 }
  let th := { th with stack := removeScopeFromStack th.stack id }
  match payload with
  | some (record, scope) =>
    some ({ r with pushed := r.pushed ++ [record], lives := r.lives.map (.exit scope) },
      { th with pc := .writing record (some scope) })
  | none => some (r, th)

def setScopeExitMessages (r : Runtime) (th : Thread) (id : ScopeId) (msgs : ExitMessages) :
    Option (Runtime × Thread) := do
  let (journal, found) ← (r.journal.setScopeExitMessages id msgs).toOption
  some ({ r with
    journal
    lives := if found then r.lives.map (.setMessages id msgs) else r.lives }, th)

/-- `clear` up to the journal section; it keeps the writer locked. -/
def clear (r : Runtime) (th : Thread) : Option (Runtime × Thread) :=
  if r.writerLocked then none
  else some ({ r with journal := r.journal.clear, writerLocked := true }, { th with pc := .clearing })

/-- The end of `clear`. -/
def finishClear (r : Runtime) (th : Thread) : Runtime × Thread :=
  ({ r with emitCount := 0, writerLocked := false }, { th with pc := .user, stack := [] })

/-- `update_writers` that succeeds: a sink that wants metadata is given that of
    the retained scopes. -/
def updateWriters (r : Runtime) (th : Thread) (wantsScopeMetadata : Bool) :
    Option (Runtime × Thread) :=
  if r.writerLocked then none
  else
    let calls := if wantsScopeMetadata then r.journal.scopes.map .scope else []
    some ({ r with writer := ⟨wantsScopeMetadata, calls⟩ }, th)

/-- `set_journal_retention`, and the retention that a setup commits. -/
def setJournalRetention (r : Runtime) (th : Thread) (maxRecords : ℕ) : Runtime × Thread :=
  ({ r with maxJournalRecords := max maxRecords 1 }, th)

/-- The next section of the call that a thread is in. -/
def next (r : Runtime) (th : Thread) : Option (Runtime × Thread) :=
  match th.pc with
  | .user => none
  | .recorded record scope => some (r.countEmit th record scope)
  | .due record scope => some (r, { th with pc := .trimming r.maxJournalRecords record scope })
  | .trimming maxRecords record scope => r.trim th maxRecords record scope
  | .writing record scope => r.writeRecord th record scope
  | .entered id => r.lockWriter th id
  | .lookingUp id => r.lookUp th id
  | .clearing => some (r.finishClear th)

/-- The first section of a call, by a thread in user code. -/
def start (r : Runtime) (th : Thread) : Act → Option (Runtime × Thread)
  | .emit kind message fields nanos => r.emit th kind message fields nanos
  | .enterScope name startedAt millis => r.enterScope th name startedAt millis
  | .exitScope id outcome finishedAt millis nanos => r.exitScope th id outcome finishedAt millis nanos
  | .setScopeExitMessages id msgs => r.setScopeExitMessages th id msgs
  | .clear => r.clear th
  | .updateWriters wants => r.updateWriters th wants
  | .setJournalRetention maxRecords => some (r.setJournalRetention th maxRecords)
  | .next => none

/-- A critical section. -/
def act (r : Runtime) (th : Thread) (a : Act) : Option (Runtime × Thread) :=
  match a, th.pc with
  | .next, _ => r.next th
  | a, .user => r.start th a
  | _, _ => none

end Runtime

/-! ## The process -/

/-- The contexts: the ambient stack of each thread, and one of each wrapped future. -/
inductive Context where
  | ambient (t : ThreadId)
  | future (f : FutureId)
  deriving DecidableEq

/-- What code of a context does to its stack. -/
inductive StackStep where
  | entered (id : ScopeId)
  | exited (id : ScopeId)

/-- The history of a context: the stack it was captured with, and the ids that
    its code entered and exited. -/
structure ContextLog where
  captured : List ScopeId
  steps : List StackStep

/-- `WithScopeContext`: its stored stack, and whether it is being polled or dropped. -/
structure Wrapper where
  stack : List ScopeId
  installed : Bool

structure Process where
  runtime : Runtime
  threads : ThreadId → Thread
  futures : FutureId → Option Wrapper
  contexts : Context → ContextLog

/-- The context whose code a thread runs under the given frames. -/
def contextOf (t : ThreadId) : List InstalledContext → Context
  | [] => .ambient t
  | frame :: _ => .future frame.future

inductive Action where
  | call (t : ThreadId) (a : Act)
  /-- a future is wrapped with the captured context, or with an empty one -/
  | wrap (t : ThreadId) (f : FutureId) (capture : Bool)
  /-- a poll or a drop starts -/
  | install (t : ThreadId) (f : FutureId)
  /-- a poll or a drop (`dropped`) returns or unwinds -/
  | uninstall (t : ThreadId) (dropped : Bool)

namespace Process

/-- What a call does to the history of its context. -/
def logged (a : Act) (th : Thread) : List StackStep :=
  match a, th.pc with
  | .enterScope .., .entered id => [.entered id]
  | .exitScope id .., _ => [.exited id]
  | _, _ => []

def call (s : Process) (t : ThreadId) (a : Act) : Option Process := do
  let (runtime, th) ← s.runtime.act (s.threads t) a
  let context := contextOf t (s.threads t).frames
  let log := s.contexts context
  some { s with
    runtime
    threads := Function.update s.threads t th
    contexts := Function.update s.contexts context { log with steps := log.steps ++ logged a th } }

/-- `ScopeContext::capture` or `ScopeContext::new`, and `wrap`. -/
def wrap (s : Process) (t : ThreadId) (f : FutureId) (capture : Bool) : Option Process :=
  match (s.threads t).pc, s.futures f with
  | .user, none =>
    let stack := if capture then (s.threads t).stack else []
    some { s with
      futures := Function.update s.futures f (some ⟨stack, false⟩)
      contexts := Function.update s.contexts (.future f) ⟨stack, []⟩ }
  | _, _ => none

/-- `InstalledContext::enter`: the stack of the thread and the stored one are
    swapped.  A future is polled or dropped by one thread at a time. -/
def install (s : Process) (t : ThreadId) (f : FutureId) : Option Process :=
  let th := s.threads t
  match th.pc, s.futures f with
  | .user, some ⟨stack, false⟩ =>
    some { s with
      threads := Function.update s.threads t
        { th with stack, frames := ⟨f, th.stack⟩ :: th.frames }
      futures := Function.update s.futures f (some ⟨th.stack, true⟩) }
  | _, _ => none

/-- The drop of the innermost `InstalledContext`: the stacks are swapped back. -/
def uninstall (s : Process) (t : ThreadId) (dropped : Bool) : Option Process :=
  let th := s.threads t
  match th.pc, th.frames with
  | .user, frame :: frames =>
    match s.futures frame.future with
    | some w =>
      some { s with
        threads := Function.update s.threads t { th with stack := w.stack, frames }
        futures := Function.update s.futures frame.future
          (if dropped then none else some ⟨th.stack, false⟩) }
    | none => none
  | _, _ => none

def step (s : Process) : Action → Option Process
  | .call t a => s.call t a
  | .wrap t f capture => s.wrap t f capture
  | .install t f => s.install t f
  | .uninstall t dropped => s.uninstall t dropped

/-- A process before any activity: a new journal, and the given sink. -/
def new (runId : String) (wantsScopeMetadata : Bool) (maxJournalRecords : ℕ) : Process where
  runtime := ⟨.new runId, ⟨wantsScopeMetadata, []⟩, false, 0, maxJournalRecords, [], [], 0⟩
  threads _ := ⟨.user, [], [], false⟩
  futures _ := none
  contexts _ := ⟨[], []⟩

end Process

/-! ## What a critical section can do -/

inductive Section (r : Runtime) (th : Thread) : Act → Runtime → Thread → Prop
  | emit {kind : EventKind} {message : String} {fields : Fields} {nanos : UInt64} {j : Journal}
      {id : RecordId} {record : Record} {scope : Option Scope} (hpc : th.pc = .user)
      (h : r.journal.recordNoWriteInScope kind message fields th.currentScope nanos =
        .ok (j, id, record, scope)) :
      Section r th (.emit kind message fields nanos)
        { r with journal := j, pushed := r.pushed ++ [record], recordIds := r.recordIds + 1 }
        { th with pc := .recorded record scope }
  | count {record : Record} {scope : Option Scope} {pc : Pc} (hpc : th.pc = .recorded record scope)
      (hnext : pc = .due record scope ∨ pc = .writing record scope) :
      Section r th .next { r with emitCount := r.emitCount + 1 } { th with pc }
  | due {record : Record} {scope : Option Scope} (hpc : th.pc = .due record scope) :
      Section r th .next r { th with pc := .trimming r.maxJournalRecords record scope }
  | trim {max : ℕ} {record : Record} {scope : Option Scope} {j₁ j₂ : Journal}
      (hpc : th.pc = .trimming max record scope) (hrecords : r.journal.trimRecords max = .ok j₁)
      (hscopes : j₁.trimScopes max = .ok j₂) :
      Section r th .next { r with journal := j₂ } { th with pc := .writing record scope }
  | write {record : Record} {scope : Option Scope} (hpc : th.pc = .writing record scope)
      (hfree : r.writerLocked = false) :
      Section r th .next { r with writer := r.writer.call (.record record scope) }
        { th with pc := .user }
  | enterScope {name : String} {startedAt : Instant} {millis : UInt64} {j : Journal} {id : ScopeId}
      (hpc : th.pc = .user)
      (h : r.journal.enterScopeWithParent name th.currentScope startedAt millis = .ok (j, id)) :
      Section r th (.enterScope name startedAt millis)
        { r with
          journal := j
          lives := r.lives ++
            [⟨⟨id, th.currentScope, millis, some name, none, .none⟩, none, false⟩] }
        { th with stack := th.stack ++ [id], pc := .entered id }
  | lock {id : ScopeId} (hpc : th.pc = .entered id) (hfree : r.writerLocked = false)
      (hwants : r.writer.wantsScopeMetadata = true) :
      Section r th .next { r with writerLocked := true } { th with pc := .lookingUp id }
  | unwanted {id : ScopeId} (hpc : th.pc = .entered id) (hfree : r.writerLocked = false)
      (hwants : r.writer.wantsScopeMetadata = false) : Section r th .next r { th with pc := .user }
  | found {id : ScopeId} {scope : Scope} (hpc : th.pc = .lookingUp id)
      (h : r.journal.getScope id = .ok (some scope)) :
      Section r th .next { r with writer := r.writer.call (.scope scope), writerLocked := false }
        { th with pc := .user }
  | panic {id : ScopeId} (hpc : th.pc = .lookingUp id) (h : r.journal.getScope id = .ok none) :
      Section r th .next { r with writerLocked := false }
        { th with pc := .user, panicked := true }
  | exitScope {id : ScopeId} {outcome : Outcome} {finishedAt : Instant} {millis nanos : UInt64}
      {j : Journal} {rid : RecordId} {record : Record} {scope : Scope} (hpc : th.pc = .user)
      (h : r.journal.exitScopeNoWrite id outcome finishedAt millis nanos =
        .ok (j, rid, some (record, scope))) :
      Section r th (.exitScope id outcome finishedAt millis nanos)
        { r with
          journal := j
          recordIds := r.recordIds + 1
          pushed := r.pushed ++ [record]
          lives := r.lives.map (.exit scope) }
        { th with stack := removeScopeFromStack th.stack id, pc := .writing record (some scope) }
  | exitNothing {id : ScopeId} {outcome : Outcome} {finishedAt : Instant} {millis nanos : UInt64}
      {j : Journal} {rid : RecordId} (hpc : th.pc = .user)
      (h : r.journal.exitScopeNoWrite id outcome finishedAt millis nanos = .ok (j, rid, none)) :
      Section r th (.exitScope id outcome finishedAt millis nanos)
        { r with journal := j, recordIds := r.recordIds + 1 }
        { th with stack := removeScopeFromStack th.stack id }
  | messages {id : ScopeId} {msgs : ExitMessages} {j : Journal} {found : Bool} (hpc : th.pc = .user)
      (h : r.journal.setScopeExitMessages id msgs = .ok (j, found)) :
      Section r th (.setScopeExitMessages id msgs)
        { r with
          journal := j
          lives := if found then r.lives.map (.setMessages id msgs) else r.lives } th
  | clear (hpc : th.pc = .user) (hfree : r.writerLocked = false) :
      Section r th .clear { r with journal := r.journal.clear, writerLocked := true }
        { th with pc := .clearing }
  | finishClear (hpc : th.pc = .clearing) :
      Section r th .next { r with emitCount := 0, writerLocked := false }
        { th with pc := .user, stack := [] }
  | updateWriters {wants : Bool} (hpc : th.pc = .user) (hfree : r.writerLocked = false) :
      Section r th (.updateWriters wants)
        { r with
          writer := ⟨wants, if wants then r.journal.scopes.map .scope else []⟩ } th
  | retention {maxRecords : ℕ} (hpc : th.pc = .user) :
      Section r th (.setJournalRetention maxRecords)
        { r with maxJournalRecords := max maxRecords 1 } th

namespace Runtime

variable {r r' : Runtime} {th th' : Thread}

theorem next_cases (h : r.next th = some (r', th')) : Section r th .next r' th' := by
  unfold next at h
  split at h
  case h_1 => cases h
  case h_2 record scope hpc =>
    cases h
    refine .count hpc ?_
    split_ifs
    · exact .inl rfl
    · exact .inr rfl
  case h_3 record scope hpc =>
    cases h
    exact .due hpc
  case h_4 max record scope hpc =>
    simp only [trim, Option.bind_eq_bind, Option.bind_eq_some_iff, toOption_eq_some] at h
    obtain ⟨j₁, h₁, j₂, h₂, h⟩ := h
    cases h
    exact .trim hpc h₁ h₂
  case h_5 record scope hpc =>
    unfold writeRecord at h
    split_ifs at h with hlocked
    cases h
    exact .write hpc (by simpa using hlocked)
  case h_6 id hpc =>
    unfold lockWriter at h
    split_ifs at h with hlocked hwants
    · cases h
      exact .lock hpc (by simpa using hlocked) hwants
    · cases h
      exact .unwanted hpc (by simpa using hlocked) (by simpa using hwants)
  case h_7 id hpc =>
    simp only [lookUp, Option.bind_eq_bind, Option.bind_eq_some_iff, toOption_eq_some] at h
    obtain ⟨found, hf, h⟩ := h
    cases found with
    | some scope =>
      cases h
      exact .found hpc hf
    | none =>
      cases h
      exact .panic hpc hf
  case h_8 hpc =>
    cases h
    exact .finishClear hpc

theorem start_cases {a : Act} (hpc : th.pc = .user) (h : r.start th a = some (r', th')) :
    Section r th a r' th' := by
  cases a with
  | next => cases h
  | emit kind message fields nanos =>
    simp only [start, emit, Option.bind_eq_bind, Option.bind_eq_some_iff, toOption_eq_some] at h
    obtain ⟨⟨j, id, record, scope⟩, hj, h⟩ := h
    cases h
    exact .emit hpc hj
  | enterScope name startedAt millis =>
    simp only [start, enterScope, Option.bind_eq_bind, Option.bind_eq_some_iff,
      toOption_eq_some] at h
    obtain ⟨⟨j, id⟩, hj, h⟩ := h
    cases h
    exact .enterScope hpc hj
  | exitScope id outcome finishedAt millis nanos =>
    simp only [start, exitScope, Option.bind_eq_bind, Option.bind_eq_some_iff,
      toOption_eq_some] at h
    obtain ⟨⟨j, rid, payload⟩, hj, h⟩ := h
    cases payload with
    | some p =>
      cases h
      exact .exitScope hpc hj
    | none =>
      cases h
      exact .exitNothing hpc hj
  | setScopeExitMessages id msgs =>
    simp only [start, setScopeExitMessages, Option.bind_eq_bind, Option.bind_eq_some_iff,
      toOption_eq_some] at h
    obtain ⟨⟨j, found⟩, hj, h⟩ := h
    cases h
    exact .messages hpc hj
  | clear =>
    simp only [start, clear] at h
    split_ifs at h with hlocked
    cases h
    exact .clear hpc (by simpa using hlocked)
  | updateWriters wants =>
    cases hlocked : r.writerLocked with
    | true => simp [start, updateWriters, hlocked] at h
    | false =>
      rw [start, updateWriters, if_neg (by simp [hlocked])] at h
      cases h
      exact .updateWriters hpc hlocked
  | setJournalRetention maxRecords =>
    cases h
    exact .retention hpc

/-- **What a critical section can do.** -/
theorem act_cases {a : Act} (h : r.act th a = some (r', th')) : Section r th a r' th' := by
  unfold act at h
  split at h
  · exact next_cases h
  · rename_i hpc
    exact start_cases hpc h
  · cases h

end Runtime

/-- A critical section keeps the journal well formed. -/
theorem Section.wf {r r' : Runtime} {th th' : Thread} {a : Act} (h : Section r th a r' th')
    (hwf : r.journal.WF) : r'.journal.WF := by
  cases h with
  | emit _ h =>
    obtain ⟨records, rfl, hrecords, -⟩ := Journal.recordNoWriteInScope_inv hwf h
    exact ⟨hrecords, hwf.scopes⟩
  | trim _ hrecords hscopes =>
    obtain ⟨records, hok, hr, -⟩ := Journal.trimRecords_ok hwf _
    rw [hok] at hrecords
    obtain rfl := Except.ok.inj hrecords
    obtain ⟨scopes, hok, hs, -⟩ := Journal.trimScopes_ok (j := { r.journal with
      buffer := { r.journal.buffer with records } }) ⟨hr, hwf.scopes⟩ _
    rw [hok] at hscopes
    obtain rfl := Except.ok.inj hscopes
    exact ⟨hr, hs⟩
  | enterScope _ h => exact (Journal.pushScope_inv hwf h).1
  | exitScope _ h => exact (Journal.exitScopeNoWrite_inv hwf h).1
  | exitNothing _ h => exact (Journal.exitScopeNoWrite_inv hwf h).1
  | messages _ h =>
    obtain ⟨scopes, found, hok, hs, -⟩ := Journal.setScopeExitMessages_ok hwf _ _
    rw [hok] at h
    obtain ⟨rfl, -⟩ := Prod.mk.inj (Except.ok.inj h)
    exact ⟨hwf.records, hs⟩
  | clear => exact Journal.clear_wf _
  | _ => exact hwf

namespace Process

variable {s s' : Process}

/-- The step of a call is a critical section of its thread. -/
theorem call_inv {t : ThreadId} {a : Act} (h : s.call t a = some s') :
    ∃ r th, Section s.runtime (s.threads t) a r th ∧ s'.runtime = r ∧
      s'.threads = Function.update s.threads t th ∧ s'.futures = s.futures ∧
      s'.contexts = Function.update s.contexts (contextOf t (s.threads t).frames)
        { s.contexts (contextOf t (s.threads t).frames) with
          steps := (s.contexts (contextOf t (s.threads t).frames)).steps ++ logged a th } := by
  simp only [call, Option.bind_eq_bind, Option.bind_eq_some_iff] at h
  obtain ⟨⟨r, th⟩, hact, h⟩ := h
  cases h
  exact ⟨r, th, Runtime.act_cases hact, rfl, rfl, rfl, rfl⟩

/-- A critical section is a step of its thread. -/
theorem call_ok {t : ThreadId} {a : Act} {r : Runtime} {th : Thread}
    (h : s.runtime.act (s.threads t) a = some (r, th)) :
    ∃ s', s.step (.call t a) = some s' ∧ s'.runtime = r ∧
      s'.threads = Function.update s.threads t th := by
  have hcall : ∃ contexts, s.step (.call t a) =
      some { s with runtime := r, threads := Function.update s.threads t th, contexts } := by
    simp only [step, call, h]
    exact ⟨_, rfl⟩
  obtain ⟨contexts, hs⟩ := hcall
  exact ⟨_, hs, rfl, rfl⟩

theorem wrap_inv {t : ThreadId} {f : FutureId} {capture : Bool}
    (h : s.wrap t f capture = some s') :
    ∃ stack, (s.threads t).pc = .user ∧ s.futures f = none ∧
      stack = (if capture then (s.threads t).stack else []) ∧
      s' = { s with
        futures := Function.update s.futures f (some ⟨stack, false⟩)
        contexts := Function.update s.contexts (.future f) ⟨stack, []⟩ } := by
  unfold wrap at h
  split at h
  · rename_i hpc hf
    cases h
    exact ⟨_, hpc, hf, rfl, rfl⟩
  · cases h

theorem install_inv {t : ThreadId} {f : FutureId} (h : s.install t f = some s') :
    ∃ stack, (s.threads t).pc = .user ∧ s.futures f = some ⟨stack, false⟩ ∧
      s' = { s with
        threads := Function.update s.threads t
          { s.threads t with stack, frames := ⟨f, (s.threads t).stack⟩ :: (s.threads t).frames }
        futures := Function.update s.futures f (some ⟨(s.threads t).stack, true⟩) } := by
  unfold install at h
  dsimp only at h
  split at h
  · rename_i stack hpc hf
    cases h
    exact ⟨stack, hpc, hf, rfl⟩
  · cases h

theorem uninstall_inv {t : ThreadId} {dropped : Bool} (h : s.uninstall t dropped = some s') :
    ∃ frame frames w, (s.threads t).pc = .user ∧ (s.threads t).frames = frame :: frames ∧
      s.futures frame.future = some w ∧
      s' = { s with
        threads := Function.update s.threads t { s.threads t with stack := w.stack, frames }
        futures := Function.update s.futures frame.future
          (if dropped then none else some ⟨(s.threads t).stack, false⟩) } := by
  unfold uninstall at h
  dsimp only at h
  split at h
  · rename_i frame frames hpc hframes
    split at h
    · rename_i w hw
      cases h
      exact ⟨frame, frames, w, hpc, hframes, hw, rfl⟩
    · cases h
  · cases h

/-- The steps of contexts leave the shared state alone, and every thread where
    it is. -/
theorem step_context {a : Action} (h : s.step a = some s') (ha : ∀ t b, a ≠ .call t b) :
    s'.runtime = s.runtime ∧
      ∀ u, (s'.threads u).pc = (s.threads u).pc ∧
        (s'.threads u).panicked = (s.threads u).panicked := by
  cases a with
  | call t b => exact absurd rfl (ha t b)
  | wrap t f capture =>
    obtain ⟨stack, -, -, -, rfl⟩ := wrap_inv h
    exact ⟨rfl, fun u => ⟨rfl, rfl⟩⟩
  | install t f =>
    obtain ⟨stack, -, -, rfl⟩ := install_inv h
    refine ⟨rfl, (Function.forall_update_iff s.threads (p := fun u th =>
      th.pc = (s.threads u).pc ∧ th.panicked = (s.threads u).panicked)).2 ⟨⟨rfl, rfl⟩, ?_⟩⟩
    intro u _
    exact ⟨rfl, rfl⟩
  | uninstall t dropped =>
    obtain ⟨frame, frames, w, -, -, -, rfl⟩ := uninstall_inv h
    refine ⟨rfl, (Function.forall_update_iff s.threads (p := fun u th =>
      th.pc = (s.threads u).pc ∧ th.panicked = (s.threads u).panicked)).2 ⟨⟨rfl, rfl⟩, ?_⟩⟩
    intro u _
    exact ⟨rfl, rfl⟩

end Process

end Eventline
