/-
  The locks of the runtime (`runtime/mod.rs`, `journal/buffer.rs`,
  `journal/diagnostics.rs`), the queues of its background writers, and the
  threads and workers that wait for them.

  * `ApiCall.program`: what a call of the runtime acquires, releases, sends and
    waits for.  Its parameters are the branches that the call may take.
  * `LockState.step`: any number of threads in such calls, and the workers.
  * A lock is held in shared mode or alone; the mutexes are only held alone.
  * The built-in sinks do not panic.  What they write is left out, and so are the
    calls that take no lock.
-/
import Eventline.Writer.Async
import Eventline.Lib.WaitGraph

namespace Eventline

inductive Lock where
  | lastCfg
  | writer
  | config
  | journal
  | records
  | scopes
  | diagnostics
  deriving DecidableEq, Repr

/-- How a lock is held; a mutex is held alone. -/
inductive LockMode where
  | shared
  | alone
  deriving DecidableEq, Repr

abbrev WorkerId := ℕ

/-- What a thread does next in a call. -/
inductive Instr where
  | acquire (l : Lock) (mode : LockMode)
  | release (l : Lock)
  /-- `write_record` or `write_scope` on the installed writer -/
  | write
  /-- `flush` of the installed writer -/
  | flush
  /-- waiting for the reply to a flush -/
  | await
  /-- a worker is started for a new writer -/
  | spawn (mode : WriteMode)
  /-- the installed writer is replaced: its sender is dropped -/
  | replace
  /-- waiting for the old worker to end -/
  | join
  deriving DecidableEq, Repr

/-! ## The programs of the calls -/

/-- A section under a lock. -/
def locking (l : Lock) (mode : LockMode) (body : List Instr) : List Instr :=
  .acquire l mode :: (body ++ [.release l])

/-- A configuration call past the shortcut: whether a sink is added, whether
    metadata is written to it, and the mode of the new writer, if all succeeds. -/
structure Rebuild where
  sinks : Bool
  metadata : Bool
  succeeds : Option WriteMode

inductive ApiCall where
  /-- `emit`, inside a scope or not, with a trim or not -/
  | emit (inScope trims : Bool)
  | enterScope (wantsMetadata : Bool)
  /-- `exit_scope` of a scope that was open or not -/
  | exitScope (wasOpen : Bool)
  | setScopeExitMessages
  | records
  | scopes
  | recordsJsonl
  | scopeElapsed
  | flush
  | clear
  /-- `writer_diagnostics` and `last_writer_error` -/
  | writerDiagnostics
  | setJournalRetention
  /-- `update_writers`; none where the shortcut is taken -/
  | updateWriters (rebuild : Option Rebuild)

/-- `push_record`. -/
def pushRecord : List Instr := locking .records .alone []

/-- `get_scope_by_id`, `scopes_snapshot` and `get_scope_elapsed`. -/
def readScopes : List Instr := locking .scopes .shared []

/-- `push_scope_at`, `set_scope_exit_messages` and `finalize_scope_exit_at`. -/
def writeScopes : List Instr := locking .scopes .alone []

/-- `records_snapshot`. -/
def readRecords : List Instr := locking .records .shared []

/-- `WriterState::record_error`, `snapshot` and `clear`. -/
def useDiagnostics : List Instr := locking .diagnostics .alone []

/-- `build_writers`. -/
def buildSections (sinks metadata : Bool) : List Instr :=
  if sinks then
    locking .journal .alone [] ++ if metadata then locking .journal .alone readScopes else []
  else []

/-- What `update_writers` does with the writer locked. -/
def Rebuild.program (b : Rebuild) : List Instr :=
  .flush :: (buildSections b.sinks b.metadata ++
    match b.succeeds with
    | some mode => .spawn mode :: .replace :: locking .config .alone []
    | none => useDiagnostics)

def ApiCall.program : ApiCall → List Instr
  | emit inScope trims =>
    locking .journal .alone ((if inScope then readScopes else []) ++ pushRecord) ++
      (if trims then
        locking .config .shared [] ++ locking .journal .alone (pushRecord ++ writeScopes)
      else []) ++
      locking .writer .alone [.write]
  | enterScope wantsMetadata =>
    locking .journal .alone writeScopes ++
      locking .writer .alone
        (if wantsMetadata then locking .journal .alone readScopes ++ [.write] else [])
  | exitScope wasOpen =>
    locking .journal .alone (writeScopes ++ if wasOpen then pushRecord else []) ++
      if wasOpen then locking .writer .alone [.write] else []
  | setScopeExitMessages => locking .journal .alone writeScopes
  | records => locking .journal .alone readRecords
  | scopes => locking .journal .alone readScopes
  | recordsJsonl => locking .journal .alone (readRecords ++ readScopes)
  | scopeElapsed => locking .journal .alone readScopes
  | flush => locking .writer .alone [.flush]
  | clear =>
    locking .writer .alone
      (.flush :: locking .journal .alone (locking .records .alone writeScopes) ++ useDiagnostics)
  | writerDiagnostics => useDiagnostics
  | setJournalRetention => locking .lastCfg .alone (locking .config .alone [])
  | updateWriters rebuild =>
    locking .lastCfg .alone (locking .config .shared [] ++
      match rebuild with
      | none => []
      | some b => locking .writer .alone b.program)

/-! ## Threads and workers -/

/-- A message in a queue: an entry, or the flush of a thread. -/
inductive QueueMsg where
  | entry
  | flush (t : ℕ)
  deriving DecidableEq, Repr

/-- Where a worker is; without a message, it is at the flush at shutdown. -/
inductive WorkerPc where
  | receiving
  | handling (m : Option QueueMsg)
  /-- `record_error`: waiting for the diagnostics -/
  | recording (m : Option QueueMsg)
  /-- the diagnostics are locked -/
  | recorded (m : Option QueueMsg)
  | done
  deriving DecidableEq, Repr

/-- The worker has locked the diagnostics. -/
def WorkerPc.isRecorded : WorkerPc → Bool
  | recorded _ => true
  | _ => false

structure WorkerState where
  mode : WriteMode
  /-- the sender is there -/
  tx : Bool
  queue : List QueueMsg
  pc : WorkerPc
  deriving DecidableEq, Repr

structure ThreadState where
  program : List Instr
  held : List (Lock × LockMode)
  replied : Bool
  /-- the worker that was started for the new writer -/
  fresh : Option WorkerId
  deriving DecidableEq, Repr

structure LockState (n : ℕ) where
  queueCap : ℕ
  threads : Fin n → ThreadState
  workers : WorkerId → WorkerState
  /-- the number of workers that were started -/
  spawned : ℕ
  /-- none for `NoopWriter` -/
  installed : Option WorkerId

inductive LockAction (n : ℕ) where
  /-- a thread in user code starts a call -/
  | start (t : Fin n) (c : ApiCall)
  | thread (t : Fin n)
  | receive (w : WorkerId)
  /-- a call on the inner writer ends -/
  | work (w : WorkerId) (failed : Bool)
  | record (w : WorkerId)
  | recordEnd (w : WorkerId)

namespace LockState

variable {n : ℕ}

/-- No call is under way; the queues will have this capacity. -/
def new (n queueCap : ℕ) : LockState n where
  queueCap := max queueCap 1
  threads _ := ⟨[], [], false, none⟩
  workers _ := ⟨.bestEffort, false, [], .done⟩
  spawned := 0
  installed := none

def setThread (s : LockState n) (t : Fin n) (th : ThreadState) : LockState n :=
  { s with threads := Function.update s.threads t th }

def setWorker (s : LockState n) (w : WorkerId) (worker : WorkerState) : LockState n :=
  { s with workers := Function.update s.workers w worker }

/-- The thread goes on with the program. -/
def goto (s : LockState n) (t : Fin n) (program : List Instr) : LockState n :=
  s.setThread t { s.threads t with program }

/-- The lock is free, or held in shared mode and wanted so. -/
def Free (s : LockState n) (l : Lock) (mode : LockMode) : Prop :=
  (∀ t, ∀ h ∈ (s.threads t).held, h.1 = l → h.2 = .shared ∧ mode = .shared) ∧
    (l = .diagnostics → ∀ w < s.spawned, (s.workers w).pc.isRecorded = false)

instance (s : LockState n) (l : Lock) (mode : LockMode) : Decidable (s.Free l mode) :=
  inferInstanceAs (Decidable (_ ∧ _))

/-- A message is sent to the installed writer; `sent` is what follows then. -/
def send (s : LockState n) (t : Fin n) (m : QueueMsg) (sent rest : List Instr) :
    Option (LockState n) :=
  match s.installed with
  | none => some (s.goto t rest)
  | some w =>
    let worker := s.workers w
    if worker.pc = .done then
      -- the error of the closed queue is recorded
      some (s.goto t (useDiagnostics ++ rest))
    else if worker.queue.length < s.queueCap then
      some ((s.setWorker w { worker with queue := worker.queue ++ [m] }).goto t sent)
    else if m = .entry ∧ worker.mode = .bestEffort then some (s.goto t rest)
    else none

/-- A thread executes an instruction. -/
def exec (s : LockState n) (t : Fin n) (instr : Instr) (rest : List Instr) :
    Option (LockState n) :=
  let th := s.threads t
  match instr with
  | .acquire l mode =>
    if s.Free l mode then some (s.setThread t { th with program := rest, held := (l, mode) :: th.held })
    else none
  | .release l =>
    some (s.setThread t { th with program := rest, held := th.held.filter fun h => h.1 ≠ l })
  | .write => s.send t .entry rest rest
  | .flush => (s.setThread t { th with replied := false }).send t (.flush t) (.await :: rest) rest
  | .await =>
    match s.installed with
    | none => some (s.goto t rest)
    | some w =>
      if th.replied then some (s.goto t rest)
      else if (s.workers w).pc = .done then some (s.goto t (useDiagnostics ++ rest))
      else none
  | .spawn mode =>
    some ({ s.setWorker s.spawned ⟨mode, true, [], .receiving⟩ with spawned := s.spawned + 1 }.setThread
      t { th with program := rest, fresh := some s.spawned })
  | .replace =>
    match s.installed with
    | none => some { s.goto t rest with installed := th.fresh }
    | some w =>
      some ((s.setWorker w { s.workers w with tx := false }).goto t (.join :: rest))
  | .join =>
    match s.installed with
    | none => none
    | some w =>
      if (s.workers w).pc = .done then some { s.goto t rest with installed := th.fresh } else none

/-- The worker has done with a message, or with the flush at shutdown. -/
def finish (s : LockState n) (w : WorkerId) (m : Option QueueMsg) : LockState n :=
  let worker := s.workers w
  match m with
  | none => s.setWorker w { worker with pc := .done }
  | some .entry => s.setWorker w { worker with pc := .receiving }
  | some (.flush t) =>
    { s.setWorker w { worker with pc := .receiving } with
      threads := fun u =>
        if u = t then { s.threads u with replied := true } else s.threads u }

/-- `rx.recv()`. -/
def receive (s : LockState n) (w : WorkerId) : Option (LockState n) :=
  let worker := s.workers w
  match worker.pc, worker.queue with
  | .receiving, m :: queue => some (s.setWorker w { worker with queue, pc := .handling (some m) })
  | .receiving, [] =>
    if worker.tx then none else some (s.setWorker w { worker with pc := .handling none })
  | _, _ => none

def step (s : LockState n) : LockAction n → Option (LockState n)
  | .start t c => if (s.threads t).program = [] then some (s.goto t c.program) else none
  | .thread t =>
    match (s.threads t).program with
    | [] => none
    | instr :: rest => s.exec t instr rest
  | .receive w => s.receive w
  | .work w failed =>
    match (s.workers w).pc with
    | .handling m =>
      some (if failed then s.setWorker w { s.workers w with pc := .recording m } else s.finish w m)
    | _ => none
  | .record w =>
    match (s.workers w).pc with
    | .recording m =>
      if s.Free .diagnostics .alone then some (s.setWorker w { s.workers w with pc := .recorded m })
      else none
    | _ => none
  | .recordEnd w =>
    match (s.workers w).pc with
    | .recorded m => some (s.finish w m)
    | _ => none

end LockState

end Eventline
