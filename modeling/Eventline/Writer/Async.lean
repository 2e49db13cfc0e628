/-
  The background writer (`AsyncWriter` in `journal/writer.rs`) and its
  diagnostics (`journal/diagnostics.rs`).

  A producer puts messages in a bounded queue, a worker thread takes them out
  and calls the inner writer.  The two take their steps in any order; what each
  call on the inner writer returns is part of the step.

  * `AsyncWriter.step`: the steps of both.  A send to a full queue, a receive
    from an empty one, the wait for a reply and the join are not possible until
    the other side has moved.
  * The history fields (`submitted`, `sent`, `inner`, `lost`, `returned`) are
    read by no step.
  * The counters of `WriterState` count operations and are natural numbers.
-/
import Eventline.Journal
import Eventline.Lib.Machine

namespace Eventline

/-- `WriteMode`. -/
inductive WriteMode where
  | bestEffort
  | blocking
  deriving DecidableEq, Repr

inductive ErrorKind where
  | notFound
  | permissionDenied
  | brokenPipe
  | isADirectory
  | other
  deriving DecidableEq, Repr

structure IoError where
  kind : ErrorKind
  text : String
  deriving DecidableEq, Repr

/-- An `io::Result<()>`. -/
abbrev IoResult := Except IoError Unit

/-- `WriterState`, and the snapshot `WriterDiagnostics` of it. -/
structure WriterState where
  dropped : ℕ
  failed : ℕ
  lastError : Option String
  deriving DecidableEq, Repr

namespace WriterState

/-- `WriterState::default()`. -/
def new : WriterState := ⟨0, 0, none⟩

def recordError (s : WriterState) (operation : String) (error : IoError) : WriterState :=
  { s with failed := s.failed + 1, lastError := some (operation ++ ": " ++ error.text) }

def dropRecord (s : WriterState) : WriterState := { s with dropped := s.dropped + 1 }

end WriterState

/-- A message to the worker, and the call that sends it. -/
inductive Msg where
  | runId (runId : String)
  | scope (scope : Scope)
  | record (record : Record) (scope : Option Scope)
  | flush
  deriving DecidableEq

/-- `write_scope` and `write_record`. -/
def Msg.isWrite : Msg → Bool
  | scope .. | record .. => true
  | _ => false

/-- How a call on the inner writer ends. -/
inductive InnerResult where
  | ok
  | err (error : IoError)
  | panic
  deriving DecidableEq

def InnerResult.toResult : InnerResult → IoResult
  | err e => .error e
  | _ => .ok ()

/-- What became of a message: taken by the queue, counted as dropped, or turned
    down without being counted. -/
inductive Fate where
  | accepted
  | dropped
  | refused
  deriving DecidableEq, Repr

/-- Where the thread that uses the writer is. -/
inductive Producer where
  | idle
  /-- in a `send`, which waits for a free place -/
  | sending (m : Msg)
  /-- in `flush`, waiting for the reply -/
  | waiting
  /-- in `drop`, waiting for the worker to end -/
  | joining
  | dropped
  deriving DecidableEq

/-- Where the worker thread is. -/
inductive Worker where
  | receiving
  | handling (m : Msg)
  /-- the senders are gone: the flush at shutdown -/
  | closing
  /-- the inner writer panicked; the receiver is still there -/
  | unwinding
  /-- the thread has ended, the receiver is dropped -/
  | done (panicked : Bool)
  deriving DecidableEq

structure AsyncWriter where
  queueCap : ℕ
  mode : WriteMode
  scopeMetadata : Bool
  /-- the sender is there -/
  tx : Bool
  producer : Producer
  queue : List Msg
  worker : Worker
  pendingError : Option IoError
  reply : Option IoResult
  state : WriterState
  /-- the calls made, metadata for a sink that does not want it apart -/
  submitted : List Msg
  /-- the messages that were sent or given up, in order -/
  sent : List (Msg × Fate)
  /-- the calls on the inner writer, for messages -/
  inner : List (Msg × InnerResult)
  /-- the flush at shutdown -/
  shutdown : Option InnerResult
  /-- the messages in the queue when the receiver was dropped -/
  lost : List Msg
  /-- what the submitted calls returned; `set_run_id` returns nothing -/
  returned : List (Msg × IoResult)

/-- What happens next. -/
inductive WriterAction where
  /-- a call of `set_run_id`, `write_scope`, `write_record` or `flush` -/
  | call (m : Msg)
  | drop
  /-- the next step of the call or drop that is under way -/
  | proceed
  | receive
  /-- the call on the inner writer, and how it ends -/
  | work (r : InnerResult)
  /-- the worker thread ends after a panic -/
  | unwind
  deriving DecidableEq

namespace AsyncWriter

/-- `try_spawn_with_mode`. -/
def spawn (queueCap : ℕ) (mode : WriteMode) (scopeMetadata : Bool) : AsyncWriter where
  queueCap := max queueCap 1
  mode := mode
  scopeMetadata := scopeMetadata
  tx := true
  producer := .idle
  queue := []
  worker := .receiving
  pendingError := none
  reply := none
  state := .new
  submitted := []
  sent := []
  inner := []
  shutdown := none
  lost := []
  returned := []

/-- The receiver is there. -/
def rx (w : AsyncWriter) : Bool :=
  match w.worker with
  | .done _ => false
  | _ => true

def shutDown : IoError := ⟨.brokenPipe, "eventline async writer is shut down"⟩

def notAvailable : IoError := ⟨.brokenPipe, "eventline async writer thread is not available"⟩

def notAcknowledged : IoError := ⟨.brokenPipe, "eventline async writer did not acknowledge flush"⟩

/-- `unavailable`. -/
def unavailable (w : AsyncWriter) (error : IoError) : AsyncWriter :=
  { w with state := w.state.recordError "background writer queue" error }

/-- The call for the message returns. -/
def ret (w : AsyncWriter) (m : Msg) (r : IoResult) : AsyncWriter :=
  { w with producer := .idle, returned := w.returned ++ [(m, r)] }

/-- The queue takes the message. -/
def accept (w : AsyncWriter) (m : Msg) : AsyncWriter :=
  { w with queue := w.queue ++ [m], sent := w.sent ++ [(m, .accepted)] }

/-- The message is counted in `dropped_records`. -/
def dropRecord (w : AsyncWriter) (m : Msg) : AsyncWriter :=
  { w with state := w.state.dropRecord, sent := w.sent ++ [(m, .dropped)] }

/-- The message cannot be sent: a write is counted as dropped, and the call
    returns an error. -/
def refuse (w : AsyncWriter) (m : Msg) (error : IoError) : AsyncWriter :=
  let w := if m.isWrite then w.dropRecord m else { w with sent := w.sent ++ [(m, .refused)] }
  (w.unavailable error).ret m <| match m with
    | .runId _ => .ok ()
    | _ => .error error

/-- `enqueue` in the mode `BestEffort`: a `try_send`. -/
def trySend (w : AsyncWriter) (m : Msg) : AsyncWriter :=
  if w.rx then
    if w.queue.length < w.queueCap then (w.accept m).ret m (.ok ())
    else (w.dropRecord m).ret m (.ok ())
  else w.refuse m notAvailable

/-- The start of a call that sends the message. -/
def submit (w : AsyncWriter) (m : Msg) : AsyncWriter :=
  let w := { w with submitted := w.submitted ++ [m] }
  if w.tx then
    if m.isWrite ∧ w.mode = .bestEffort then w.trySend m else { w with producer := .sending m }
  else w.refuse m (match m with | .runId _ => notAvailable | _ => shutDown)

/-- The start of a call. -/
def call (w : AsyncWriter) (m : Msg) : AsyncWriter :=
  match m with
  | .scope _ => if w.scopeMetadata then w.submit m else w
  | _ => w.submit m

/-- A `send` goes on: once the receiver is gone it fails, and it waits while the
    queue is full. -/
def send (w : AsyncWriter) (m : Msg) : Option AsyncWriter :=
  if w.rx then
    if w.queue.length < w.queueCap then
      match m with
      | .flush => some { w.accept m with producer := .waiting }
      | _ => some ((w.accept m).ret m (.ok ()))
    else none
  else some (w.refuse m notAvailable)

/-- The sender of the reply to a flush is still there. -/
def replyOpen (w : AsyncWriter) : Bool :=
  w.worker = .handling .flush || w.queue.contains .flush

/-- The producer goes on. -/
def proceed (w : AsyncWriter) : Option AsyncWriter :=
  match w.producer with
  | .idle | .dropped => none
  | .sending m => w.send m
  | .waiting =>
    match w.reply with
    | some r => some ({ w with reply := none }.ret .flush r)
    | none =>
      if w.replyOpen then none
      else some ((w.unavailable notAcknowledged).ret .flush (.error notAcknowledged))
  | .joining => if w.rx then none else some { w with producer := .dropped }

/-- `rx.recv()`. -/
def receive (w : AsyncWriter) : Option AsyncWriter :=
  match w.worker with
  | .receiving =>
    match w.queue with
    | m :: queue => some { w with queue, worker := .handling m }
    | [] => if w.tx then none else some { w with worker := .closing }
  | _ => none

/-- A write that failed is remembered for the next flush. -/
def fail (w : AsyncWriter) (operation : String) (error : IoError) : AsyncWriter :=
  { w with
    state := w.state.recordError operation error
    pendingError := w.pendingError.or (some error) }

/-- The reply to a flush that ended with `r`. -/
def answer (w : AsyncWriter) (r : InnerResult) : AsyncWriter :=
  let w := match r with
    | .err e => { w with state := w.state.recordError "flushing writer" e }
    | _ => w
  { w with
    reply := some (w.pendingError.elim r.toResult .error)
    pendingError := none }

/-- What the worker does with a message, after the inner call returned. -/
def handled (w : AsyncWriter) (m : Msg) (r : InnerResult) : AsyncWriter :=
  match m, r with
  | .scope _, .err e => w.fail "writing scope metadata" e
  | .record _ _, .err e => w.fail "writing record" e
  | .flush, r => w.answer r
  | _, _ => w

/-- The call on the inner writer; `set_run_id` returns no error. -/
def work (w : AsyncWriter) (r : InnerResult) : Option AsyncWriter :=
  match w.worker with
  | .handling m =>
    let called := { w with inner := w.inner ++ [(m, r)] }
    match r, m with
    | .panic, _ => some { called with worker := .unwinding }
    | .err _, .runId _ => none
    | _, _ => some { called.handled m r with worker := .receiving }
  | .closing =>
    let called := { w with shutdown := some r }
    match r with
    | .panic => some { called with worker := .unwinding }
    | .err e =>
      some { called with
        state := w.state.recordError "flushing writer at shutdown" e, worker := .done false }
    | .ok => some { called with worker := .done false }
  | _ => none

def workerPanicked : IoError := ⟨.other, "worker panicked"⟩

/-- The panic is recorded, the receiver is dropped and the queue with it. -/
def unwind (w : AsyncWriter) : Option AsyncWriter :=
  match w.worker with
  | .unwinding =>
    some { w with
      state := w.state.recordError "background writer" workerPanicked
      worker := .done true, lost := w.lost ++ w.queue, queue := [] }
  | _ => none

def step (w : AsyncWriter) : WriterAction → Option AsyncWriter
  | .call m => if w.producer = .idle then some (w.call m) else none
  | .drop => if w.producer = .idle then some { w with tx := false, producer := .joining } else none
  | .proceed => w.proceed
  | .receive => w.receive
  | .work r => w.work r
  | .unwind => w.unwind

end AsyncWriter

end Eventline
