/-
  `runtime::flush` and the errors of the background writer.

  The calls of the runtime that write hold the writer mutex; they follow one
  another, and the worker of the installed writer takes its steps meanwhile.  A
  configuration call flushes the writer before it builds another one, and the
  error that this flush returns is thrown away.

  * `Output.step`: the sections of the writer mutex, and the worker.
  * `failures_reported`: a write that failed is reported by the next flush, in
    the runs where no error is pending when a configuration call flushes.
  * `drain_hides_failure`: a configuration call takes the error.
-/
import Eventline.Writer.Accounting

namespace Eventline

/-- The call that holds the writer mutex. -/
inductive OutputOp where
  /-- the mutex is free -/
  | idle
  /-- `emit`, `enter_scope` and `exit_scope` -/
  | writing
  /-- `flush` -/
  | flushing
  /-- `update_writers`: the flush before the new writer is built -/
  | draining
  | building
  /-- the old writer is dropped, for a new one of this mode -/
  | replacing (mode : WriteMode) (scopeMetadata : Bool)
  deriving DecidableEq

/-- The installed writer, and the call that uses it. -/
structure Output where
  /-- none for `NoopWriter` -/
  writer : Option AsyncWriter
  op : OutputOp
  /-- a write has failed since `flush` returned last -/
  failedSince : Bool
  /-- for each `flush` that returned, whether a write had failed, and its result -/
  flushes : List (Bool × IoResult)

inductive OutputAction where
  | write (m : Msg)
  | flush
  /-- a configuration call that is not cut short locks the writer -/
  | configure
  /-- the new writer is built and its thread started, or one of the two fails -/
  | build (r : Except IoError (WriteMode × Bool))
  /-- the next step of the call under way -/
  | proceed
  | receive
  /-- the call on the inner writer, and its error -/
  | work (error : Option IoError)

/-- `WRITER_QUEUE_CAP`. -/
def writerQueueCap : ℕ := 2048

namespace AsyncWriter

/-- The result of a call on the inner writer that does not panic. -/
def resultOf (error : Option IoError) : InnerResult := error.elim .ok .err

/-- The worker's call is a write, and it fails. -/
def failsWrite (w : AsyncWriter) (error : Option IoError) : Bool :=
  match w.worker with
  | .handling m => m.isWrite && error.isSome
  | _ => false

end AsyncWriter

namespace Output

open AsyncWriter (spawn)

/-- Before any configuration. -/
def new : Output := ⟨none, .idle, false, []⟩

/-- A call that locks the writer and sends it a message. -/
def lock (o : Output) (op : OutputOp) (m : Msg) : Option Output :=
  if o.op = .idle then
    match o.writer with
    | none => some { o with op }
    | some w => (w.step (.call m)).map fun w => { o with writer := some w, op }
  else none

/-- The call on the writer has returned. -/
def returned (o : Output) (r : IoResult) : Option Output :=
  match o.op with
  | .writing => some { o with op := .idle }
  | .flushing =>
    some { o with op := .idle, failedSince := false, flushes := o.flushes ++ [(o.failedSince, r)] }
  | .draining => some { o with op := .building }
  | _ => none

/-- The old writer is gone. -/
def install (o : Output) : Option Output :=
  match o.op with
  | .replacing mode scopeMetadata =>
    some { o with writer := some (spawn writerQueueCap mode scopeMetadata), op := .idle }
  | _ => none

/-- The call under way goes on. -/
def proceed (o : Output) : Option Output :=
  match o.writer with
  | none =>
    match o.op with
    | .replacing .. => o.install
    | _ => o.returned (.ok ())
  | some w =>
    match w.producer with
    | .idle => o.returned ((w.returned.getLast?.map Prod.snd).getD (.ok ()))
    | .dropped => o.install
    | _ => (w.step .proceed).map fun w => { o with writer := some w }

/-- The outcome of `build_writers` and of the start of the thread. -/
def build (o : Output) (r : Except IoError (WriteMode × Bool)) : Option Output :=
  if o.op = .building then
    match r, o.writer with
    | .error _, _ => some { o with op := .idle }
    | .ok (mode, scopeMetadata), none => some { o with op := .replacing mode scopeMetadata }
    | .ok (mode, scopeMetadata), some w =>
      (w.step .drop).map fun w => { o with writer := some w, op := .replacing mode scopeMetadata }
  else none

/-- A step of the worker. -/
def workerStep (o : Output) (a : WriterAction) : Option Output :=
  o.writer.bind fun w => (w.step a).map fun w => { o with writer := some w }

def work (o : Output) (error : Option IoError) : Option Output :=
  (o.workerStep (.work (AsyncWriter.resultOf error))).map fun o' =>
    { o' with failedSince := o.failedSince || o.writer.any fun w => w.failsWrite error }

def step (o : Output) : OutputAction → Option Output
  | .write m => if m.isWrite then o.lock .writing m else none
  | .flush => o.lock .flushing .flush
  | .configure => o.lock .draining .flush
  | .build r => o.build r
  | .proceed => o.proceed
  | .receive => o.workerStep .receive
  | .work error => o.work error

end Output

/-! ## What the steps do to the pending error -/

namespace AsyncWriter

variable {w w' : AsyncWriter}

/-- The error of a write that failed is pending. -/
def Kept (failed : Bool) (w : AsyncWriter) : Prop := failed = true → w.pendingError.isSome = true

theorem kept_false (w : AsyncWriter) : w.Kept false := nofun

theorem Kept.congr {failed : Bool} (h : w.Kept failed) (hp : w'.pendingError = w.pendingError) :
    w'.Kept failed := by
  rw [Kept, hp]
  exact h

/-- A call that is a write returns, or waits for a place in the queue. -/
theorem call_producer (hidle : w.producer = .idle) (m : Msg) :
    (w.call m).producer = .idle ∨ (w.call m).producer = .sending m := by
  have hsubmit : (w.submit m).producer = .idle ∨ (w.submit m).producer = .sending m := by
    unfold submit trySend
    dsimp only
    split_ifs
    · exact .inl rfl
    · exact .inl rfl
    · exact .inl (refuse_returned _ _ _).1
    · exact .inr rfl
    · exact .inl (refuse_returned _ _ _).1
  unfold AsyncWriter.call
  cases m with
  | scope s =>
    dsimp only
    split_ifs
    · exact hsubmit
    · exact .inl hidle
  | runId runId => exact hsubmit
  | record r s => exact hsubmit
  | flush => exact hsubmit

/-- A flush of an open writer starts with a `send`. -/
theorem call_flush (htx : w.tx = true) : (w.call .flush).producer = .sending .flush ∧
    (w.call .flush).reply = w.reply := by
  have heq : w.call .flush =
      { w with submitted := w.submitted ++ [.flush], producer := .sending .flush } := by
    unfold AsyncWriter.call AsyncWriter.submit
    dsimp only
    rw [if_pos htx, if_neg (by rintro ⟨h, -⟩; cases h)]
  rw [heq]
  exact ⟨rfl, rfl⟩

/-- A write that was sent has returned. -/
theorem proceed_sending {m : Msg} (hp : w.producer = .sending m) (hm : m ≠ .flush)
    (hs : w.proceed = some w') : w'.producer = .idle := by
  unfold AsyncWriter.proceed AsyncWriter.send at hs
  rw [hp] at hs
  dsimp only at hs
  split_ifs at hs
  · split at hs
    · exact absurd rfl hm
    · obtain rfl := Option.some.inj hs
      rfl
  · obtain rfl := Option.some.inj hs
    exact (refuse_returned _ _ _).1

/-- A flush that was sent waits for its reply. -/
theorem proceed_flush (h : w.Calm) (hp : w.producer = .sending .flush) (hs : w.proceed = some w') :
    w'.producer = .waiting ∧ w'.reply = w.reply := by
  have hrx : w.rx = true := h.rx (h.booked.open (by rw [hp]; nofun) (by rw [hp]; nofun))
  unfold AsyncWriter.proceed AsyncWriter.send at hs
  rw [hp] at hs
  dsimp only at hs
  rw [if_pos hrx] at hs
  split_ifs at hs
  obtain rfl := Option.some.inj hs
  exact ⟨rfl, rfl⟩

/-- A flush returns its reply. -/
theorem proceed_waiting (h : w.Calm) (hp : w.producer = .waiting) (hs : w.proceed = some w') :
    ∃ r, w.reply = some r ∧ w' = { w with reply := none }.ret .flush r := by
  unfold AsyncWriter.proceed at hs
  rw [hp] at hs
  dsimp only at hs
  cases hr : w.reply with
  | some r =>
    rw [hr] at hs
    exact ⟨r, rfl, (Option.some.inj hs).symm⟩
  | none =>
    rw [hr] at hs
    dsimp only at hs
    rw [if_pos (h.replyOpen hp hr)] at hs
    cases hs

/-- The worker takes a message or finds the end of the queue. -/
theorem receive_same (hs : w.receive = some w') :
    ∃ queue worker, w' = { w with queue, worker } ∧ w'.onTheWay = w.onTheWay := by
  unfold AsyncWriter.receive at hs
  split at hs
  · rename_i hw
    split at hs
    · rename_i m queue hq
      obtain rfl := Option.some.inj hs
      exact ⟨_, _, rfl, by simp [onTheWay, inHand, hw, hq]⟩
    · rename_i hq
      split_ifs at hs
      obtain rfl := Option.some.inj hs
      exact ⟨_, _, rfl, by simp [onTheWay, inHand, hw]⟩
  · cases hs

theorem resultOf_ne_panic (error : Option IoError) : resultOf error ≠ .panic := by
  cases error with
  | none => nofun
  | some e => nofun

/-- The queue keeps its capacity. -/
theorem step_queueCap {a : WriterAction} (hs : w.step a = some w') : w'.queueCap = w.queueCap := by
  cases a with
  | call m => exact (step_frame (.inr (.inr ⟨m, rfl⟩)) hs).queueCap
  | drop => exact (step_frame (.inl rfl) hs).queueCap
  | proceed => exact (step_frame (.inr (.inl rfl)) hs).queueCap
  | receive =>
    obtain ⟨queue, worker, rfl, -⟩ := receive_same hs
    rfl
  | work r =>
    rcases work_cases hs with ⟨m, -, -, rfl⟩ | ⟨m, -, -, rfl⟩ | ⟨-, -, rfl⟩ | ⟨-, -, state, -, rfl⟩
    · rfl
    · obtain ⟨pendingError, reply, state, -, heq⟩ :=
        handled_same { w with inner := w.inner ++ [(m, r)] } m r
      rw [heq]
    · rfl
    · rfl
  | unwind =>
    obtain ⟨-, rfl⟩ := unwind_eq hs
    rfl

/-- A call on the inner writer that is no flush: the error of a write is pending. -/
theorem work_message {m : Msg} (hw : w.worker = .handling m) (hm : m ≠ .flush)
    {error : Option IoError} (hs : w.work (resultOf error) = some w') :
    w'.producer = w.producer ∧ w'.reply = w.reply ∧ w'.returned = w.returned ∧
      w.onTheWay = m :: w'.onTheWay ∧
      ∀ failed, w.Kept failed → w'.Kept (failed || w.failsWrite error) := by
  unfold AsyncWriter.work at hs
  rw [hw] at hs
  have hway : w.onTheWay = m :: w.queue := by rw [onTheWay, inHand, hw]; rfl
  rw [hway]
  have hor : ∀ e : IoError, (w.pendingError.or (some e)).isSome = true := by
    intro e
    cases w.pendingError with
    | none => rfl
    | some e' => rfl
  cases m with
  | flush => exact absurd rfl hm
  | runId runId =>
    cases error with
    | some e => cases hs
    | none =>
      obtain rfl := Option.some.inj hs
      refine ⟨rfl, rfl, rfl, rfl, fun failed h hf => h ?_⟩
      simpa [failsWrite, hw, Msg.isWrite] using hf
  | scope s =>
    cases error with
    | some e =>
      obtain rfl := Option.some.inj hs
      exact ⟨rfl, rfl, rfl, rfl, fun failed _ _ => hor e⟩
    | none =>
      obtain rfl := Option.some.inj hs
      refine ⟨rfl, rfl, rfl, rfl, fun failed h hf => h ?_⟩
      simpa [failsWrite, hw] using hf
  | record r s =>
    cases error with
    | some e =>
      obtain rfl := Option.some.inj hs
      exact ⟨rfl, rfl, rfl, rfl, fun failed _ _ => hor e⟩
    | none =>
      obtain rfl := Option.some.inj hs
      refine ⟨rfl, rfl, rfl, rfl, fun failed h hf => h ?_⟩
      simpa [failsWrite, hw] using hf

/-- The reply to a flush is the pending error, if there is one. -/
theorem work_flush (hw : w.worker = .handling .flush) {error : Option IoError}
    (hs : w.work (resultOf error) = some w') :
    w'.producer = w.producer ∧ w'.returned = w.returned ∧ w.onTheWay = .flush :: w'.onTheWay ∧
      w.failsWrite error = false ∧
      ∃ r, w'.reply = some r ∧ (w.pendingError.isSome = true → Failed r) := by
  have hreply : ∀ r : IoResult, w.pendingError.isSome = true →
      Failed (w.pendingError.elim r Except.error) := by
    intro r hsome
    obtain ⟨e, he⟩ := Option.isSome_iff_exists.1 hsome
    exact ⟨e, by rw [he]; rfl⟩
  have hway : w.onTheWay = .flush :: w.queue := by rw [onTheWay, inHand, hw]; rfl
  have hfails : w.failsWrite error = false := by simp [failsWrite, hw, Msg.isWrite]
  unfold AsyncWriter.work at hs
  rw [hw] at hs
  cases error with
  | none =>
    obtain rfl := Option.some.inj hs
    exact ⟨rfl, rfl, hway, hfails, _, rfl, hreply _⟩
  | some e =>
    obtain rfl := Option.some.inj hs
    exact ⟨rfl, rfl, hway, hfails, _, rfl, hreply _⟩

/-- The flush at shutdown. -/
theorem work_closing (hw : w.worker = .closing) {error : Option IoError}
    (hs : w.work (resultOf error) = some w') :
    w'.producer = w.producer ∧ w'.reply = w.reply ∧ w'.returned = w.returned ∧
      w'.onTheWay = w.onTheWay ∧ w'.pendingError = w.pendingError ∧
      w.failsWrite error = false := by
  have hway : w.onTheWay = w.queue := by rw [onTheWay, inHand, hw]; rfl
  have hfails : w.failsWrite error = false := by simp [failsWrite, hw]
  unfold AsyncWriter.work at hs
  rw [hw] at hs
  cases error with
  | none =>
    obtain rfl := Option.some.inj hs
    exact ⟨rfl, rfl, rfl, hway.symm, rfl, hfails⟩
  | some e =>
    obtain rfl := Option.some.inj hs
    exact ⟨rfl, rfl, rfl, hway.symm, rfl, hfails⟩

/-! ## The flush of a call -/

/-- A flush under way: it reports what failed before it.  The flush of a
    configuration call (`internal`) reports to nobody. -/
inductive Flushing (internal failed : Bool) (w : AsyncWriter) : Prop
  | sent (hp : w.producer = .sending .flush ∨ w.producer = .waiting) (hr : w.reply = none)
      (h : w.Kept failed)
  | answered (r : IoResult)
      (hp : w.producer = .waiting ∧ w.reply = some r ∨
        w.producer = .idle ∧ w.returned.getLast? = some (.flush, r))
      (hway : w.onTheWay = []) (hf : failed = true → internal = false ∧ Failed r)

/-- The writer during a call of the runtime. -/
def Phase (failed : Bool) (w : AsyncWriter) : OutputOp → Prop
  | .idle => w.producer = .idle ∧ w.Kept failed
  | .writing => (w.producer = .idle ∨ ∃ m : Msg, m.isWrite = true ∧ w.producer = .sending m) ∧
      w.Kept failed
  | .flushing => w.Flushing false failed
  | .draining => w.Flushing true failed
  | .building => w.producer = .idle ∧ w.onTheWay = [] ∧ failed = false
  | .replacing .. => (w.producer = .joining ∨ w.producer = .dropped) ∧ w.onTheWay = [] ∧
      failed = false

theorem Flushing.proceed {internal failed : Bool} (h : w.Flushing internal failed) (hc : w.Calm)
    (hs : w.proceed = some w') : w'.Flushing internal failed := by
  have hkept := (proceed_frame hs).pendingError
  rcases h with ⟨hp | hp, hr, h⟩ | ⟨r, ⟨hp, hr⟩ | ⟨hp, -⟩, hway, hf⟩
  · obtain ⟨hp', hr'⟩ := proceed_flush hc hp hs
    exact .sent (.inr hp') (hr'.trans hr) (h.congr hkept)
  · obtain ⟨r, hr', -⟩ := proceed_waiting hc hp hs
    rw [hr] at hr'
    cases hr'
  · obtain ⟨r', hr', rfl⟩ := proceed_waiting hc hp hs
    obtain rfl := Option.some.inj (hr.symm.trans hr')
    exact .answered r (.inr ⟨rfl, List.getLast?_concat⟩) hway hf
  · rw [AsyncWriter.proceed, hp] at hs
    cases hs

theorem Phase.proceed {op : OutputOp} {failed : Bool} (h : w.Phase failed op) (hc : w.Calm)
    (hs : w.proceed = some w') : w'.Phase failed op := by
  have hkept := (proceed_frame hs).pendingError
  have hnot : w.producer ≠ .idle := by
    intro hp
    rw [AsyncWriter.proceed, hp] at hs
    cases hs
  cases op with
  | idle => exact absurd h.1 hnot
  | writing =>
    obtain ⟨hp | ⟨m, hm, hp⟩, h⟩ := h
    · exact absurd hp hnot
    · exact ⟨.inl (proceed_sending hp (by rintro rfl; cases hm) hs), h.congr hkept⟩
  | flushing => exact Flushing.proceed h hc hs
  | draining => exact Flushing.proceed h hc hs
  | building => exact absurd h.1 hnot
  | replacing mode scopeMetadata =>
    obtain ⟨hp | hp, hway, hf⟩ := h
    · unfold AsyncWriter.proceed at hs
      rw [hp] at hs
      dsimp only at hs
      split_ifs at hs
      obtain rfl := Option.some.inj hs
      exact ⟨.inr rfl, hway, hf⟩
    · rw [AsyncWriter.proceed, hp] at hs
      cases hs

theorem Phase.receive {op : OutputOp} {failed : Bool} (h : w.Phase failed op)
    (hs : w.receive = some w') : w'.Phase failed op := by
  obtain ⟨queue, worker, rfl, hway⟩ := receive_same hs
  cases op with
  | idle => exact h
  | writing => exact h
  | flushing =>
    rcases h with ⟨hp, hr, h⟩ | ⟨r, hp, hnil, hf⟩
    · exact .sent hp hr h
    · exact .answered r hp (hway.trans hnil) hf
  | draining =>
    rcases h with ⟨hp, hr, h⟩ | ⟨r, hp, hnil, hf⟩
    · exact .sent hp hr h
    · exact .answered r hp (hway.trans hnil) hf
  | building => exact ⟨h.1, hway.trans h.2.1, h.2.2⟩
  | replacing mode scopeMetadata => exact ⟨h.1, hway.trans h.2.1, h.2.2⟩

/-- Where the worker is when a call on the inner writer ends. -/
theorem work_worker {r : InnerResult} (hs : w.work r = some w') :
    (∃ m, w.worker = .handling m) ∨ w.worker = .closing := (work_frame hs).2.2

theorem Flushing.work {internal failed : Bool} (h : w.Flushing internal failed) (hc : w.Calm)
    {error : Option IoError}
    (hclean : internal = true → w.worker = .handling .flush → w.pendingError = none)
    (hs : w.work (resultOf error) = some w') :
    w'.Flushing internal (failed || w.failsWrite error) := by
  have hc' := hc.work (resultOf_ne_panic error) hs
  rcases h with ⟨hp, hr, h⟩ | ⟨r, hp, hnil, hf⟩
  · rcases work_worker hs with ⟨m, hw⟩ | hw
    · by_cases hm : m = .flush
      · -- the reply; the flush was the last message
        subst hm
        obtain ⟨hp', -, hway, hfails, r, hr', hfailed⟩ := work_flush hw hs
        have hwait : w.producer = .waiting := by
          by_contra hne
          refine (hc.flush.idle hne).2 ?_
          rw [hway]
          exact List.mem_cons_self
        have hnil := hc'.flush.replied (hp'.trans hwait) (by rw [hr']; nofun)
        refine .answered r (.inl ⟨hp'.trans hwait, hr'⟩) hnil fun hf => ?_
        rw [hfails, Bool.or_false] at hf
        have hpending := h hf
        refine ⟨?_, hfailed hpending⟩
        cases internal with
        | false => rfl
        | true =>
          rw [hclean rfl hw] at hpending
          cases hpending
      · obtain ⟨hp', hr', -, -, hkept⟩ := work_message hw hm hs
        exact .sent (by rw [hp']; exact hp) (hr'.trans hr) (hkept failed h)
    · obtain ⟨hp', hr', -, -, hpend, hfails⟩ := work_closing hw hs
      rw [hfails, Bool.or_false]
      exact .sent (by rw [hp']; exact hp) (hr'.trans hr) (h.congr hpend)
  · rcases work_worker hs with ⟨m, hw⟩ | hw
    · rw [onTheWay, inHand, hw] at hnil
      cases hnil
    · obtain ⟨hp', hr', hret, hway, -, hfails⟩ := work_closing hw hs
      rw [hfails, Bool.or_false]
      refine .answered r ?_ (hway.trans hnil) hf
      rw [hp', hr', hret]
      exact hp

/-- While no flush is waited for, only writes are handled. -/
theorem Kept.work {failed : Bool} (h : w.Kept failed) (hc : w.Calm) (hp : w.producer ≠ .waiting)
    {error : Option IoError} (hs : w.work (resultOf error) = some w') :
    w'.producer = w.producer ∧ w'.Kept (failed || w.failsWrite error) := by
  rcases work_worker hs with ⟨m, hw⟩ | hw
  · have hm : m ≠ .flush := by
      rintro rfl
      refine (hc.flush.idle hp).2 ?_
      rw [onTheWay, inHand, hw]
      exact List.mem_cons_self
    obtain ⟨hp', -, -, -, hkept⟩ := work_message hw hm hs
    exact ⟨hp', hkept failed h⟩
  · obtain ⟨hp', -, -, -, hpend, hfails⟩ := work_closing hw hs
    rw [hfails, Bool.or_false]
    exact ⟨hp', h.congr hpend⟩

/-- With nothing on its way, the worker has at most the flush at shutdown to make. -/
theorem work_nothing (hnil : w.onTheWay = []) {error : Option IoError}
    (hs : w.work (resultOf error) = some w') :
    w'.producer = w.producer ∧ w'.onTheWay = [] ∧ w.failsWrite error = false := by
  rcases work_worker hs with ⟨m, hw⟩ | hw
  · rw [onTheWay, inHand, hw] at hnil
    cases hnil
  · obtain ⟨hp', -, -, hway, -, hfails⟩ := work_closing hw hs
    exact ⟨hp', hway.trans hnil, hfails⟩

theorem Phase.work {op : OutputOp} {failed : Bool} (h : w.Phase failed op) (hc : w.Calm)
    {error : Option IoError}
    (hclean : op = .draining → w.worker = .handling .flush → w.pendingError = none)
    (hs : w.work (resultOf error) = some w') :
    w'.Phase (failed || w.failsWrite error) op := by
  cases op with
  | idle =>
    obtain ⟨hp', hkept⟩ := Kept.work h.2 hc (by rw [h.1]; nofun) hs
    exact ⟨hp'.trans h.1, hkept⟩
  | writing =>
    obtain ⟨hp, h⟩ := h
    have hne : w.producer ≠ .waiting := by
      rcases hp with hp | ⟨m, -, hp⟩
      · rw [hp]; nofun
      · rw [hp]; nofun
    obtain ⟨hp', hkept⟩ := h.work hc hne hs
    refine ⟨?_, hkept⟩
    rw [hp']
    exact hp
  | flushing => exact Flushing.work h hc nofun hs
  | draining => exact Flushing.work h hc (fun _ => hclean rfl) hs
  | building =>
    obtain ⟨hp, hnil, rfl⟩ := h
    obtain ⟨hp', hnil', hfails⟩ := work_nothing hnil hs
    exact ⟨hp'.trans hp, hnil', hfails⟩
  | replacing mode scopeMetadata =>
    obtain ⟨hp, hnil, rfl⟩ := h
    obtain ⟨hp', hnil', hfails⟩ := work_nothing hnil hs
    refine ⟨?_, hnil', hfails⟩
    rw [hp']
    exact hp

end AsyncWriter

/-! ## The runs -/

namespace Output

open AsyncWriter (Failed spawn)

variable {o o' : Output}

/-- What was reported is right, and what failed will be reported. -/
structure Sound (o : Output) : Prop where
  reported : ∀ p ∈ o.flushes, p.1 = true → Failed p.2
  noop : o.writer = none → o.failedSince = false
  room : ∀ w, o.writer = some w → 0 < w.queueCap
  calm : ∀ w, o.writer = some w → w.Calm
  phase : ∀ w, o.writer = some w → w.Phase o.failedSince o.op

theorem new_sound : new.Sound where
  reported _ h := by cases h
  noop _ := rfl
  room w h := by cases h
  calm w h := by cases h
  phase w h := by cases h

/-- The writer takes a step. -/
theorem Sound.writer {w' : AsyncWriter} (h : o.Sound) {op : OutputOp} {failedSince : Bool}
    (hroom : 0 < w'.queueCap) (hc : w'.Calm) (hphase : w'.Phase failedSince op) :
    Sound { o with writer := some w', op, failedSince } where
  reported := h.reported
  noop := nofun
  room _ hw := by
    obtain rfl := Option.some.inj hw
    exact hroom
  calm _ hw := by
    obtain rfl := Option.some.inj hw
    exact hc
  phase _ hw := by
    obtain rfl := Option.some.inj hw
    exact hphase

/-- No error is pending when the worker answers the flush of a configuration
    call. -/
def DrainsClean (o : Output) : OutputAction → Prop
  | .work _ => o.op = .draining → ∀ w ∈ o.writer, w.worker = .handling .flush →
      w.pendingError = none
  | _ => True

instance (o : Output) (a : OutputAction) : Decidable (o.DrainsClean a) := by
  cases a with
  | work error => exact inferInstanceAs (Decidable (_ → _))
  | _ => exact inferInstanceAs (Decidable True)

/-- The call moves on, with the writer as it was. -/
theorem Sound.moved (h : o.Sound) {op : OutputOp} {failedSince : Bool}
    (hnoop : o.writer = none → failedSince = false)
    (hphase : ∀ w, o.writer = some w → w.Phase failedSince op) :
    Sound { o with op, failedSince } :=
  ⟨h.reported, hnoop, h.room, h.calm, hphase⟩

theorem Sound.stepped {w w' : AsyncWriter} (h : o.Sound) (hw : o.writer = some w)
    {a : WriterAction} (hs : w.step a = some w') : 0 < w'.queueCap := by
  rw [AsyncWriter.step_queueCap hs]
  exact h.room w hw

/-- Nothing has failed unreported when the old writer is gone. -/
theorem Sound.install (h : o.Sound) (hs : o.install = some o') : o'.Sound := by
  unfold Output.install at hs
  split at hs
  · rename_i mode scopeMetadata hop
    obtain rfl := Option.some.inj hs
    have hf : o.failedSince = false := by
      cases hw : o.writer with
      | none => exact h.noop hw
      | some w =>
        have hphase := h.phase w hw
        rw [hop] at hphase
        exact hphase.2.2
    refine h.writer (Nat.le_max_right _ 1) (AsyncWriter.spawn_calm _ _ _) ⟨rfl, ?_⟩
    rw [hf]
    exact AsyncWriter.kept_false _
  · cases hs

theorem Sound.lock (h : o.Sound) {op : OutputOp} {m : Msg}
    (hphase : ∀ w : AsyncWriter, w.Calm → w.Phase o.failedSince .idle →
      (w.call m).Phase o.failedSince op)
    (hs : o.lock op m = some o') : o'.Sound := by
  unfold Output.lock at hs
  split_ifs at hs with hop
  cases hw : o.writer with
  | none =>
    rw [hw] at hs
    obtain rfl := Option.some.inj hs
    have hmoved : Sound { o with op } := by
      refine h.moved h.noop fun w hw' => ?_
      rw [hw] at hw'
      cases hw'
    rwa [hw] at hmoved
  | some w =>
    rw [hw] at hs
    obtain ⟨w', hstep, rfl⟩ := Option.map_eq_some_iff.1 hs
    have hc := h.calm w hw
    have hidle := h.phase w hw
    rw [hop] at hidle
    have hc' := hc.step (by nofun) hstep
    have hroom := h.stepped hw hstep
    rw [AsyncWriter.step, if_pos hidle.1] at hstep
    obtain rfl := Option.some.inj hstep
    exact h.writer hroom hc' (hphase w hc hidle)

/-- A flush that the runtime calls sends its message. -/
theorem flush_sent {w : AsyncWriter} {internal failed : Bool} (hc : w.Calm)
    (h : w.Phase failed .idle) : (w.call .flush).Flushing internal failed := by
  obtain ⟨hidle, hkept⟩ := h
  have hp : w.producer ≠ .waiting := by rw [hidle]; nofun
  have htx : w.tx = true := hc.booked.open (by rw [hidle]; nofun) (by rw [hidle]; nofun)
  obtain ⟨hp', hr'⟩ := AsyncWriter.call_flush htx
  exact .sent (.inl hp') (hr'.trans (hc.flush.idle hp).1)
    (hkept.congr (AsyncWriter.call_frame w .flush).pendingError)

theorem flushing_sent {w : AsyncWriter} {failed : Bool} (hc : w.Calm) (h : w.Phase failed .idle) :
    (w.call .flush).Phase failed .flushing := flush_sent hc h

theorem draining_sent {w : AsyncWriter} {failed : Bool} (hc : w.Calm) (h : w.Phase failed .idle) :
    (w.call .flush).Phase failed .draining := flush_sent hc h

/-- The call on the writer has returned. -/
theorem Sound.returned (h : o.Sound) {r : IoResult}
    (hr : ∀ w, o.writer = some w → w.producer = .idle ∧
      ∀ r', w.returned.getLast? = some (.flush, r') → r = r')
    (hs : o.returned r = some o') : o'.Sound := by
  unfold Output.returned at hs
  split at hs
  · rename_i hop
    obtain rfl := Option.some.inj hs
    refine h.moved h.noop fun w hw => ⟨(hr w hw).1, ?_⟩
    have hphase := h.phase w hw
    rw [hop] at hphase
    exact hphase.2
  · rename_i hop
    obtain rfl := Option.some.inj hs
    refine ⟨fun p hp hf => ?_, fun _ => rfl, h.room, h.calm,
      fun w hw => ⟨(hr w hw).1, AsyncWriter.kept_false w⟩⟩
    rcases List.mem_append.1 hp with hp | hp
    · exact h.reported p hp hf
    · -- the flush that returns
      rw [List.mem_singleton.1 hp] at hf ⊢
      cases hw : o.writer with
      | none =>
        have hf' := h.noop hw
        rw [show o.failedSince = true from hf] at hf'
        cases hf'
      | some w =>
        have hphase := h.phase w hw
        rw [hop] at hphase
        obtain ⟨hidle, hlast⟩ := hr w hw
        rcases hphase with ⟨hp | hp, -, -⟩ | ⟨r', ⟨hp, -⟩ | ⟨-, hret⟩, -, hfailed⟩
        · rw [hidle] at hp; cases hp
        · rw [hidle] at hp; cases hp
        · rw [hidle] at hp; cases hp
        · rw [hlast r' hret]
          exact (hfailed hf).2
  · rename_i hop
    obtain rfl := Option.some.inj hs
    refine h.moved h.noop fun w hw => ?_
    have hphase := h.phase w hw
    rw [hop] at hphase
    obtain ⟨hidle, -⟩ := hr w hw
    rcases hphase with ⟨hp | hp, -, -⟩ | ⟨r', -, hway, hfailed⟩
    · rw [hidle] at hp; cases hp
    · rw [hidle] at hp; cases hp
    · refine ⟨hidle, hway, ?_⟩
      cases hf : o.failedSince with
      | false => rfl
      | true => cases (hfailed hf).1
  · cases hs

theorem Sound.proceed (h : o.Sound) (hs : o.proceed = some o') : o'.Sound := by
  unfold Output.proceed at hs
  split at hs
  · rename_i hw
    split at hs
    · exact h.install hs
    · refine h.returned (fun w hw' => ?_) hs
      rw [hw] at hw'
      cases hw'
  · rename_i w hw
    split at hs
    · rename_i hidle
      refine h.returned (fun w' hw' => ?_) hs
      obtain rfl := Option.some.inj (hw.symm.trans hw')
      refine ⟨hidle, fun r' hr' => ?_⟩
      rw [hr']
      rfl
    · exact h.install hs
    · obtain ⟨w', hstep, rfl⟩ := Option.map_eq_some_iff.1 hs
      exact h.writer (h.stepped hw hstep) ((h.calm w hw).step (by nofun) hstep)
        ((h.phase w hw).proceed (h.calm w hw) hstep)

theorem Sound.build (h : o.Sound) {r : Except IoError (WriteMode × Bool)}
    (hs : o.build r = some o') : o'.Sound := by
  unfold Output.build at hs
  split_ifs at hs with hop
  have hphase : ∀ w, o.writer = some w →
      w.producer = .idle ∧ w.onTheWay = [] ∧ o.failedSince = false := by
    intro w hw
    have hphase := h.phase w hw
    rw [hop] at hphase
    exact hphase
  split at hs
  · obtain rfl := Option.some.inj hs
    refine h.moved h.noop fun w hw => ?_
    obtain ⟨hidle, -, hf⟩ := hphase w hw
    refine ⟨hidle, ?_⟩
    rw [hf]
    exact AsyncWriter.kept_false w
  · rename_i hw
    obtain rfl := Option.some.inj hs
    refine h.moved h.noop fun w hw' => ?_
    rw [hw] at hw'
    cases hw'
  · rename_i w hw
    obtain ⟨w', hstep, rfl⟩ := Option.map_eq_some_iff.1 hs
    obtain ⟨hidle, hway, hf⟩ := hphase w hw
    have hc' := (h.calm w hw).step (by nofun) hstep
    have hroom := h.stepped hw hstep
    rw [AsyncWriter.step, if_pos hidle] at hstep
    obtain rfl := Option.some.inj hstep
    exact h.writer hroom hc' ⟨.inl rfl, hway, hf⟩

/-- **Every step reports what failed**, when configuration calls find no error
    pending. -/
theorem Sound.step (h : o.Sound) {a : OutputAction} (hclean : o.DrainsClean a)
    (hs : o.step a = some o') : o'.Sound := by
  cases a with
  | write m =>
    rw [Output.step] at hs
    split_ifs at hs with hm
    have hwriting : ∀ w : AsyncWriter, w.Calm → w.Phase o.failedSince .idle →
        (w.call m).Phase o.failedSince .writing := by
      intro w hc hidle
      refine ⟨?_, hidle.2.congr (AsyncWriter.call_frame w m).pendingError⟩
      rcases AsyncWriter.call_producer hidle.1 m with hp | hp
      · exact .inl hp
      · exact .inr ⟨m, hm, hp⟩
    exact h.lock hwriting hs
  | flush => exact h.lock (fun _ => flushing_sent) hs
  | configure => exact h.lock (fun _ => draining_sent) hs
  | build r => exact h.build hs
  | proceed => exact h.proceed hs
  | receive =>
    obtain ⟨w, hw, hs⟩ := Option.bind_eq_some_iff.1 hs
    obtain ⟨w', hstep, rfl⟩ := Option.map_eq_some_iff.1 hs
    exact h.writer (h.stepped hw hstep) ((h.calm w hw).step (by nofun) hstep)
        ((h.phase w hw).receive hstep)
  | work error =>
    obtain ⟨o₁, hwork, rfl⟩ := Option.map_eq_some_iff.1 hs
    obtain ⟨w, hw, hs⟩ := Option.bind_eq_some_iff.1 hwork
    obtain ⟨w', hstep, rfl⟩ := Option.map_eq_some_iff.1 hs
    have hc := h.calm w hw
    have hne : WriterAction.work (AsyncWriter.resultOf error) ≠ .work .panic := by
      simpa using AsyncWriter.resultOf_ne_panic error
    rw [hw, Option.any_some]
    exact h.writer (h.stepped hw hstep) (hc.step hne hstep)
      ((h.phase w hw).work hc (fun hop hwork => hclean hop w hw hwork) hstep)

end Output

/-! ## A flush returns -/

/-- A bound on the steps of the call under way, those of the worker apart. -/
def Producer.left : Producer → ℕ
  | sending _ => 5
  | waiting => 2
  | _ => 0

namespace AsyncWriter

variable {w w' : AsyncWriter}

/-- A bound on the steps until a flush under way has its reply. -/
def left (w : AsyncWriter) : ℕ := 2 * w.queue.length + w.inHand.length + w.producer.left

theorem receive_left (htx : w.tx = true) (hs : w.receive = some w') :
    w'.left < w.left ∧ w'.producer = w.producer := by
  unfold AsyncWriter.receive at hs
  split at hs
  · rename_i hw
    split at hs
    · rename_i m queue hq
      obtain rfl := Option.some.inj hs
      refine ⟨?_, rfl⟩
      simp only [left, inHand, hw, hq, List.length_cons, List.length_nil]
      omega
    · rw [if_pos htx] at hs
      cases hs
  · cases hs

theorem work_left (h : w.Calm) (htx : w.tx = true) {error : Option IoError}
    (hs : w.work (resultOf error) = some w') : w'.left < w.left ∧ w'.producer = w.producer := by
  rcases work_cases hs with ⟨m, -, hr, -⟩ | ⟨m, hw, -, rfl⟩ | ⟨-, hr, -⟩ | ⟨hw, -⟩
  · exact absurd hr (resultOf_ne_panic error)
  · obtain ⟨pendingError, reply, state, -, heq⟩ :=
      handled_same { w with inner := w.inner ++ [(m, resultOf error)] } m (resultOf error)
    rw [heq]
    refine ⟨?_, rfl⟩
    simp only [left, inHand, hw, List.length_cons, List.length_nil]
    omega
  · exact absurd hr (resultOf_ne_panic error)
  · rw [(h.booked.ledger.closing hw).2] at htx
    cases htx

theorem proceed_left (h : w.Calm) (hp : w.producer = .sending .flush ∨ w.producer = .waiting)
    (hs : w.proceed = some w') : w'.left < w.left := by
  rcases hp with hp | hp
  · have hrx : w.rx = true := h.rx (h.booked.open (by rw [hp]; nofun) (by rw [hp]; nofun))
    unfold AsyncWriter.proceed AsyncWriter.send at hs
    rw [hp] at hs
    dsimp only at hs
    rw [if_pos hrx] at hs
    split_ifs at hs
    obtain rfl := Option.some.inj hs
    simp only [left, accept, inHand, hp, Producer.left, List.length_append, List.length_cons,
      List.length_nil]
    omega
  · obtain ⟨r, -, rfl⟩ := proceed_waiting h hp hs
    simp only [left, ret, inHand, hp, Producer.left]
    omega

/-- While a flush is under way, its caller or the worker can go on. -/
theorem flush_goes_on (h : w.Calm) (hcap : 0 < w.queueCap) (hp : w.producer = .sending .flush ∨ w.producer = .waiting) :
    (∃ w', w.proceed = some w') ∨ (∃ w', w.receive = some w') ∨
      ∃ w', w.work (resultOf none) = some w' := by
  have htx : w.tx = true := by
    rcases hp with hp | hp
    · exact h.booked.open (by rw [hp]; nofun) (by rw [hp]; nofun)
    · exact h.booked.open (by rw [hp]; nofun) (by rw [hp]; nofun)
  have hrx := h.rx htx
  -- a message on its way can be taken or handled
  have hway : w.onTheWay ≠ [] → (∃ w', w.receive = some w') ∨
      ∃ w', w.work (resultOf none) = some w' := by
    intro hne
    cases hw : w.worker with
    | receiving =>
      refine .inl ?_
      cases hq : w.queue with
      | nil =>
        rw [onTheWay, inHand, hw, hq] at hne
        exact absurd rfl hne
      | cons m queue =>
        unfold AsyncWriter.receive
        rw [hw, hq]
        exact ⟨_, rfl⟩
    | handling m =>
      refine .inr ?_
      unfold AsyncWriter.work
      rw [hw]
      exact ⟨_, rfl⟩
    | closing =>
      rw [(h.booked.ledger.closing hw).2] at htx
      cases htx
    | unwinding => exact absurd hw h.worker.1
    | done panicked =>
      rw [rx, hw] at hrx
      cases hrx
  rcases hp with hp | hp
  · by_cases hroom : w.queue.length < w.queueCap
    · refine .inl ⟨{ w.accept .flush with producer := .waiting }, ?_⟩
      unfold AsyncWriter.proceed AsyncWriter.send
      rw [hp]
      dsimp only
      rw [if_pos hrx, if_pos hroom]
    · -- the queue is full, so the worker has a message
      refine .inr (hway fun hnil => hroom ?_)
      rw [(List.append_eq_nil_iff.1 hnil).2]
      exact hcap
  · cases hr : w.reply with
    | none =>
      obtain ⟨ahead, heq, -⟩ := h.flush.waiting hp hr
      exact .inr (hway (by rw [heq]; simp))
    | some r =>
      refine .inl ⟨{ w with reply := none }.ret .flush r, ?_⟩
      unfold AsyncWriter.proceed
      rw [hp]
      dsimp only
      rw [hr]

end AsyncWriter

namespace Output

open AsyncWriter (Failed spawn)

variable {o o' : Output}

/-- A bound on the steps until the flush under way returns. -/
def left (o : Output) : ℕ := o.writer.elim 0 AsyncWriter.left

/-- The flush under way returns, or comes closer to its end. -/
theorem Sound.closer (h : o.Sound) (hop : o.op = .flushing) {a : OutputAction}
    (hs : o.step a = some o') :
    (∃ p, o'.flushes = o.flushes ++ [p]) ∨
      o'.op = .flushing ∧ o'.flushes = o.flushes ∧ o'.left < o.left := by
  have hlock : ∀ op m, o.lock op m ≠ some o' := by
    intro op m hs
    rw [Output.lock, if_neg (by rw [hop]; nofun)] at hs
    cases hs
  have hret : ∀ r, o.returned r = some o' → ∃ p, o'.flushes = o.flushes ++ [p] := by
    intro r hs
    rw [Output.returned, hop] at hs
    obtain rfl := Option.some.inj hs
    exact ⟨_, rfl⟩
  have hinstall : o.install ≠ some o' := by
    intro hs
    rw [Output.install, hop] at hs
    cases hs
  have hphase : ∀ w, o.writer = some w → w.Flushing false o.failedSince := by
    intro w hw
    have hphase := h.phase w hw
    rw [hop] at hphase
    exact hphase
  have htx : ∀ w, o.writer = some w → w.tx = true := by
    intro w hw
    have hopen : ∀ p, w.producer = p → p ≠ .joining → p ≠ .dropped → w.tx = true := by
      rintro p rfl hj hd
      exact (h.calm w hw).booked.open hj hd
    rcases hphase w hw with ⟨hp | hp, -, -⟩ | ⟨r, ⟨hp, -⟩ | ⟨hp, -⟩, -, -⟩
    · exact hopen _ hp nofun nofun
    · exact hopen _ hp nofun nofun
    · exact hopen _ hp nofun nofun
    · exact hopen _ hp nofun nofun
  cases a with
  | write m =>
    rw [Output.step] at hs
    split_ifs at hs
    exact absurd hs (hlock _ _)
  | flush => exact absurd hs (hlock _ _)
  | configure => exact absurd hs (hlock _ _)
  | build r =>
    unfold Output.step Output.build at hs
    dsimp only at hs
    rw [if_neg (by rw [hop]; nofun)] at hs
    cases hs
  | proceed =>
    rw [Output.step, Output.proceed] at hs
    cases hw : o.writer with
    | none =>
      rw [hw, hop] at hs
      exact .inl (hret _ hs)
    | some w =>
      rw [hw] at hs
      dsimp only at hs
      have hgo : (w.producer = .sending .flush ∨ w.producer = .waiting) →
          (w.step .proceed).map (fun w => { o with writer := some w }) = some o' →
          o'.op = .flushing ∧ o'.flushes = o.flushes ∧ o'.left < o.left := by
        intro hp hs
        obtain ⟨w', hstep, rfl⟩ := Option.map_eq_some_iff.1 hs
        refine ⟨hop, rfl, ?_⟩
        rw [left, left, hw]
        exact AsyncWriter.proceed_left (h.calm w hw) hp hstep
      rcases hphase w hw with ⟨hp | hp, -, -⟩ | ⟨r, ⟨hp, -⟩ | ⟨hp, -⟩, -, -⟩
      · rw [hp] at hs
        exact .inr (hgo (.inl hp) hs)
      · rw [hp] at hs
        exact .inr (hgo (.inr hp) hs)
      · rw [hp] at hs
        exact .inr (hgo (.inr hp) hs)
      · rw [hp] at hs
        exact .inl (hret _ hs)
  | receive =>
    obtain ⟨w, hw, hs⟩ := Option.bind_eq_some_iff.1 hs
    obtain ⟨w', hstep, rfl⟩ := Option.map_eq_some_iff.1 hs
    refine .inr ⟨hop, rfl, ?_⟩
    rw [left, left, hw]
    exact (AsyncWriter.receive_left (htx w hw) hstep).1
  | work error =>
    obtain ⟨o₁, hwork, rfl⟩ := Option.map_eq_some_iff.1 hs
    obtain ⟨w, hw, hs⟩ := Option.bind_eq_some_iff.1 hwork
    obtain ⟨w', hstep, rfl⟩ := Option.map_eq_some_iff.1 hs
    refine .inr ⟨hop, rfl, ?_⟩
    rw [left, left, hw]
    exact (AsyncWriter.work_left (h.calm w hw) (htx w hw) hstep).1

/-- Some step is possible while a flush is under way. -/
theorem Sound.goes_on (h : o.Sound) (hop : o.op = .flushing) : ∃ a, (o.step a).isSome = true := by
  have hret : ∀ r, (o.returned r).isSome = true := by
    intro r
    rw [Output.returned, hop]
    rfl
  cases hw : o.writer with
  | none =>
    refine ⟨.proceed, ?_⟩
    rw [Output.step, Output.proceed, hw, hop]
    exact hret _
  | some w =>
    have hphase := h.phase w hw
    rw [hop] at hphase
    have hgo : (w.producer = .sending .flush ∨ w.producer = .waiting) →
        ∃ a, (o.step a).isSome = true := by
      intro hp
      rcases AsyncWriter.flush_goes_on (h.calm w hw) (h.room w hw) hp with
        ⟨w', hs⟩ | ⟨w', hs⟩ | ⟨w', hs⟩
      · refine ⟨.proceed, ?_⟩
        rw [Output.step, Output.proceed, hw]
        dsimp only
        rcases hp with hp | hp
        · rw [hp]
          dsimp only
          rw [AsyncWriter.step, hs]
          rfl
        · rw [hp]
          dsimp only
          rw [AsyncWriter.step, hs]
          rfl
      · refine ⟨.receive, ?_⟩
        rw [Output.step, Output.workerStep, hw, Option.bind_some, AsyncWriter.step, hs]
        rfl
      · refine ⟨.work none, ?_⟩
        rw [Output.step, Output.work, Output.workerStep, hw, Option.bind_some, AsyncWriter.step, hs]
        rfl
    rcases hphase with ⟨hp | hp, -, -⟩ | ⟨r, ⟨hp, -⟩ | ⟨hp, -⟩, -, -⟩
    · exact hgo (.inl hp)
    · exact hgo (.inr hp)
    · exact hgo (.inr hp)
    · refine ⟨.proceed, ?_⟩
      rw [Output.step, Output.proceed, hw]
      dsimp only
      rw [hp]
      exact hret _

/-- A flush under way returns after a bounded number of steps, whatever these
    are, and never gets stuck. -/
def Returns (o : Output) : Prop :=
  o.op = .flushing → ∃ bound, ∀ actions o', Machine.run step o actions = some o' →
    o'.flushes = o.flushes → actions.length ≤ bound ∧ ∃ a, (o'.step a).isSome = true

/-- No step forgets a flush that returned. -/
theorem step_flushes {a : OutputAction} (hs : o.step a = some o') : o.flushes <+: o'.flushes := by
  have hreturned : ∀ r, o.returned r = some o' → o.flushes <+: o'.flushes := by
    intro r hs
    unfold Output.returned at hs
    split at hs
    · obtain rfl := Option.some.inj hs
      exact List.prefix_rfl
    · obtain rfl := Option.some.inj hs
      exact List.prefix_append _ _
    · obtain rfl := Option.some.inj hs
      exact List.prefix_rfl
    · cases hs
  have hinstall : o.install = some o' → o.flushes <+: o'.flushes := by
    intro hs
    unfold Output.install at hs
    split at hs
    · obtain rfl := Option.some.inj hs
      exact List.prefix_rfl
    · cases hs
  have hlock : ∀ op m, o.lock op m = some o' → o.flushes <+: o'.flushes := by
    intro op m hs
    unfold Output.lock at hs
    split_ifs at hs
    split at hs
    · obtain rfl := Option.some.inj hs
      exact List.prefix_rfl
    · obtain ⟨w', -, rfl⟩ := Option.map_eq_some_iff.1 hs
      exact List.prefix_rfl
  have hworker : ∀ a, o.workerStep a = some o' → o.flushes <+: o'.flushes := by
    intro a hs
    obtain ⟨w, -, hs⟩ := Option.bind_eq_some_iff.1 hs
    obtain ⟨w', -, rfl⟩ := Option.map_eq_some_iff.1 hs
    exact List.prefix_rfl
  cases a with
  | write m =>
    rw [Output.step] at hs
    split_ifs at hs
    exact hlock _ _ hs
  | flush => exact hlock _ _ hs
  | configure => exact hlock _ _ hs
  | build r =>
    unfold Output.step Output.build at hs
    dsimp only at hs
    split_ifs at hs
    split at hs
    · obtain rfl := Option.some.inj hs
      exact List.prefix_rfl
    · obtain rfl := Option.some.inj hs
      exact List.prefix_rfl
    · obtain ⟨w', -, rfl⟩ := Option.map_eq_some_iff.1 hs
      exact List.prefix_rfl
  | proceed =>
    rw [Output.step, Output.proceed] at hs
    split at hs
    · split at hs
      · exact hinstall hs
      · exact hreturned _ hs
    · split at hs
      · exact hreturned _ hs
      · exact hinstall hs
      · obtain ⟨w', -, rfl⟩ := Option.map_eq_some_iff.1 hs
        exact List.prefix_rfl
  | receive => exact hworker _ hs
  | work error =>
    obtain ⟨o₁, hwork, rfl⟩ := Option.map_eq_some_iff.1 hs
    obtain ⟨w, -, hs⟩ := Option.bind_eq_some_iff.1 hwork
    obtain ⟨w', -, rfl⟩ := Option.map_eq_some_iff.1 hs
    exact List.prefix_rfl

theorem run_flushes {actions : List OutputAction} (hs : Machine.run step o actions = some o') :
    o.flushes <+: o'.flushes :=
  Machine.run_invariant (I := fun t => o.flushes <+: t.flushes)
    (fun _ _ _ h hs => h.trans (step_flushes hs)) hs List.prefix_rfl

theorem Sound.returns (h : o.Sound) : o.Returns := by
  intro hop
  refine ⟨o.left, fun actions => ?_⟩
  induction actions generalizing o with
  | nil =>
    intro o' hs _
    obtain rfl := Option.some.inj hs
    exact ⟨Nat.zero_le _, h.goes_on hop⟩
  | cons a actions ih =>
    intro o' hs hsame
    obtain ⟨u, hu, hrun⟩ := Machine.run_cons_eq_some.1 hs
    rcases h.closer hop hu with ⟨p, hp⟩ | ⟨hop', hflushes, hlt⟩
    · -- the flush has returned, and stays so
      have hlen := (run_flushes hrun).length_le
      rw [hp, hsame, List.length_append, List.length_singleton] at hlen
      omega
    · have hclean : o.DrainsClean a := by
        unfold DrainsClean
        split
        · rw [hop]
          exact nofun
        · trivial
      obtain ⟨hlen, hgo⟩ := ih (h.step hclean hu) hop' o' hrun (hsame.trans hflushes.symm)
      exact ⟨by rw [List.length_cons]; omega, hgo⟩

/-- **A write that failed is reported by the next flush**, and a flush returns, in
    the runs where no error is pending when a configuration call flushes. -/
theorem failures_reported {actions : List OutputAction}
    (hclean : Machine.Meets step DrainsClean new actions)
    (hs : Machine.run step new actions = some o) :
    (∀ p ∈ o.flushes, p.1 = true → Failed p.2) ∧ o.Returns := by
  have hsound : o.Sound :=
    Machine.run_invariant_of_meets (fun _ _ _ h hc hs => h.step hc hs) hs hclean new_sound
  exact ⟨hsound.reported, hsound.returns⟩

/-- A configuration call, from the start to a new writer. -/
def installs (scopeMetadata : Bool) : List OutputAction :=
  [.configure, .proceed, .build (.ok (.blocking, scopeMetadata)), .proceed]

/-- A record that is written, with the outcome of the write. -/
def writes (id : RecordId) (error : Option IoError) : List OutputAction :=
  [.write (.record ⟨id, none, 0, .scopeExit .success 0⟩ none), .proceed, .proceed, .receive,
    .work error]

/-- A flush, of the user or of a configuration call, until its reply is read. -/
def drains (first : OutputAction) : List OutputAction :=
  [first, .proceed, .receive, .work none, .proceed, .proceed]

theorem failures_reported_write : ∃ o,
    Machine.run step new
      (installs false ++ writes ⟨0⟩ (some ⟨.other, "disk full"⟩) ++ drains .flush) = some o ∧
    (true, Except.error ⟨.other, "disk full"⟩) ∈ o.flushes ∧
    (∀ p ∈ o.flushes, p.1 = true → Failed p.2) ∧ o.Returns := by
  obtain ⟨o, hrun, hmem⟩ : ∃ o, Machine.run step new
    (installs false ++ writes ⟨0⟩ (some ⟨.other, "disk full"⟩) ++ drains .flush) = some o ∧
    (true, Except.error ⟨.other, "disk full"⟩) ∈ o.flushes := ⟨_, rfl, List.mem_singleton.2 rfl⟩
  exact ⟨o, hrun, hmem, failures_reported (by decide) hrun⟩

/-- **A configuration call hides a failed write**: its own flush takes the error
    that the flush of the user would have reported. -/
theorem drain_hides_failure : ∃ o,
    Machine.run step new
      (installs false ++ writes ⟨0⟩ (some ⟨.other, "disk full"⟩) ++ drains .configure ++
        [.build (.error ⟨.notFound, "no such directory"⟩)] ++ drains .flush) = some o ∧
    ¬ ∀ p ∈ o.flushes, p.1 = true → Failed p.2 := by
  refine ⟨_, rfl, fun h => ?_⟩
  obtain ⟨e, he⟩ := h (true, .ok ()) (List.mem_singleton.2 rfl) rfl
  cases he

end Output

end Eventline
