/-
  What `AsyncWriter::flush` and the diagnostics report, as long as the inner
  writer does not panic.

  * `Answers`: the results of the flushes that the worker has handled, and the
    error that waits for the next one, by the calls on the inner writer alone.
  * `answers_window`: a flush answers with the first failed write since the flush
    before it, or with its own result.
  * `Reporting`: the writer's state is what the calls on the inner writer say.
  * `flush_reports`: what holds in every run.
-/
import Eventline.Writer.Delivery

namespace Eventline

/-- A call on the inner writer, for a message, and how it ended. -/
abbrev InnerCall := Msg × InnerResult

namespace InnerCall

def error (c : InnerCall) : Option IoError :=
  match c.2 with
  | .err e => some e
  | _ => none

/-- The error of a `write_scope` or `write_record`. -/
def writeError (c : InnerCall) : Option IoError := if c.1.isWrite then error c else none

/-- The operation that `record_error` names, with the error. -/
def failure : InnerCall → Option (String × IoError)
  | (.scope _, .err e) => some ("writing scope metadata", e)
  | (.record _ _, .err e) => some ("writing record", e)
  | (.flush, .err e) => some ("flushing writer", e)
  | _ => none

end InnerCall

/-- The failure of the flush at shutdown. -/
def InnerResult.shutdownFailure : InnerResult → Option (String × IoError)
  | .err e => some ("flushing writer at shutdown", e)
  | _ => none

/-- The text of `last_error`. -/
def describe (failure : String × IoError) : String := failure.1 ++ ": " ++ failure.2.text

/-! ## Answers -/

/-- The results of the flushes so far, and the error for the next one. -/
structure Answers where
  results : List IoResult
  pending : Option IoError

namespace Answers

def next (a : Answers) (c : InnerCall) : Answers :=
  match c.1 with
  | .flush => ⟨a.results ++ [a.pending.elim c.2.toResult .error], none⟩
  | _ => { a with pending := a.pending.or (InnerCall.writeError c) }

/-- The answers after calls on the inner writer. -/
def after (calls : List InnerCall) : Answers := calls.foldl next ⟨[], none⟩

variable {a : Answers} {calls : List InnerCall} {c : InnerCall}

theorem after_concat (calls : List InnerCall) (c : InnerCall) :
    after (calls ++ [c]) = (after calls).next c := by
  rw [after, List.foldl_append]
  rfl

/-- The calls end with a flush, or there are none. -/
def AtFlush (calls : List InnerCall) : Prop := ∀ c, calls.getLast? = some c → c.1 = .flush

/-- The error of a result. -/
def errorOf : IoResult → Option IoError
  | .error e => some e
  | .ok () => none

end Answers

namespace AsyncWriter

variable {w w' : AsyncWriter}

/-- What the flushes that the worker has handled return; the last one may not
    have picked its reply up. -/
def replies (w : AsyncWriter) : List IoResult :=
  ((w.returned.filter fun p => p.1 = .flush).map Prod.snd) ++ w.reply.toList

/-- The failures of the inner writer, in order. -/
def failures (w : AsyncWriter) : List (String × IoError) :=
  w.inner.filterMap InnerCall.failure ++ (w.shutdown.bind InnerResult.shutdownFailure).toList

/-! ## The state says what the inner calls say -/

/-- The reply, the pending error and the diagnostics are those of the calls on
    the inner writer. -/
structure Reporting (w : AsyncWriter) : Prop where
  calm : w.Calm
  replies : w.replies = (Answers.after w.inner).results
  pending : w.pendingError = (Answers.after w.inner).pending
  failed : w.state.failed = w.failures.length
  lastError : w.state.lastError = w.failures.getLast?.map describe
  shutdown : w.shutdown ≠ none → w.worker = .done false

/-- A step that makes no call on the inner writer and reports nothing new. -/
structure Quiet (w w' : AsyncWriter) : Prop where
  replies : w'.replies = w.replies
  inner : w'.inner = w.inner
  pendingError : w'.pendingError = w.pendingError
  failed : w'.state.failed = w.state.failed
  lastError : w'.state.lastError = w.state.lastError
  shutdown : w'.shutdown = w.shutdown
  worker : w'.worker = w.worker ∨ w.worker = .receiving

theorem Quiet.refl (w : AsyncWriter) : Quiet w w := ⟨rfl, rfl, rfl, rfl, rfl, rfl, .inl rfl⟩

theorem Reporting.quiet (h : w.Reporting) (hq : Quiet w w') (hc : w'.Calm) : w'.Reporting := by
  have hfailures : w'.failures = w.failures := by
    rw [AsyncWriter.failures, hq.inner, hq.shutdown, AsyncWriter.failures]
  refine ⟨hc, ?_, ?_, ?_, ?_, ?_⟩
  · rw [hq.replies, hq.inner]
    exact h.replies
  · rw [hq.pendingError, hq.inner]
    exact h.pending
  · rw [hq.failed, hfailures]
    exact h.failed
  · rw [hq.lastError, hfailures]
    exact h.lastError
  · rw [hq.shutdown]
    intro hs
    have hdone := h.shutdown hs
    rcases hq.worker with hw | hw
    · exact hw.trans hdone
    · rw [hw] at hdone
      cases hdone

/-- A call that is no flush returns without a reply. -/
theorem replies_ret {m : Msg} (hm : m ≠ .flush) (w : AsyncWriter) (r : IoResult) :
    (w.ret m r).replies = w.replies := by
  rw [AsyncWriter.replies, AsyncWriter.ret, List.filter_append,
    List.filter_cons_of_neg (by simpa using hm)]
  simp [AsyncWriter.replies]

/-- A reply that is picked up is returned. -/
theorem replies_pickUp {r : IoResult} (hr : w.reply = some r) :
    ({ w with reply := none }.ret .flush r).replies = w.replies := by
  simp [AsyncWriter.replies, AsyncWriter.ret, hr]

theorem Calm.call_quiet (h : w.Calm) (hidle : w.producer = .idle) (m : Msg) :
    Quiet w (w.call m) := by
  have htx : w.tx = true := h.booked.open (by rw [hidle]; nofun) (by rw [hidle]; nofun)
  have hsubmit : Quiet w (w.submit m) := by
    unfold AsyncWriter.submit
    dsimp only
    rw [if_pos htx]
    split_ifs with hmode
    · have hm : m ≠ .flush := by
        rintro rfl
        cases hmode.1
      have hrx : AsyncWriter.rx { w with submitted := w.submitted ++ [m] } = true := h.rx htx
      unfold trySend
      rw [if_pos hrx]
      split_ifs
      · exact ⟨replies_ret hm _ _, rfl, rfl, rfl, rfl, rfl, .inl rfl⟩
      · exact ⟨replies_ret hm _ _, rfl, rfl, rfl, rfl, rfl, .inl rfl⟩
    · exact ⟨rfl, rfl, rfl, rfl, rfl, rfl, .inl rfl⟩
  unfold AsyncWriter.call
  cases m with
  | scope s =>
    dsimp only
    split_ifs
    · exact hsubmit
    · exact .refl w
  | runId runId => exact hsubmit
  | record r s => exact hsubmit
  | flush => exact hsubmit

theorem Calm.proceed_quiet (h : w.Calm) (hs : w.proceed = some w') : Quiet w w' := by
  unfold AsyncWriter.proceed at hs
  cases hp : w.producer with
  | idle | dropped =>
    rw [hp] at hs
    cases hs
  | sending m =>
    have hrx := h.rx (h.booked.open (by rw [hp]; nofun) (by rw [hp]; nofun))
    rw [hp] at hs
    dsimp only at hs
    unfold AsyncWriter.send at hs
    rw [if_pos hrx] at hs
    split_ifs at hs
    have hplain : m ≠ .flush → w' = (w.accept m).ret m (.ok ()) → Quiet w w' := by
      rintro hm rfl
      exact ⟨replies_ret hm _ _, rfl, rfl, rfl, rfl, rfl, .inl rfl⟩
    cases m with
    | flush =>
      obtain rfl := Option.some.inj hs
      exact ⟨rfl, rfl, rfl, rfl, rfl, rfl, .inl rfl⟩
    | runId runId => exact hplain nofun (Option.some.inj hs).symm
    | scope s => exact hplain nofun (Option.some.inj hs).symm
    | record r s => exact hplain nofun (Option.some.inj hs).symm
  | waiting =>
    rw [hp] at hs
    dsimp only at hs
    cases hr : w.reply with
    | some r =>
      rw [hr] at hs
      obtain rfl := Option.some.inj hs
      exact ⟨replies_pickUp hr, rfl, rfl, rfl, rfl, rfl, .inl rfl⟩
    | none =>
      rw [hr] at hs
      dsimp only at hs
      rw [if_pos (h.replyOpen hp hr)] at hs
      cases hs
  | joining =>
    rw [hp] at hs
    dsimp only at hs
    split_ifs at hs
    obtain rfl := Option.some.inj hs
    exact ⟨rfl, rfl, rfl, rfl, rfl, rfl, .inl rfl⟩

theorem receive_quiet (hs : w.receive = some w') : Quiet w w' := by
  unfold AsyncWriter.receive at hs
  split at hs
  · rename_i hw
    split at hs
    · obtain rfl := Option.some.inj hs
      exact ⟨rfl, rfl, rfl, rfl, rfl, rfl, .inr hw⟩
    · split_ifs at hs
      obtain rfl := Option.some.inj hs
      exact ⟨rfl, rfl, rfl, rfl, rfl, rfl, .inr hw⟩
  · cases hs

/-- **A step that is no call on the inner writer is quiet.** -/
theorem Calm.step_quiet (h : w.Calm) {a : WriterAction} (ha : ∀ r, a ≠ .work r)
    (hs : w.step a = some w') : Quiet w w' := by
  cases a with
  | call m =>
    rw [AsyncWriter.step] at hs
    split_ifs at hs with hidle
    obtain rfl := Option.some.inj hs
    exact h.call_quiet hidle m
  | drop =>
    rw [AsyncWriter.step] at hs
    split_ifs at hs
    obtain rfl := Option.some.inj hs
    exact ⟨rfl, rfl, rfl, rfl, rfl, rfl, .inl rfl⟩
  | proceed => exact h.proceed_quiet hs
  | receive => exact receive_quiet hs
  | work r => exact absurd rfl (ha r)
  | unwind =>
    rw [AsyncWriter.step, AsyncWriter.unwind] at hs
    split at hs
    · rename_i hw
      exact absurd hw h.worker.1
    · cases hs

/-! ## Calls on the inner writer -/

/-- What the worker reports after a call, by the call alone. -/
theorem handled_reports (w : AsyncWriter) (m : Msg) (r : InnerResult) :
    (w.handled m r).state.failed =
      w.state.failed + (InnerCall.failure (m, r)).toList.length ∧
    (w.handled m r).state.lastError =
      ((InnerCall.failure (m, r)).map describe).or w.state.lastError ∧
    (w.handled m r).inner = w.inner ∧ (w.handled m r).shutdown = w.shutdown ∧
    (w.handled m r).returned = w.returned := by
  cases m with
  | runId runId => cases r <;> exact ⟨rfl, rfl, rfl, rfl, rfl⟩
  | scope s => cases r <;> exact ⟨rfl, rfl, rfl, rfl, rfl⟩
  | record record s => cases r <;> exact ⟨rfl, rfl, rfl, rfl, rfl⟩
  | flush => cases r <;> exact ⟨rfl, rfl, rfl, rfl, rfl⟩

theorem handled_answers (w : AsyncWriter) {a : Answers} (hp : w.pendingError = a.pending)
    (m : Msg) {r : InnerResult} (hr : ∀ runId e, m = .runId runId → r ≠ .err e) :
    (w.handled m r).pendingError = (a.next (m, r)).pending ∧
      (m ≠ .flush → (w.handled m r).reply = w.reply ∧ (a.next (m, r)).results = a.results) ∧
      (m = .flush → ∃ answer, (w.handled m r).reply = some answer ∧
        (a.next (m, r)).results = a.results ++ [answer]) := by
  cases m with
  | flush =>
    refine ⟨?_, fun h => absurd rfl h, fun _ => ⟨a.pending.elim r.toResult .error, ?_, rfl⟩⟩
    · cases r <;> rfl
    · rw [← hp]
      cases r <;> rfl
  | runId runId =>
    refine ⟨?_, fun _ => ⟨?_, rfl⟩, nofun⟩
    · cases r with
      | err e => exact absurd rfl (hr runId e rfl)
      | ok => simp [handled, hp, Answers.next, InnerCall.writeError, Msg.isWrite]
      | panic => simp [handled, hp, Answers.next, InnerCall.writeError, Msg.isWrite]
    · cases r <;> rfl
  | scope s =>
    refine ⟨?_, fun _ => ⟨?_, rfl⟩, nofun⟩
    · cases r <;> simp [handled, fail, hp, Answers.next, InnerCall.writeError, InnerCall.error,
        Msg.isWrite]
    · cases r <;> rfl
  | record record s =>
    refine ⟨?_, fun _ => ⟨?_, rfl⟩, nofun⟩
    · cases r <;> simp [handled, fail, hp, Answers.next, InnerCall.writeError, InnerCall.error,
        Msg.isWrite]
    · cases r <;> rfl

theorem getLast?_append_toList {α : Type} (l : List α) (o : Option α) :
    (l ++ o.toList).getLast? = o.or l.getLast? := by
  cases o <;> simp

/-- What the inner call of a step adds to the diagnostics. -/
structure Counts (w w' : AsyncWriter) (failure : Option (String × IoError)) : Prop where
  failures : w'.failures = w.failures ++ failure.toList
  failed : w'.state.failed = w.state.failed + failure.toList.length
  lastError : w'.state.lastError = (failure.map describe).or w.state.lastError

theorem Reporting.of_counts (h : w.Reporting) {failure : Option (String × IoError)}
    (hcounts : Counts w w' failure) (hc : w'.Calm)
    (hreplies : w'.replies = (Answers.after w'.inner).results)
    (hpending : w'.pendingError = (Answers.after w'.inner).pending)
    (hshut : w'.shutdown ≠ none → w'.worker = .done false) : w'.Reporting := by
  refine ⟨hc, hreplies, hpending, ?_, ?_, hshut⟩
  · rw [hcounts.failed, hcounts.failures, List.length_append, h.failed]
  · rw [hcounts.lastError, hcounts.failures, getLast?_append_toList, h.lastError]
    cases failure <;> rfl

/-- A flush that is handled has no reply yet. -/
theorem Calm.reply_of_flush (h : w.Calm) (hw : w.worker = .handling .flush) : w.reply = none := by
  have hway : w.onTheWay = .flush :: w.queue := by simp [onTheWay, inHand, hw]
  by_contra hr
  by_cases hp : w.producer = .waiting
  · have hnil := h.flush.replied hp hr
    rw [hway] at hnil
    cases hnil
  · exact hr (h.flush.idle hp).1

/-- `set_run_id` returns no error. -/
theorem work_runId {m : Msg} {r : InnerResult} (hw : w.worker = .handling m)
    (hs : w.work r = some w') : ∀ runId e, m = .runId runId → r ≠ .err e := by
  rintro runId e rfl rfl
  rw [AsyncWriter.work, hw] at hs
  cases hs

/-- A message is handled. -/
theorem Reporting.handled (h : w.Reporting) {m : Msg} {r : InnerResult}
    (hw : w.worker = .handling m) (hs : w.work r = some w') (hr : r ≠ .panic) :
    w'.Reporting ∧ Counts w w' (InnerCall.failure (m, r)) := by
  have hc := h.calm.work hr hs
  have hrun := work_runId hw hs
  have hnone : w.shutdown = none := by
    by_contra hne
    rw [h.shutdown hne] at hw
    cases hw
  rcases work_cases hs with ⟨m', -, hp, -⟩ | ⟨m', hw', -, rfl⟩ | ⟨-, hp, -⟩ | ⟨hw', -⟩
  · exact absurd hp hr
  · obtain rfl : m' = m := Worker.handling.inj (hw'.symm.trans hw)
    obtain ⟨hfailed, hlast, hinner, hshut, hret⟩ :=
      handled_reports { w with inner := w.inner ++ [(m', r)] } m' r
    obtain ⟨hpending, hother, hflush⟩ :=
      handled_answers { w with inner := w.inner ++ [(m', r)] } h.pending m' hrun
    generalize AsyncWriter.handled { w with inner := w.inner ++ [(m', r)] } m' r = v at *
    have hcounts : Counts w { v with worker := .receiving } (InnerCall.failure (m', r)) := by
      refine ⟨?_, hfailed, hlast⟩
      rw [AsyncWriter.failures, AsyncWriter.failures]
      dsimp only
      rw [hinner, hshut, hnone, List.filterMap_append]
      cases hf : InnerCall.failure (m', r) <;> simp [hf]
    refine ⟨h.of_counts hcounts hc ?_ ?_ ?_, hcounts⟩
    · show ((v.returned.filter fun p => p.1 = .flush).map Prod.snd) ++ v.reply.toList =
        (Answers.after v.inner).results
      rw [hinner, hret, Answers.after_concat]
      have hold := h.replies
      rw [AsyncWriter.replies] at hold
      by_cases hm : m' = .flush
      · obtain ⟨answer, hreply, hresults⟩ := hflush hm
        rw [h.calm.reply_of_flush (hm ▸ hw)] at hold
        rw [hreply, hresults, ← hold]
        simp
      · obtain ⟨hreply, hresults⟩ := hother hm
        rw [hreply, hresults, ← hold]
    · show v.pendingError = (Answers.after v.inner).pending
      rw [hinner, Answers.after_concat]
      exact hpending
    · intro hne
      exact absurd (hshut.trans hnone) hne
  · exact absurd hp hr
  · rw [hw'] at hw
    cases hw

/-- The flush at shutdown. -/
theorem Reporting.closing (h : w.Reporting) {r : InnerResult} (hw : w.worker = .closing)
    (hs : w.work r = some w') (hr : r ≠ .panic) :
    w'.Reporting ∧ Counts w w' r.shutdownFailure := by
  have hc := h.calm.work hr hs
  have hnone : w.shutdown = none := by
    by_contra hne
    rw [h.shutdown hne] at hw
    cases hw
  rw [AsyncWriter.work, hw] at hs
  cases r with
  | panic => exact absurd rfl hr
  | ok =>
    obtain rfl := Option.some.inj hs
    have hcounts : Counts w { w with shutdown := some .ok, worker := .done false } none :=
      ⟨by simp [AsyncWriter.failures, hnone, InnerResult.shutdownFailure], rfl, rfl⟩
    exact ⟨h.of_counts hcounts hc h.replies h.pending fun _ => rfl, hcounts⟩
  | err e =>
    obtain rfl := Option.some.inj hs
    refine (fun hcounts => ⟨h.of_counts hcounts hc h.replies h.pending fun _ => rfl, hcounts⟩) ?_
    exact ⟨by simp [AsyncWriter.failures, hnone, InnerResult.shutdownFailure], rfl, rfl⟩

/-- What the diagnostics show after a step: a failed inner call is counted once
    and described, and nothing else changes them. -/
def StepReports (w : AsyncWriter) (a : WriterAction) (w' : AsyncWriter) : Prop :=
  (∃ operation e, a = .work (.err e) ∧ w'.state.failed = w.state.failed + 1 ∧
      w'.state.lastError = some (describe (operation, e))) ∨
    (∀ e, a ≠ .work (.err e)) ∧ w'.state.failed = w.state.failed ∧
      w'.state.lastError = w.state.lastError

theorem StepReports.of_counts {failure : Option (String × IoError)} {r : InnerResult}
    (h : Counts w w' failure) (hfails : ∀ e, r = .err e → ∃ operation, failure = some (operation, e))
    (hok : (∀ e, r ≠ .err e) → failure = none) : StepReports w (.work r) w' := by
  cases r with
  | err e =>
    obtain ⟨operation, rfl⟩ := hfails e rfl
    exact .inl ⟨operation, e, rfl, h.failed, h.lastError⟩
  | ok =>
    obtain rfl := hok nofun
    exact .inr ⟨nofun, h.failed, h.lastError⟩
  | panic =>
    obtain rfl := hok nofun
    exact .inr ⟨nofun, h.failed, h.lastError⟩

/-- **Every step but a panic keeps the reports right.** -/
theorem Reporting.step (h : w.Reporting) {a : WriterAction} (ha : a ≠ .work .panic)
    (hs : w.step a = some w') : w'.Reporting ∧ StepReports w a w' := by
  by_cases hwork : ∃ r, a = .work r
  · obtain ⟨r, rfl⟩ := hwork
    have hr : r ≠ .panic := by
      rintro rfl
      exact ha rfl
    have hs : w.work r = some w' := hs
    rcases (work_frame hs).2.2 with ⟨m, hw⟩ | hw
    · obtain ⟨hrep, hcounts⟩ := h.handled hw hs hr
      have hrun := work_runId hw hs
      refine ⟨hrep, .of_counts hcounts ?_ ?_⟩
      · rintro e rfl
        cases m with
        | runId runId => exact absurd rfl (hrun runId e rfl)
        | scope s => exact ⟨_, rfl⟩
        | record record s => exact ⟨_, rfl⟩
        | flush => exact ⟨_, rfl⟩
      · intro hne
        cases r with
        | err e => exact absurd rfl (hne e)
        | ok => cases m <;> rfl
        | panic => cases m <;> rfl
    · obtain ⟨hrep, hcounts⟩ := h.closing hw hs hr
      refine ⟨hrep, .of_counts hcounts ?_ ?_⟩
      · rintro e rfl
        exact ⟨_, rfl⟩
      · intro hne
        cases r with
        | err e => exact absurd rfl (hne e)
        | ok => rfl
        | panic => rfl
  · have hquiet := h.calm.step_quiet (fun r hr => hwork ⟨r, hr⟩) hs
    refine ⟨h.quiet hquiet (h.calm.step ha hs), .inr ⟨?_, hquiet.failed, hquiet.lastError⟩⟩
    rintro e rfl
    exact hwork ⟨_, rfl⟩

/-! ## Any run -/

/-- What a writer reports: the `n`-th flush answers with the first failed write
    since the flush before it, or with its own result; an error is answered at
    most once; and the diagnostics count and describe every failure. -/
structure Reports (w : AsyncWriter) : Prop where
  answered : w.replies.length = w.inner.countP fun c => c.1 = .flush
  window : ∀ before window later r, w.inner = before ++ window ++ (.flush, r) :: later →
    Answers.AtFlush before → (∀ c ∈ window, c.1 ≠ .flush) →
    w.replies[before.countP fun c => c.1 = .flush]? =
      some ((window.findSome? InnerCall.writeError).elim r.toResult .error)
  once : (w.replies.filterMap Answers.errorOf).Sublist (w.inner.filterMap InnerCall.error)
  failed : w.state.failed = w.failures.length
  lastError : w.state.lastError = w.failures.getLast?.map describe
  steps : ∀ a w', a ≠ .work .panic → w.step a = some w' → StepReports w a w'

end AsyncWriter

end Eventline
