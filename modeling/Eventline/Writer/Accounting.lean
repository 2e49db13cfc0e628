/-
  The accounts of an `AsyncWriter` whose inner writer may panic.

  When the worker dies, the messages in its queue are dropped with the receiver;
  nothing counts them.

  * `conserved`: the entries written are delivered, counted, in flight or lost.
  * `FailsAfterDeath`: once the worker is dead every write and flush fails.
  * `accounted`: the accounts of a dropped writer balance exactly when no entry
    was in the queue when the worker died.
  * `death_loses_entry`: one entry behind the one that kills the worker.
-/
import Eventline.Writer.Delivery

namespace Eventline

namespace AsyncWriter

variable {w w' : AsyncWriter}

/-- The number of records and scope metadata among messages. -/
def entries (ms : List Msg) : ℕ := ms.countP Msg.isWrite

theorem entries_append (xs ys : List Msg) : entries (xs ++ ys) = entries xs + entries ys :=
  List.countP_append

theorem entries_cons (m : Msg) (ms : List Msg) :
    entries (m :: ms) = (if m.isWrite then 1 else 0) + entries ms := by
  rw [entries, List.countP_cons, Nat.add_comm, entries]

theorem entries_eq_length {ms : List Msg} (h : ∀ m ∈ ms, m.isWrite = true) :
    entries ms = ms.length := List.countP_eq_length.2 h

theorem entries_eq_zero {ms : List Msg} : entries ms = 0 ↔ ∀ m ∈ ms, m.isWrite = false := by
  rw [entries, List.countP_eq_zero]
  simp

/-- The entries of the calls that have been decided, by their fates. -/
theorem entries_sent (sent : List (Msg × Fate)) :
    entries (sent.map Prod.fst) =
      entries ((sent.filter fun p => p.2 = .accepted).map Prod.fst) +
      entries ((sent.filter fun p => p.2 = .dropped).map Prod.fst) +
      entries ((sent.filter fun p => p.2 = .refused).map Prod.fst) := by
  induction sent with
  | nil => rfl
  | cons p sent ih =>
    obtain ⟨m, f⟩ := p
    rw [List.map_cons, entries_cons, ih]
    cases f with
    | accepted => simp [entries_cons]; omega
    | dropped => simp [entries_cons]; omega
    | refused => simp [entries_cons]; omega

/-- **Entries are conserved**: each one is with the inner writer, counted, in
    flight or lost. -/
theorem conserved (h : w.Booked) :
    entries w.submitted = entries (w.inner.map Prod.fst) + w.state.dropped +
      entries w.inFlight + entries w.lost := by
  have hdropped : entries (w.withFate .dropped) = w.state.dropped := by
    rw [h.ledger.dropped]
    refine entries_eq_length fun m hm => ?_
    obtain ⟨p, hp, rfl⟩ := List.mem_map.1 hm
    obtain ⟨hp, hf⟩ := List.mem_filter.1 hp
    exact h.ledger.writes p hp (by simpa using hf)
  have hrefused : entries (w.withFate .refused) = 0 := by
    refine entries_eq_zero.2 fun m hm => ?_
    obtain ⟨p, hp, rfl⟩ := List.mem_map.1 hm
    obtain ⟨hp, hf⟩ := List.mem_filter.1 hp
    exact h.ledger.others p hp (by simpa using hf)
  have hsent : entries (w.sent.map Prod.fst) = entries w.accepted + entries (w.withFate .dropped) +
      entries (w.withFate .refused) := entries_sent w.sent
  have haccepted : entries w.accepted = entries (w.inner.map Prod.fst) + entries w.inHand +
      entries w.queue + entries w.lost := by
    rw [h.ledger.accepted, entries_append, entries_append, entries_append]
  rw [h.ledger.submitted, entries_append, hsent, hdropped, hrefused, haccepted, inFlight, onTheWay,
    entries_append, entries_append]
  omega

/-- Nothing is in flight once the writer is dropped. -/
theorem inFlight_dropped (h : w.Booked) (hd : w.producer = .dropped) : w.inFlight = [] := by
  have hrx := h.joined hd
  have hhand : w.inHand = [] := by
    unfold inHand
    split
    · rename_i m hw
      rw [rx, hw] at hrx
      cases hrx
    · rfl
  rw [inFlight, onTheWay, hhand, h.ledger.ended hrx, hd]
  rfl

/-! ## The worker's death -/

/-- If the worker dies now, no entry is in its queue. -/
def Spared (w : AsyncWriter) (a : WriterAction) : Prop :=
  a = .unwind → ∀ m ∈ w.queue, m.isWrite = false

theorem step_spared {a : WriterAction} (hs : w.step a = some w') :
    entries w'.lost = 0 ↔ entries w.lost = 0 ∧ w.Spared a := by
  rw [(step_keeps hs).2, entries_append, Nat.add_eq_zero_iff, Spared]
  by_cases ha : a = .unwind
  · rw [if_pos ha]
    refine and_congr_right' ?_
    rw [entries_eq_zero]
    exact ⟨fun h _ => h, fun h => h ha⟩
  · rw [if_neg ha]
    simp [ha, entries]

/-- Nothing is lost in a run exactly when the deaths in it spare the queue. -/
theorem run_spared {actions : List WriterAction} (hs : Machine.run step w actions = some w') :
    entries w'.lost = 0 ↔ entries w.lost = 0 ∧ Machine.Meets step Spared w actions := by
  induction actions generalizing w with
  | nil =>
    obtain rfl := Option.some.inj hs
    exact ⟨fun h => ⟨h, trivial⟩, And.left⟩
  | cons a actions ih =>
    obtain ⟨u, hu, hrun⟩ := Machine.run_cons_eq_some.1 hs
    rw [ih hrun, step_spared hu]
    constructor
    · rintro ⟨⟨hl, ha⟩, hm⟩
      refine ⟨hl, ha, fun t ht => ?_⟩
      obtain rfl := Option.some.inj (hu.symm.trans ht)
      exact hm
    · rintro ⟨hl, ha, hm⟩
      exact ⟨⟨hl, ha⟩, hm u hu⟩

/-- A result that is an error. -/
def Failed (r : IoResult) : Prop := ∃ e, r = .error e

/-- The call for the message reports what becomes of it; metadata that the sink
    does not want is none. -/
def reports (w : AsyncWriter) : Msg → Bool
  | .runId _ => false
  | .scope _ => w.scopeMetadata
  | _ => true

/-- Once the worker has died in a panic, every later write or flush returns, and
    it returns an error. -/
structure FailsAfterDeath (w : AsyncWriter) : Prop where
  fails : w.worker = .done true → w.producer = .idle → ∀ actions w',
    Machine.run step w actions = some w' →
    ∃ more, w'.returned = w.returned ++ more ∧
      ∀ p ∈ more, (∀ runId, p.1 ≠ .runId runId) → Failed p.2
  returns : w.worker = .done true → w.producer = .idle → ∀ m, w.reports m = true →
    ∃ actions w' r, (∀ a ∈ actions, a = .proceed) ∧
      Machine.run step w (.call m :: actions) = some w' ∧ w'.producer = .idle ∧
      w'.returned = w.returned ++ [(m, r)] ∧ Failed r

theorem refuse_returned (w : AsyncWriter) (m : Msg) (error : IoError) :
    (w.refuse m error).producer = .idle ∧ ∃ r, (w.refuse m error).returned = w.returned ++ [(m, r)] ∧
      ((∀ runId, m ≠ .runId runId) → Failed r) := by
  unfold refuse
  constructor
  · split_ifs
    · rfl
    · rfl
  · cases m with
    | runId runId =>
      refine ⟨.ok (), ?_, fun hne => absurd rfl (hne runId)⟩
      split_ifs
      · rfl
      · rfl
    | scope | record | flush =>
      refine ⟨.error error, ?_, fun _ => ⟨error, rfl⟩⟩
      split_ifs
      · rfl
      · rfl

/-- A writer that was idle after its worker's death, later. -/
structure Dead (base : List (Msg × IoResult)) (w : AsyncWriter) : Prop where
  worker : w.worker = .done true
  producer : w.producer ≠ .waiting
  returned : ∃ more, w.returned = base ++ more ∧
    ∀ p ∈ more, (∀ runId, p.1 ≠ .runId runId) → Failed p.2

theorem Dead.rx {base : List (Msg × IoResult)} (h : w.Dead base) : w.rx = false := by
  rw [AsyncWriter.rx, h.worker]

theorem Dead.refuse {base : List (Msg × IoResult)} (h : w.Dead base) (m : Msg) (error : IoError) :
    (w.refuse m error).Dead base := by
  obtain ⟨more, hmore, hfail⟩ := h.returned
  obtain ⟨hidle, r, hret, hr⟩ := refuse_returned w m error
  refine ⟨(refuse_frame w m error).worker.trans h.worker, by rw [hidle]; nofun, more ++ [(m, r)],
    by rw [hret, hmore, List.append_assoc], fun p hp => ?_⟩
  rcases List.mem_append.1 hp with hp | hp
  · exact hfail p hp
  · rw [List.mem_singleton.1 hp]
    exact hr

theorem Dead.submit {base : List (Msg × IoResult)} (h : w.Dead base) (m : Msg) :
    (w.submit m).Dead base := by
  have hsub : Dead base { w with submitted := w.submitted ++ [m] } :=
    ⟨h.worker, h.producer, h.returned⟩
  unfold AsyncWriter.submit
  dsimp only
  split_ifs
  · rw [trySend, hsub.rx, if_neg Bool.false_ne_true]
    exact hsub.refuse m _
  · exact ⟨h.worker, nofun, h.returned⟩
  · exact hsub.refuse m _

/-- **A dead writer stays dead**, and what it returns are errors. -/
theorem Dead.step {base : List (Msg × IoResult)} (h : w.Dead base) {a : WriterAction}
    (hs : w.step a = some w') : w'.Dead base := by
  cases a with
  | call m =>
    rw [AsyncWriter.step] at hs
    split_ifs at hs
    obtain rfl := Option.some.inj hs
    unfold AsyncWriter.call
    cases m with
    | scope s =>
      dsimp only
      split_ifs
      · exact h.submit _
      · exact h
    | runId runId => exact h.submit _
    | record r s => exact h.submit _
    | flush => exact h.submit _
  | drop =>
    rw [AsyncWriter.step] at hs
    split_ifs at hs
    obtain rfl := Option.some.inj hs
    exact ⟨h.worker, by rintro ⟨⟩, h.returned⟩
  | proceed =>
    rw [AsyncWriter.step, AsyncWriter.proceed] at hs
    split at hs
    · cases hs
    · cases hs
    · rename_i m hp
      unfold AsyncWriter.send at hs
      rw [h.rx, if_neg Bool.false_ne_true] at hs
      obtain rfl := Option.some.inj hs
      exact h.refuse m _
    · rename_i hp
      exact absurd hp h.producer
    · rw [h.rx, if_neg Bool.false_ne_true] at hs
      obtain rfl := Option.some.inj hs
      exact ⟨h.worker, by rintro ⟨⟩, h.returned⟩
  | receive =>
    have hw := (receive_frame hs).2.2
    rw [h.worker] at hw
    cases hw
  | work r =>
    rcases (work_frame hs).2.2 with ⟨m, hw⟩ | hw
    · rw [h.worker] at hw
      cases hw
    · rw [h.worker] at hw
      cases hw
  | unwind =>
    have hw := (unwind_eq hs).1
    rw [h.worker] at hw
    cases hw

/-- **Every call on a dead writer returns an error.** -/
theorem Booked.failsAfterDeath (h : w.Booked) : w.FailsAfterDeath := by
  constructor
  · intro hw hidle actions w' hs
    have hdead : w.Dead w.returned := by
      refine ⟨hw, by rw [hidle]; nofun, [], (List.append_nil _).symm, ?_⟩
      intro p hp
      cases hp
    exact (Machine.run_invariant (fun _ _ _ hd hs => Dead.step hd hs) hs hdead).returned
  · intro hw hidle m hm
    have htx : w.tx = true := h.open (by rw [hidle]; nofun) (by rw [hidle]; nofun)
    have hrx : w.rx = false := by rw [rx, hw]
    have hne : ∀ runId, m ≠ .runId runId := by
      rintro runId rfl
      cases hm
    have hcall : w.step (.call m) = some (w.submit m) := by
      rw [AsyncWriter.step, if_pos hidle]
      unfold AsyncWriter.call
      cases m with
      | scope s =>
        have hmeta : w.scopeMetadata = true := hm
        dsimp only
        rw [if_pos hmeta]
      | runId runId => rfl
      | record r s => rfl
      | flush => rfl
    obtain ⟨hidle', r, hret, hr⟩ :=
      refuse_returned { w with submitted := w.submitted ++ [m] } m notAvailable
    by_cases hmode : m.isWrite ∧ w.mode = .bestEffort
    · -- a `try_send` fails at once
      have hsubmit : w.submit m =
          AsyncWriter.refuse { w with submitted := w.submitted ++ [m] } m notAvailable := by
        unfold submit
        dsimp only
        rw [if_pos htx, if_pos hmode, trySend]
        exact if_neg (by rw [rx, hw]; exact Bool.false_ne_true)
      refine ⟨[], w.submit m, r, List.forall_mem_nil _, ?_, ?_, ?_, hr hne⟩
      · rw [Machine.run_cons_eq_some]
        exact ⟨_, hcall, rfl⟩
      · rw [hsubmit]
        exact hidle'
      · rw [hsubmit]
        exact hret
    · -- a `send` fails when it goes on
      have hsubmit : w.submit m =
          { w with submitted := w.submitted ++ [m], producer := .sending m } := by
        unfold submit
        dsimp only
        rw [if_pos htx, if_neg hmode]
      obtain ⟨hidle', r, hret, hr⟩ := refuse_returned (w.submit m) m notAvailable
      refine ⟨[.proceed], (w.submit m).refuse m notAvailable, r, by simp, ?_, hidle', ?_, hr hne⟩
      · rw [Machine.run_cons_eq_some]
        refine ⟨_, hcall, ?_⟩
        rw [Machine.run_cons_eq_some]
        refine ⟨_, ?_, rfl⟩
        rw [hsubmit]
        show AsyncWriter.send _ m = _
        unfold AsyncWriter.send
        exact if_neg (by rw [rx, hw]; exact Bool.false_ne_true)
      · rw [hret, hsubmit]

/-- **The accounts of a dropped writer balance exactly when no entry was in the
    queue when the worker died**; later calls fail in any case. -/
theorem accounted {queueCap : ℕ} {mode : WriteMode} {scopeMetadata : Bool}
    {actions : List WriterAction}
    (hs : Machine.run step (spawn queueCap mode scopeMetadata) actions = some w) :
    (w.producer = .dropped →
      (entries w.submitted = entries (w.inner.map Prod.fst) + w.state.dropped ↔
        Machine.Meets step Spared (spawn queueCap mode scopeMetadata) actions)) ∧
      w.FailsAfterDeath := by
  have h := run_booked hs
  refine ⟨fun hd => ?_, h.failsAfterDeath⟩
  have hconserved := conserved h
  rw [inFlight_dropped h hd, show entries [] = 0 from rfl, Nat.add_zero] at hconserved
  have hspared := run_spared hs
  rw [show entries (spawn queueCap mode scopeMetadata).lost = 0 from rfl] at hspared
  simp only [true_and] at hspared
  rw [← hspared]
  omega

/-- The inner writer panics on the second of two records. -/
def diesLast : List WriterAction :=
  [.call (.record ⟨⟨0⟩, none, 0, .scopeExit .success 0⟩ none),
    .call (.record ⟨⟨1⟩, none, 0, .scopeExit .success 0⟩ none), .receive, .work .ok, .receive,
    .work .panic, .unwind, .drop, .proceed]

theorem accounted_diesLast : ∃ w, Machine.run step (spawn 2 .bestEffort false) diesLast = some w ∧
    w.producer = .dropped ∧
    (entries w.submitted = entries (w.inner.map Prod.fst) + w.state.dropped ↔
      Machine.Meets step Spared (spawn 2 .bestEffort false) diesLast) := by
  obtain ⟨w, hw, hd⟩ : ∃ w, Machine.run step (spawn 2 .bestEffort false) diesLast = some w ∧
    w.producer = .dropped := ⟨_, rfl, rfl⟩
  exact ⟨w, hw, hd, (accounted hw).1 hd⟩

/-- The inner writer panics on the first of two records. -/
def diesFirst : List WriterAction :=
  [.call (.record ⟨⟨0⟩, none, 0, .scopeExit .success 0⟩ none),
    .call (.record ⟨⟨1⟩, none, 0, .scopeExit .success 0⟩ none), .receive, .work .panic, .unwind,
    .drop, .proceed]

/-- **An entry in the queue of a dying worker is not accounted for**: two calls
    return `Ok`, one reaches the inner writer, none is counted as dropped. -/
theorem death_loses_entry : ∃ w, Machine.run step (spawn 2 .bestEffort false) diesFirst = some w ∧
    w.producer = .dropped ∧
    entries w.submitted ≠ entries (w.inner.map Prod.fst) + w.state.dropped :=
  ⟨_, rfl, rfl, by decide⟩

end AsyncWriter

end Eventline
