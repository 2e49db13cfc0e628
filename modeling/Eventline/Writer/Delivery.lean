/-
  What an `AsyncWriter` delivers to its inner writer.

  * `Ledger`: every message that was accepted is with the inner writer, in the
    worker's hand, in the queue or lost with it, in the order of the calls; the
    rest is counted.
  * `Calm`: the invariant of the runs without a panic of the inner writer.
  * `delivered`: what such a run has delivered.
-/
import Eventline.Writer.Async

namespace Eventline

/-- The message that waits for a place in the queue. -/
def Producer.pending : Producer → List Msg
  | sending m => [m]
  | _ => []

namespace AsyncWriter

/-- The message that the worker has taken out of the queue. -/
def inHand (w : AsyncWriter) : List Msg :=
  match w.worker with
  | .handling m => [m]
  | _ => []

/-- The messages with a fate. -/
def withFate (w : AsyncWriter) (f : Fate) : List Msg :=
  (w.sent.filter fun p => p.2 = f).map Prod.fst

/-- The messages that the queue has taken. -/
def accepted (w : AsyncWriter) : List Msg := w.withFate .accepted

/-- The messages that are counted in `dropped_records`. -/
def droppedMsgs (w : AsyncWriter) : List Msg := w.withFate .dropped

/-- The books of a writer; the calls `pending` have not been decided. -/
structure Ledger (w : AsyncWriter) (pending : List Msg) : Prop where
  submitted : w.submitted = w.sent.map Prod.fst ++ pending
  accepted : w.accepted = w.inner.map Prod.fst ++ w.inHand ++ w.queue ++ w.lost
  dropped : w.state.dropped = w.droppedMsgs.length
  writes : ∀ p ∈ w.sent, p.2 = .dropped → p.1.isWrite = true
  others : ∀ p ∈ w.sent, p.2 = .refused → p.1.isWrite = false
  ended : w.rx = false → w.queue = []
  running : w.worker ≠ .done true → w.lost = []
  closing : w.worker = .closing → w.queue = [] ∧ w.tx = false

theorem spawn_ledger (queueCap : ℕ) (mode : WriteMode) (scopeMetadata : Bool) :
    (spawn queueCap mode scopeMetadata).Ledger [] where
  submitted := rfl
  accepted := rfl
  dropped := rfl
  writes _ h := by cases h
  others _ h := by cases h
  ended h := by cases h
  running _ := rfl
  closing h := by cases h

variable {w w' : AsyncWriter} {pending : List Msg} {m : Msg}

/-- Nothing is lost while the receiver is there. -/
theorem Ledger.lost_of_rx (h : w.Ledger pending) (hrx : w.rx = true) : w.lost = [] := by
  refine h.running fun hw => ?_
  rw [rx, hw] at hrx
  cases hrx

/-- The books do not show the producer, the reply and the errors. -/
theorem Ledger.congr (h : w.Ledger pending) (hsub : w'.submitted = w.submitted)
    (hsent : w'.sent = w.sent) (hinner : w'.inner = w.inner) (hworker : w'.worker = w.worker)
    (hqueue : w'.queue = w.queue) (hlost : w'.lost = w.lost)
    (hdropped : w'.state.dropped = w.state.dropped) (htx : w'.tx = true → w.tx = true) :
    w'.Ledger pending := by
  have hhand : w'.inHand = w.inHand := by rw [inHand, hworker, inHand]
  have hacc : w'.accepted = w.accepted := by
    rw [AsyncWriter.accepted, withFate, hsent, AsyncWriter.accepted, withFate]
  have hdr : w'.droppedMsgs = w.droppedMsgs := by
    rw [droppedMsgs, withFate, hsent, droppedMsgs, withFate]
  refine ⟨?_, ?_, ?_, ?_, ?_, ?_, ?_, ?_⟩
  · rw [hsub, hsent]
    exact h.submitted
  · rw [hacc, hinner, hhand, hqueue, hlost]
    exact h.accepted
  · rw [hdropped, hdr]
    exact h.dropped
  · rw [hsent]
    exact h.writes
  · rw [hsent]
    exact h.others
  · rw [rx, hworker, hqueue]
    exact h.ended
  · rw [hworker, hlost]
    exact h.running
  · rw [hworker, hqueue]
    intro hc
    obtain ⟨hq, ht⟩ := h.closing hc
    refine ⟨hq, ?_⟩
    cases htx' : w'.tx with
    | false => rfl
    | true => rw [htx htx'] at ht; cases ht

/-- A call begins. -/
theorem Ledger.submit (h : w.Ledger []) (m : Msg) :
    Ledger { w with submitted := w.submitted ++ [m] } [m] where
  submitted := by
    show w.submitted ++ [m] = _
    rw [h.submitted, List.append_nil]
  accepted := h.accepted
  dropped := h.dropped
  writes := h.writes
  others := h.others
  ended := h.ended
  running := h.running
  closing := h.closing

theorem withFate_concat {f g : Fate} (hsent : w'.sent = w.sent ++ [(m, f)]) :
    w'.withFate g = w.withFate g ++ if f = g then [m] else [] := by
  rw [withFate, hsent, List.filter_append, List.map_append, withFate]
  by_cases hfg : f = g
  · rw [if_pos hfg, List.filter_cons_of_pos (by simpa using hfg)]
    rfl
  · rw [if_neg hfg, List.filter_cons_of_neg (by simpa using hfg)]
    rfl

/-- **The pending call is decided**: the queue takes its message, behind the
    others, or it is counted, or turned down. -/
theorem Ledger.decided (h : w.Ledger [m]) {f : Fate} (hsub : w'.submitted = w.submitted)
    (hsent : w'.sent = w.sent ++ [(m, f)]) (hinner : w'.inner = w.inner)
    (hworker : w'.worker = w.worker) (hlost : w'.lost = w.lost) (htx : w'.tx = w.tx)
    (hqueue : w'.queue = w.queue ++ if f = .accepted then [m] else [])
    (hdropped : w'.state.dropped = w.state.dropped + if f = .dropped then 1 else 0)
    (hacc : f = .accepted → w.rx = true ∧ w.tx = true)
    (hdr : f = .dropped → m.isWrite = true) (href : f = .refused → m.isWrite = false) :
    w'.Ledger [] := by
  have hmem : ∀ p ∈ w'.sent, p ∈ w.sent ∨ p = (m, f) := by
    intro p hp
    rw [hsent, List.mem_append, List.mem_singleton] at hp
    exact hp
  refine ⟨?_, ?_, ?_, ?_, ?_, ?_, ?_, ?_⟩
  · rw [hsub, h.submitted, hsent, List.map_append, List.append_nil]
    rfl
  · have hhand : w'.inHand = w.inHand := by rw [inHand, hworker, inHand]
    have hold := h.accepted
    rw [AsyncWriter.accepted] at hold ⊢
    rw [withFate_concat hsent, hold, hinner, hhand, hqueue, hlost]
    by_cases hf : f = .accepted
    · simp [hf, h.lost_of_rx (hacc hf).1]
    · simp [hf]
  · rw [hdropped, h.dropped, droppedMsgs, droppedMsgs, withFate_concat hsent, List.length_append]
    split_ifs <;> rfl
  · intro p hp hd
    rcases hmem p hp with hp | rfl
    · exact h.writes p hp hd
    · exact hdr hd
  · intro p hp hr
    rcases hmem p hp with hp | rfl
    · exact h.others p hp hr
    · exact href hr
  · intro hrx
    have hrx' : w.rx = false := by rwa [rx, hworker] at hrx
    have hf : f ≠ .accepted := by
      intro hf
      rw [(hacc hf).1] at hrx'
      cases hrx'
    rw [hqueue, h.ended hrx', if_neg hf]
    rfl
  · rw [hworker, hlost]
    exact h.running
  · intro hc
    rw [hworker] at hc
    obtain ⟨hq, ht⟩ := h.closing hc
    have hf : f ≠ .accepted := by
      intro hf
      rw [(hacc hf).2] at ht
      cases ht
    rw [hqueue, hq, if_neg hf, htx]
    exact ⟨rfl, ht⟩

theorem Ledger.accept (h : w.Ledger [m]) (hrx : w.rx = true) (hopen : w.tx = true) :
    (w.accept m).Ledger [] := by
  refine h.decided (f := .accepted) rfl rfl rfl rfl rfl rfl rfl rfl ?_ ?_ ?_
  · exact fun _ => ⟨hrx, hopen⟩
  · exact nofun
  · exact nofun

theorem Ledger.dropRecord (h : w.Ledger [m]) (hm : m.isWrite = true) :
    (w.dropRecord m).Ledger [] := by
  refine h.decided (f := .dropped) rfl rfl rfl rfl rfl rfl ?_ rfl ?_ ?_ ?_
  · exact (List.append_nil _).symm
  · exact nofun
  · exact fun _ => hm
  · exact nofun

theorem Ledger.refuse (h : w.Ledger [m]) (error : IoError) : (w.refuse m error).Ledger [] := by
  unfold AsyncWriter.refuse
  by_cases hm : m.isWrite = true
  · rw [if_pos hm]
    exact (h.dropRecord hm).congr rfl rfl rfl rfl rfl rfl rfl id
  · rw [if_neg hm]
    refine h.decided (f := .refused) rfl rfl rfl rfl rfl rfl ?_ rfl ?_ ?_ ?_
    · exact (List.append_nil _).symm
    · exact nofun
    · exact nofun
    · exact fun _ => by simpa using hm

/-! ## The steps -/

/-- The books of a writer, and what is open. -/
structure Booked (w : AsyncWriter) : Prop where
  ledger : w.Ledger w.producer.pending
  sender : w.tx = true ∨ w.producer = .joining ∨ w.producer = .dropped
  joined : w.producer = .dropped → w.rx = false

theorem spawn_booked (queueCap : ℕ) (mode : WriteMode) (scopeMetadata : Bool) :
    (spawn queueCap mode scopeMetadata).Booked where
  ledger := spawn_ledger queueCap mode scopeMetadata
  sender := .inl rfl
  joined h := by cases h

theorem Booked.ledgerOf (h : w.Booked) {p : Producer} (hp : w.producer = p) :
    w.Ledger p.pending := hp ▸ h.ledger

/-- The sender is there until the writer is dropped. -/
theorem Booked.open (h : w.Booked) (hj : w.producer ≠ .joining) (hd : w.producer ≠ .dropped) :
    w.tx = true := by
  rcases h.sender with htx | hp | hp
  · exact htx
  · exact absurd hp hj
  · exact absurd hp hd

/-- The call under way returns. -/
theorem Ledger.ret (h : w.Ledger []) (htx : w.tx = true) (m : Msg) (r : IoResult) :
    (w.ret m r).Booked where
  ledger := h.congr rfl rfl rfl rfl rfl rfl rfl id
  sender := .inl htx
  joined hd := by cases hd

theorem refuse_booked (h : w.Ledger [m]) (htx : w.tx = true) (error : IoError) :
    (w.refuse m error).Booked := by
  have hledger := h.refuse error
  have hsame : (w.refuse m error).tx = w.tx ∧ (w.refuse m error).producer = .idle := by
    unfold AsyncWriter.refuse
    split_ifs
    · exact ⟨rfl, rfl⟩
    · exact ⟨rfl, rfl⟩
  refine ⟨?_, .inl (hsame.1.trans htx), ?_⟩
  · rw [hsame.2]
    exact hledger
  · rw [hsame.2]
    exact nofun

/-- Any call on an idle writer. -/
theorem Booked.call (h : w.Booked) (hidle : w.producer = .idle) (m : Msg) : (w.call m).Booked := by
  have htx : w.tx = true := h.open (by rw [hidle]; nofun) (by rw [hidle]; nofun)
  have hledger : w.Ledger [] := h.ledgerOf hidle
  have hsub := hledger.submit m
  have hsubmit : (w.submit m).Booked := by
    unfold AsyncWriter.submit
    dsimp only
    rw [if_pos htx]
    split_ifs with hmode
    · unfold trySend
      split_ifs with hrx hroom
      · exact (hsub.accept hrx htx).ret htx m (.ok ())
      · exact (hsub.dropRecord hmode.1).ret htx m (.ok ())
      · exact refuse_booked hsub htx notAvailable
    · exact ⟨hsub.congr rfl rfl rfl rfl rfl rfl rfl id, .inl htx, nofun⟩
  unfold AsyncWriter.call
  cases m with
  | scope s =>
    dsimp only
    split_ifs
    · exact hsubmit
    · exact h
  | runId runId => exact hsubmit
  | record r s => exact hsubmit
  | flush => exact hsubmit

/-- A send goes on. -/
theorem Booked.send (h : w.Booked) (hp : w.producer = .sending m) (hs : w.send m = some w') :
    w'.Booked := by
  have htx : w.tx = true := h.open (by rw [hp]; nofun) (by rw [hp]; nofun)
  have hledger : w.Ledger [m] := h.ledgerOf hp
  unfold AsyncWriter.send at hs
  split_ifs at hs with hrx hroom
  · have haccept := hledger.accept hrx htx
    cases m with
    | flush =>
      obtain rfl := Option.some.inj hs
      exact ⟨haccept.congr rfl rfl rfl rfl rfl rfl rfl id, .inl htx, nofun⟩
    | runId runId =>
      obtain rfl := Option.some.inj hs
      exact haccept.ret htx _ _
    | scope s =>
      obtain rfl := Option.some.inj hs
      exact haccept.ret htx _ _
    | record r s =>
      obtain rfl := Option.some.inj hs
      exact haccept.ret htx _ _
  · obtain rfl := Option.some.inj hs
    exact refuse_booked hledger htx notAvailable

theorem Booked.proceed (h : w.Booked) (hs : w.proceed = some w') : w'.Booked := by
  unfold AsyncWriter.proceed at hs
  cases hp : w.producer with
  | idle | dropped =>
    rw [hp] at hs
    cases hs
  | sending m =>
    rw [hp] at hs
    exact h.send hp hs
  | waiting =>
    have htx : w.tx = true := h.open (by rw [hp]; nofun) (by rw [hp]; nofun)
    have hledger : w.Ledger [] := h.ledgerOf hp
    rw [hp] at hs
    dsimp only at hs
    cases hr : w.reply with
    | some r =>
      rw [hr] at hs
      obtain rfl := Option.some.inj hs
      have hread : Ledger { w with reply := none } [] :=
        hledger.congr rfl rfl rfl rfl rfl rfl rfl id
      exact hread.ret htx _ _
    | none =>
      rw [hr] at hs
      dsimp only at hs
      split_ifs at hs
      obtain rfl := Option.some.inj hs
      have hfailed : (w.unavailable notAcknowledged).Ledger [] :=
        hledger.congr rfl rfl rfl rfl rfl rfl rfl id
      exact hfailed.ret htx _ _
  | joining =>
    have hledger : w.Ledger [] := h.ledgerOf hp
    rw [hp] at hs
    dsimp only at hs
    split_ifs at hs with hrx
    obtain rfl := Option.some.inj hs
    refine ⟨hledger.congr rfl rfl rfl rfl rfl rfl rfl id, .inr (.inr rfl), fun _ => ?_⟩
    show w.rx = false
    simpa using hrx

/-- The worker moves a message on; `moved` says from where to where. -/
theorem Ledger.moved (h : w.Ledger pending) (hsub : w'.submitted = w.submitted)
    (hsent : w'.sent = w.sent) (hdropped : w'.state.dropped = w.state.dropped)
    (hmoved : w'.inner.map Prod.fst ++ w'.inHand ++ w'.queue ++ w'.lost =
      w.inner.map Prod.fst ++ w.inHand ++ w.queue ++ w.lost)
    (hended : w'.rx = false → w'.queue = []) (hrunning : w'.worker ≠ .done true → w'.lost = [])
    (hclosing : w'.worker = .closing → w'.queue = [] ∧ w'.tx = false) : w'.Ledger pending := by
  refine ⟨?_, ?_, ?_, ?_, ?_, hended, hrunning, hclosing⟩
  · rw [hsub, hsent]
    exact h.submitted
  · rw [hmoved, ← h.accepted, AsyncWriter.accepted, withFate, hsent, AsyncWriter.accepted, withFate]
  · rw [hdropped, h.dropped, droppedMsgs, withFate, droppedMsgs, withFate, hsent]
  · rw [hsent]
    exact h.writes
  · rw [hsent]
    exact h.others

theorem Booked.receive (h : w.Booked) (hs : w.receive = some w') : w'.Booked := by
  unfold AsyncWriter.receive at hs
  split at hs
  · rename_i hw
    have hrx : w.rx = true := by rw [rx, hw]
    split at hs
    · rename_i m queue hq
      obtain rfl := Option.some.inj hs
      refine ⟨h.ledger.moved rfl rfl rfl ?_ nofun (fun _ => h.ledger.lost_of_rx hrx) nofun, h.sender, ?_⟩
      · simp [inHand, hw, hq]
      · intro hd
        rw [h.joined hd] at hrx
        cases hrx
    · rename_i hq
      split_ifs at hs with htx
      obtain rfl := Option.some.inj hs
      refine ⟨h.ledger.moved rfl rfl rfl ?_ nofun (fun _ => h.ledger.lost_of_rx hrx) ?_, h.sender, ?_⟩
      · simp [inHand, hw]
      · exact fun _ => ⟨hq, by simpa using htx⟩
      · intro hd
        rw [h.joined hd] at hrx
        cases hrx
  · cases hs

/-- Recording errors and answering flushes is not in the books. -/
theorem handled_same (w : AsyncWriter) (m : Msg) (r : InnerResult) :
    ∃ pendingError reply state, state.dropped = w.state.dropped ∧
      w.handled m r = { w with pendingError, reply, state } := by
  unfold handled
  split
  · rename_i s e
    exact ⟨_, _, w.state.recordError "writing scope metadata" e, rfl, rfl⟩
  · rename_i record s e
    exact ⟨_, _, w.state.recordError "writing record" e, rfl, rfl⟩
  · unfold answer
    cases r with
    | ok => exact ⟨_, _, _, rfl, rfl⟩
    | err e => exact ⟨_, _, w.state.recordError "flushing writer" e, rfl, rfl⟩
    | panic => exact ⟨_, _, _, rfl, rfl⟩
  · exact ⟨_, _, _, rfl, rfl⟩

/-- What a call on the inner writer changes, in each of its cases. -/
theorem work_cases {r : InnerResult} (hs : w.work r = some w') :
    (∃ m, w.worker = .handling m ∧ r = .panic ∧
      w' = { w with inner := w.inner ++ [(m, r)], worker := .unwinding }) ∨
    (∃ m, w.worker = .handling m ∧ r ≠ .panic ∧
      w' = { { w with inner := w.inner ++ [(m, r)] }.handled m r with worker := .receiving }) ∨
    (w.worker = .closing ∧ r = .panic ∧
      w' = { w with shutdown := some r, worker := .unwinding }) ∨
    (w.worker = .closing ∧ r ≠ .panic ∧ ∃ state, state.dropped = w.state.dropped ∧
      w' = { w with shutdown := some r, state, worker := .done false }) := by
  unfold AsyncWriter.work at hs
  split at hs
  · rename_i m hw
    dsimp only at hs
    split at hs
    · obtain rfl := Option.some.inj hs
      exact .inl ⟨m, hw, rfl, rfl⟩
    · cases hs
    · rename_i hpanic _
      obtain rfl := Option.some.inj hs
      exact .inr (.inl ⟨m, hw, fun hr => hpanic hr, rfl⟩)
  · rename_i hw
    cases r with
    | panic => exact .inr (.inr (.inl ⟨hw, rfl, (Option.some.inj hs).symm⟩))
    | err e =>
      exact .inr (.inr (.inr ⟨hw, nofun, w.state.recordError "flushing writer at shutdown" e, rfl,
        (Option.some.inj hs).symm⟩))
    | ok => exact .inr (.inr (.inr ⟨hw, nofun, w.state, rfl, (Option.some.inj hs).symm⟩))
  · cases hs

theorem Booked.work (h : w.Booked) {r : InnerResult} (hs : w.work r = some w') : w'.Booked := by
  have hnot : w.rx = true → w.producer ≠ .dropped := by
    intro hrx hd
    rw [h.joined hd] at hrx
    cases hrx
  rcases work_cases hs with ⟨m, hw, -, rfl⟩ | ⟨m, hw, -, rfl⟩ | ⟨hw, -, rfl⟩ |
    ⟨hw, -, state, hdropped, rfl⟩
  · have hrx : w.rx = true := by rw [rx, hw]
    refine ⟨h.ledger.moved rfl rfl rfl ?_ nofun (fun _ => h.ledger.lost_of_rx hrx) nofun, h.sender,
      fun hd => absurd hd (hnot hrx)⟩
    simp [inHand, hw]
  · have hrx : w.rx = true := by rw [rx, hw]
    obtain ⟨pendingError, reply, state, hdropped, heq⟩ :=
      handled_same { w with inner := w.inner ++ [(m, r)] } m r
    rw [heq]
    refine ⟨h.ledger.moved rfl rfl hdropped ?_ nofun (fun _ => h.ledger.lost_of_rx hrx) nofun,
      h.sender, fun hd => absurd hd (hnot hrx)⟩
    simp [inHand, hw]
  · have hrx : w.rx = true := by rw [rx, hw]
    refine ⟨h.ledger.moved rfl rfl rfl ?_ nofun (fun _ => h.ledger.lost_of_rx hrx) nofun, h.sender,
      fun hd => absurd hd (hnot hrx)⟩
    simp [inHand, hw]
  · have hrx : w.rx = true := by rw [rx, hw]
    refine ⟨h.ledger.moved rfl rfl hdropped ?_ (fun _ => (h.ledger.closing hw).1)
      (fun _ => h.ledger.lost_of_rx hrx) nofun, h.sender, fun _ => rfl⟩
    simp [inHand, hw]

theorem Booked.unwind (h : w.Booked) (hs : w.unwind = some w') : w'.Booked := by
  unfold AsyncWriter.unwind at hs
  split at hs
  · rename_i hw
    obtain rfl := Option.some.inj hs
    have hrx : w.rx = true := by rw [rx, hw]
    refine ⟨h.ledger.moved rfl rfl rfl ?_ (fun _ => rfl) (fun hw' => absurd rfl hw') nofun,
      h.sender, fun _ => rfl⟩
    simp [inHand, hw, h.ledger.lost_of_rx hrx]
  · cases hs

/-- **Every step keeps the books.** -/
theorem Booked.step (h : w.Booked) {a : WriterAction} (hs : w.step a = some w') : w'.Booked := by
  cases a with
  | call m =>
    rw [AsyncWriter.step] at hs
    split_ifs at hs with hidle
    obtain rfl := Option.some.inj hs
    exact h.call hidle m
  | drop =>
    rw [AsyncWriter.step] at hs
    split_ifs at hs with hidle
    obtain rfl := Option.some.inj hs
    exact ⟨(h.ledgerOf hidle).congr rfl rfl rfl rfl rfl rfl rfl nofun, .inr (.inl rfl), nofun⟩
  | proceed => exact h.proceed hs
  | receive => exact h.receive hs
  | work r => exact h.work hs
  | unwind => exact h.unwind hs

/-- **The books are kept in every run.** -/
theorem run_booked {queueCap : ℕ} {mode : WriteMode} {scopeMetadata : Bool}
    {actions : List WriterAction}
    (hs : Machine.run AsyncWriter.step (spawn queueCap mode scopeMetadata) actions = some w) :
    w.Booked :=
  Machine.run_invariant (fun _ _ _ h hs => h.step hs) hs (spawn_booked queueCap mode scopeMetadata)

/-! ## Runs without a panic -/

/-- The messages on their way to the inner writer. -/
def onTheWay (w : AsyncWriter) : List Msg := w.inHand ++ w.queue

/-- A flush is on its way only while it is waited for, and it is the last one. -/
structure FlushLast (p : Producer) (reply : Option IoResult) (way : List Msg) : Prop where
  idle : p ≠ .waiting → reply = none ∧ .flush ∉ way
  waiting : p = .waiting → reply = none → ∃ ahead, way = ahead ++ [.flush] ∧ .flush ∉ ahead
  replied : p = .waiting → reply ≠ none → way = []

/-- No call on the inner writer has panicked. -/
structure Calm (w : AsyncWriter) : Prop where
  booked : w.Booked
  worker : w.worker ≠ .unwinding ∧ w.worker ≠ .done true
  ended : w.worker = .done false → w.tx = false ∧ w.shutdown.isSome = true
  fates : ∀ p ∈ w.sent, p.2 ≠ .refused
  blocking : w.mode = .blocking → ∀ p ∈ w.sent, p.2 = .accepted
  flush : FlushLast w.producer w.reply w.onTheWay

theorem spawn_calm (queueCap : ℕ) (mode : WriteMode) (scopeMetadata : Bool) :
    (spawn queueCap mode scopeMetadata).Calm where
  booked := spawn_booked queueCap mode scopeMetadata
  worker := ⟨nofun, nofun⟩
  ended h := by cases h
  fates _ h := by cases h
  blocking _ _ h := by cases h
  flush := ⟨fun _ => ⟨rfl, nofun⟩, nofun, nofun⟩

/-- While the sender is there, so is the receiver. -/
theorem Calm.rx (h : w.Calm) (htx : w.tx = true) : w.rx = true := by
  unfold AsyncWriter.rx
  split
  · rename_i panicked hw
    cases panicked with
    | true => exact absurd hw h.worker.2
    | false =>
      rw [(h.ended hw).1] at htx
      cases htx
  · rfl

/-- A message is decided, with the worker where it was; the queue may have taken
    one that is not a flush. -/
theorem Calm.decided (h : w.Calm) {f : Fate} (more : List Msg) (hb : w'.Booked)
    (hworker : w'.worker = w.worker) (htx : w'.tx = w.tx) (hshut : w'.shutdown = w.shutdown)
    (hmode : w'.mode = w.mode) (hreply : w'.reply = w.reply)
    (hsent : w'.sent = w.sent ++ [(m, f)]) (hf : f ≠ .refused)
    (hblocking : w.mode = .blocking → f = .accepted) (hqueue : w'.queue = w.queue ++ more)
    (hmore : .flush ∉ more) (hp : w.producer ≠ .waiting) (hp' : w'.producer ≠ .waiting) :
    w'.Calm := by
  refine ⟨hb, ?_, ?_, ?_, ?_, ⟨?_, fun hw => absurd hw hp', fun hw => absurd hw hp'⟩⟩
  · rw [hworker]
    exact h.worker
  · rw [hworker, htx, hshut]
    exact h.ended
  · intro p hmem
    rw [hsent, List.mem_append, List.mem_singleton] at hmem
    rcases hmem with hmem | rfl
    · exact h.fates p hmem
    · exact hf
  · intro hbl p hmem
    rw [hmode] at hbl
    rw [hsent, List.mem_append, List.mem_singleton] at hmem
    rcases hmem with hmem | rfl
    · exact h.blocking hbl p hmem
    · exact hblocking hbl
  · intro _
    obtain ⟨hr, hno⟩ := h.flush.idle hp
    refine ⟨hreply.trans hr, ?_⟩
    have hhand : w'.inHand = w.inHand := by rw [inHand, hworker, inHand]
    rw [onTheWay, hhand, hqueue, ← List.append_assoc, List.mem_append]
    rintro (hmem | hmem)
    · exact hno hmem
    · exact hmore hmem

/-- Only the producer moves, and no flush is waited for. -/
theorem Calm.congr (h : w.Calm) (hb : w'.Booked) (hworker : w'.worker = w.worker)
    (htx : w'.tx = true → w.tx = true) (hshut : w'.shutdown = w.shutdown) (hmode : w'.mode = w.mode)
    (hreply : w'.reply = none) (hsent : w'.sent = w.sent) (hqueue : w'.queue = w.queue)
    (hno : .flush ∉ w.onTheWay) (hp' : w'.producer ≠ .waiting) : w'.Calm := by
  refine ⟨hb, ?_, ?_, ?_, ?_, ⟨?_, fun hw => absurd hw hp', fun hw => absurd hw hp'⟩⟩
  · rw [hworker]
    exact h.worker
  · rw [hworker, hshut]
    intro hw
    obtain ⟨ht, hs⟩ := h.ended hw
    refine ⟨?_, hs⟩
    cases htx' : w'.tx with
    | false => rfl
    | true => rw [htx htx'] at ht; cases ht
  · rw [hsent]
    exact h.fates
  · rw [hmode, hsent]
    exact h.blocking
  · intro _
    have hhand : w'.inHand = w.inHand := by rw [inHand, hworker, inHand]
    rw [onTheWay, hhand, hqueue]
    exact ⟨hreply, hno⟩

theorem Calm.call (h : w.Calm) (hidle : w.producer = .idle) (m : Msg) : (w.call m).Calm := by
  have hb := h.booked.call hidle m
  have htx : w.tx = true := h.booked.open (by rw [hidle]; nofun) (by rw [hidle]; nofun)
  have hrx := h.rx htx
  have hw : w.producer ≠ .waiting := by rw [hidle]; nofun
  obtain ⟨hreply, hno⟩ := h.flush.idle hw
  have hsubmit : (w.submit m).Booked → (w.submit m).Calm := by
    intro hb
    unfold AsyncWriter.submit at hb ⊢
    dsimp only at hb ⊢
    rw [if_pos htx] at hb ⊢
    split_ifs at hb ⊢ with hmode
    · have hnb : w.mode ≠ .blocking := by rw [hmode.2]; nofun
      unfold trySend at hb ⊢
      have hrx' : AsyncWriter.rx { w with submitted := w.submitted ++ [m] } = true := hrx
      rw [if_pos hrx'] at hb ⊢
      split_ifs at hb ⊢
      · refine h.decided (f := .accepted) [m] hb rfl rfl rfl rfl rfl rfl nofun
          (fun _ => rfl) rfl ?_ hw nofun
        rw [List.mem_singleton]
        rintro rfl
        cases hmode.1
      · exact h.decided (f := .dropped) [] hb rfl rfl rfl rfl rfl rfl nofun
          (fun hm => absurd hm hnb) (List.append_nil _).symm nofun hw nofun
    · exact h.congr hb rfl id rfl rfl hreply rfl rfl hno nofun
  unfold AsyncWriter.call at hb ⊢
  cases m with
  | scope s =>
    dsimp only at hb ⊢
    split_ifs at hb ⊢
    · exact hsubmit hb
    · exact h
  | runId runId => exact hsubmit hb
  | record r s => exact hsubmit hb
  | flush => exact hsubmit hb

/-- A flush without a reply is on its way, so its reply is open. -/
theorem Calm.replyOpen (h : w.Calm) (hp : w.producer = .waiting) (hr : w.reply = none) :
    w.replyOpen = true := by
  obtain ⟨ahead, heq, -⟩ := h.flush.waiting hp hr
  have hmem : Msg.flush ∈ w.onTheWay := by rw [heq]; simp
  rw [AsyncWriter.replyOpen, Bool.or_eq_true, decide_eq_true_iff, List.contains_iff_mem]
  rcases List.mem_append.1 hmem with hmem | hmem
  · unfold inHand at hmem
    split at hmem
    · rename_i m hw
      rw [List.mem_singleton.1 hmem]
      exact .inl hw
    · cases hmem
  · exact .inr hmem

theorem Calm.proceed (h : w.Calm) (hs : w.proceed = some w') : w'.Calm := by
  have hb := h.booked.proceed hs
  unfold AsyncWriter.proceed at hs
  cases hp : w.producer with
  | idle | dropped =>
    rw [hp] at hs
    cases hs
  | sending m =>
    have hw : w.producer ≠ .waiting := by rw [hp]; nofun
    have hrx := h.rx (h.booked.open (by rw [hp]; nofun) (by rw [hp]; nofun))
    obtain ⟨hreply, hno⟩ := h.flush.idle hw
    rw [hp] at hs
    dsimp only at hs
    unfold AsyncWriter.send at hs
    rw [if_pos hrx] at hs
    split_ifs at hs with hroom
    have hplain : m ≠ .flush → w' = (w.accept m).ret m (.ok ()) → w'.Calm := by
      rintro hm rfl
      refine h.decided (f := .accepted) [m] hb rfl rfl rfl rfl rfl rfl nofun
        (fun _ => rfl) rfl ?_ hw nofun
      rw [List.mem_singleton]
      exact hm.symm
    cases m with
    | flush =>
      -- the flush is behind all other messages
      obtain rfl := Option.some.inj hs
      refine ⟨hb, h.worker, h.ended, ?_, ?_, ⟨fun hc => absurd rfl hc, ?_, ?_⟩⟩
      · intro p hmem
        rcases List.mem_append.1 hmem with hmem | hmem
        · exact h.fates p hmem
        · rw [List.mem_singleton.1 hmem]
          exact nofun
      · intro hbl p hmem
        rcases List.mem_append.1 hmem with hmem | hmem
        · exact h.blocking hbl p hmem
        · rw [List.mem_singleton.1 hmem]
      · intro _ _
        exact ⟨w.onTheWay, (List.append_assoc _ _ _).symm, hno⟩
      · intro _ hr
        exact absurd hreply hr
    | runId runId => exact hplain nofun (Option.some.inj hs).symm
    | scope s => exact hplain nofun (Option.some.inj hs).symm
    | record r s => exact hplain nofun (Option.some.inj hs).symm
  | waiting =>
    rw [hp] at hs
    dsimp only at hs
    cases hr : w.reply with
    | some r =>
      rw [hr] at hs
      obtain rfl := Option.some.inj hs
      have hnil := h.flush.replied hp (by rw [hr]; nofun)
      refine h.congr hb rfl id rfl rfl rfl rfl rfl ?_ nofun
      rw [hnil]
      exact nofun
    | none =>
      rw [hr] at hs
      dsimp only at hs
      rw [if_pos (h.replyOpen hp hr)] at hs
      cases hs
  | joining =>
    obtain ⟨hreply, hno⟩ := h.flush.idle (by rw [hp]; nofun)
    rw [hp] at hs
    dsimp only at hs
    split_ifs at hs
    obtain rfl := Option.some.inj hs
    exact h.congr hb rfl id rfl rfl hreply rfl rfl hno nofun

theorem Calm.receive (h : w.Calm) (hs : w.receive = some w') : w'.Calm := by
  have hb := h.booked.receive hs
  unfold AsyncWriter.receive at hs
  split at hs
  · rename_i hw
    split at hs
    · rename_i m queue hq
      obtain rfl := Option.some.inj hs
      have hsame : w.onTheWay = [m] ++ queue := by simp [onTheWay, inHand, hw, hq]
      have hflush : FlushLast w.producer w.reply ([m] ++ queue) := hsame ▸ h.flush
      exact ⟨hb, ⟨nofun, nofun⟩, nofun, h.fates, h.blocking, hflush⟩
    · rename_i hq
      split_ifs at hs with htx
      obtain rfl := Option.some.inj hs
      have hsame : w.onTheWay = [] ++ w.queue := by simp [onTheWay, inHand, hw]
      have hflush : FlushLast w.producer w.reply ([] ++ w.queue) := hsame ▸ h.flush
      exact ⟨hb, ⟨nofun, nofun⟩, nofun, h.fates, h.blocking, hflush⟩
  · cases hs

/-- A message that is handled is no longer on its way; a flush was the last one. -/
theorem FlushLast.handled {p : Producer} {reply : Option IoResult} {way : List Msg}
    (h : FlushLast p reply (m :: way)) {answered : Option IoResult}
    (hflush : m = .flush → answered ≠ none) (hother : m ≠ .flush → answered = reply) :
    FlushLast p answered way := by
  by_cases hm : m = .flush
  · subst hm
    have hp : p = .waiting := by
      by_contra hp
      exact (h.idle hp).2 List.mem_cons_self
    have hr : reply = none := by
      by_contra hr
      cases h.replied hp hr
    obtain ⟨ahead, heq, hno⟩ := h.waiting hp hr
    have hway : way = [] := by
      cases ahead with
      | nil => exact (List.cons.inj heq).2
      | cons x ahead =>
        obtain ⟨rfl, -⟩ := List.cons.inj heq
        exact absurd List.mem_cons_self hno
    exact ⟨fun hp' => absurd hp hp', fun _ ha => absurd ha (hflush rfl), fun _ _ => hway⟩
  · rw [hother hm]
    refine ⟨fun hp => ?_, fun hp hr => ?_, fun hp hr => ?_⟩
    · obtain ⟨hr, hno⟩ := h.idle hp
      exact ⟨hr, fun hmem => hno (List.mem_cons_of_mem _ hmem)⟩
    · obtain ⟨ahead, heq, hno⟩ := h.waiting hp hr
      cases ahead with
      | nil => exact absurd (List.cons.inj heq).1 hm
      | cons x ahead =>
        obtain ⟨-, heq⟩ := List.cons.inj heq
        exact ⟨ahead, heq, fun hmem => hno (List.mem_cons_of_mem _ hmem)⟩
    · cases h.replied hp hr

/-- Only a flush is answered. -/
theorem handled_reply (w : AsyncWriter) (m : Msg) (r : InnerResult) :
    (m = .flush → (w.handled m r).reply ≠ none) ∧
      (m ≠ .flush → (w.handled m r).reply = w.reply) := by
  cases m with
  | flush => exact ⟨fun _ => by cases r <;> exact nofun, fun h => absurd rfl h⟩
  | runId runId => exact ⟨nofun, fun _ => by cases r <;> rfl⟩
  | scope s => exact ⟨nofun, fun _ => by cases r <;> rfl⟩
  | record record s => exact ⟨nofun, fun _ => by cases r <;> rfl⟩

theorem Calm.work (h : w.Calm) {r : InnerResult} (hr : r ≠ .panic) (hs : w.work r = some w') :
    w'.Calm := by
  have hb := h.booked.work hs
  rcases work_cases hs with ⟨m, -, hp, -⟩ | ⟨m, hw, -, rfl⟩ | ⟨-, hp, -⟩ | ⟨hw, -, state, -, rfl⟩
  · exact absurd hp hr
  · obtain ⟨hflush, hother⟩ := handled_reply { w with inner := w.inner ++ [(m, r)] } m r
    obtain ⟨pendingError, reply, state, -, heq⟩ :=
      handled_same { w with inner := w.inner ++ [(m, r)] } m r
    rw [heq] at hb hflush hother ⊢
    have hway : w.onTheWay = m :: w.queue := by simp [onTheWay, inHand, hw]
    have hlast : FlushLast w.producer w.reply (m :: w.queue) := hway ▸ h.flush
    exact ⟨hb, ⟨nofun, nofun⟩, nofun, h.fates, h.blocking, hlast.handled hflush hother⟩
  · exact absurd hp hr
  · have hway : w.onTheWay = [] ++ w.queue := by simp [onTheWay, inHand, hw]
    have hlast : FlushLast w.producer w.reply ([] ++ w.queue) := hway ▸ h.flush
    refine ⟨hb, ⟨nofun, nofun⟩, fun _ => ⟨?_, rfl⟩, h.fates, h.blocking, hlast⟩
    exact (h.booked.ledger.closing hw).2

/-- **Every step but a panic keeps a writer calm.** -/
theorem Calm.step (h : w.Calm) {a : WriterAction} (ha : a ≠ .work .panic)
    (hs : w.step a = some w') : w'.Calm := by
  have hb := h.booked.step hs
  cases a with
  | call m =>
    rw [AsyncWriter.step] at hs
    split_ifs at hs with hidle
    obtain rfl := Option.some.inj hs
    exact h.call hidle m
  | drop =>
    rw [AsyncWriter.step] at hs
    split_ifs at hs with hidle
    obtain rfl := Option.some.inj hs
    obtain ⟨hreply, hno⟩ := h.flush.idle (by rw [hidle]; nofun)
    exact h.congr hb rfl nofun rfl rfl hreply rfl rfl hno nofun
  | proceed => exact h.proceed hs
  | receive => exact h.receive hs
  | work r =>
    refine h.work ?_ hs
    rintro rfl
    exact ha rfl
  | unwind =>
    rw [AsyncWriter.step, AsyncWriter.unwind] at hs
    split at hs
    · rename_i hw
      exact absurd hw h.worker.1
    · cases hs

theorem run_calm {queueCap : ℕ} {mode : WriteMode} {scopeMetadata : Bool}
    {actions : List WriterAction} (hcalm : .work .panic ∉ actions)
    (hs : Machine.run AsyncWriter.step (spawn queueCap mode scopeMetadata) actions = some w) :
    w.Calm := by
  have hmeets : Machine.Meets AsyncWriter.step (fun _ a => a ≠ .work .panic)
      (spawn queueCap mode scopeMetadata) actions :=
    Machine.meets_of_forall fun a ha _ heq => hcalm (heq ▸ ha)
  exact Machine.run_invariant_of_meets (fun _ _ _ h ha hs => h.step ha hs) hs hmeets
    (spawn_calm queueCap mode scopeMetadata)

/-! ## What is delivered -/

/-- The messages that are neither with the inner writer nor counted yet. -/
def inFlight (w : AsyncWriter) : List Msg := w.onTheWay ++ w.producer.pending

/-- The messages that are not `set_run_id`, with the run id in effect. -/
def tagged : Option String → List Msg → List (Option String × Msg)
  | _, [] => []
  | _, .runId runId :: ms => tagged (some runId) ms
  | current, m :: ms => (current, m) :: tagged current ms

theorem tagged_append (current : Option String) (xs ys : List Msg) :
    (tagged current xs).Sublist (tagged current (xs ++ ys)) := by
  fun_induction tagged current xs with
  | case1 current => exact List.nil_sublist _
  | case2 current runId ms ih => exact ih
  | case3 current m ms hm ih =>
    rw [List.cons_append, tagged]
    · exact ih.cons_cons _
    · exact hm

/-- Leaving out writes keeps the run ids in effect. -/
theorem tagged_filter {sent : List (Msg × Fate)}
    (h : ∀ p ∈ sent, p.2 ≠ .accepted → p.1.isWrite = true) (current : Option String) :
    (tagged current ((sent.filter fun p => p.2 = .accepted).map Prod.fst)).Sublist
      (tagged current (sent.map Prod.fst)) := by
  induction sent generalizing current with
  | nil => exact List.Sublist.refl _
  | cons p sent ih =>
    obtain ⟨m, f⟩ := p
    obtain ⟨hp, hsent⟩ := List.forall_mem_cons.1 h
    by_cases hf : f = .accepted
    · rw [List.filter_cons_of_pos (by simpa using hf), List.map_cons, List.map_cons]
      cases m with
      | runId runId => exact ih hsent (some runId)
      | scope s => exact (ih hsent current).cons_cons _
      | record r s => exact (ih hsent current).cons_cons _
      | flush => exact (ih hsent current).cons_cons _
    · rw [List.filter_cons_of_neg (by simpa using hf), List.map_cons]
      cases m with
      | runId runId => cases hp hf
      | scope s => exact (ih hsent current).cons _
      | record r s => exact (ih hsent current).cons _
      | flush => cases hp hf

/-- What a writer has delivered. -/
structure Delivered (w : AsyncWriter) (mode : WriteMode) : Prop where
  /-- the inner writer gets the calls in their order, each at most once -/
  order : (w.inner.map Prod.fst).Sublist w.submitted
  /-- those that it does not get are counted, or still in flight -/
  missing : w.submitted.Perm (w.inner.map Prod.fst ++ w.inFlight ++ w.droppedMsgs)
  counted : w.state.dropped = w.droppedMsgs.length
  writes : ∀ m ∈ w.droppedMsgs, m.isWrite = true
  /-- each call comes to the inner writer under the run id that was set last -/
  runIds : (tagged none (w.inner.map Prod.fst)).Sublist (tagged none w.submitted)
  blocking : mode = .blocking → w.droppedMsgs = []
  /-- a flush that returns was preceded by all that was accepted -/
  flushed : ∀ w', w.producer = .waiting → w.step .proceed = some w' →
    w'.inner.map Prod.fst = w'.accepted
  /-- once dropped, nothing is in flight, and the inner writer has been flushed -/
  finished : w.producer = .dropped → w.inner.map Prod.fst = w.accepted ∧ w.inFlight = [] ∧
    w.shutdown.isSome = true

theorem Calm.accepted (h : w.Calm) : w.accepted = w.inner.map Prod.fst ++ w.onTheWay := by
  rw [h.booked.ledger.accepted, h.booked.ledger.running h.worker.2, List.append_nil,
    List.append_assoc]
  rfl

/-- Every message has been accepted or counted. -/
theorem Calm.sent_perm (h : w.Calm) : (w.sent.map Prod.fst).Perm (w.accepted ++ w.droppedMsgs) := by
  have hfilter : (w.sent.filter fun p => !decide (p.2 = Fate.accepted)) =
      w.sent.filter fun p => p.2 = Fate.dropped := by
    refine List.filter_congr fun p hp => ?_
    have hf := h.fates p hp
    cases hp2 : p.2 with
    | accepted => rfl
    | dropped => rfl
    | refused => exact absurd hp2 hf
  have hperm := List.filter_append_perm (fun p : Msg × Fate => decide (p.2 = .accepted)) w.sent
  rw [hfilter] at hperm
  have hmap := (hperm.map Prod.fst).symm
  rwa [List.map_append] at hmap

theorem Calm.delivery (h : w.Calm) : w.Delivered w.mode := by
  have hwrites : ∀ p ∈ w.sent, p.2 ≠ .accepted → p.1.isWrite = true := by
    intro p hp hne
    refine h.booked.ledger.writes p hp ?_
    have hf := h.fates p hp
    cases hp2 : p.2 with
    | accepted => exact absurd hp2 hne
    | dropped => rfl
    | refused => exact absurd hp2 hf
  refine ⟨?_, ?_, h.booked.ledger.dropped, ?_, ?_, ?_, ?_, ?_⟩
  · calc (w.inner.map Prod.fst).Sublist w.accepted := by
          rw [h.accepted]
          exact List.sublist_append_left _ _
      List.Sublist _ (w.sent.map Prod.fst) := List.filter_sublist.map _
      List.Sublist _ w.submitted := by
          rw [h.booked.ledger.submitted]
          exact List.sublist_append_left _ _
  · rw [h.booked.ledger.submitted]
    refine (h.sent_perm.append_right _).trans ?_
    rw [h.accepted, inFlight, List.append_assoc, List.append_assoc, List.append_assoc,
      List.append_assoc]
    exact (List.perm_append_comm.append_left _).append_left _
  · intro m hm
    obtain ⟨p, hp, rfl⟩ := List.mem_map.1 hm
    obtain ⟨hp, hf⟩ := List.mem_filter.1 hp
    exact h.booked.ledger.writes p hp (by simpa using hf)
  · refine (tagged_append none _ w.onTheWay).trans ?_
    rw [← h.accepted, h.booked.ledger.submitted]
    exact (tagged_filter hwrites none).trans (tagged_append none _ _)
  · intro hmode
    refine List.map_eq_nil_iff.2 (List.filter_eq_nil_iff.2 fun p hp => ?_)
    rw [h.blocking hmode p hp]
    exact nofun
  · intro w' hp hs
    rw [AsyncWriter.step, AsyncWriter.proceed, hp] at hs
    dsimp only at hs
    cases hr : w.reply with
    | none =>
      rw [hr] at hs
      dsimp only at hs
      rw [if_pos (h.replyOpen hp hr)] at hs
      cases hs
    | some r =>
      rw [hr] at hs
      obtain rfl := Option.some.inj hs
      show w.inner.map Prod.fst = w.accepted
      rw [h.accepted, h.flush.replied hp (by rw [hr]; nofun), List.append_nil]
  · intro hd
    have hrx := h.booked.joined hd
    have hw : w.worker = .done false := by
      unfold AsyncWriter.rx at hrx
      split at hrx
      · rename_i panicked hw
        cases panicked with
        | true => exact absurd hw h.worker.2
        | false => exact hw
      · cases hrx
    have hway : w.onTheWay = [] := by
      rw [onTheWay, inHand, hw, h.booked.ledger.ended hrx]
      rfl
    refine ⟨?_, ?_, (h.ended hw).2⟩
    · rw [h.accepted, hway, List.append_nil]
    · rw [inFlight, hway, hd]
      rfl

/-! ## What the steps leave as it is -/

/-- The producer's side: the worker is where it was. -/
structure ProducerFrame (w w' : AsyncWriter) : Prop where
  queueCap : w'.queueCap = w.queueCap
  mode : w'.mode = w.mode
  lost : w'.lost = w.lost
  worker : w'.worker = w.worker
  pendingError : w'.pendingError = w.pendingError

theorem ProducerFrame.refl (w : AsyncWriter) : ProducerFrame w w := ⟨rfl, rfl, rfl, rfl, rfl⟩

theorem refuse_frame (w : AsyncWriter) (m : Msg) (error : IoError) :
    ProducerFrame w (w.refuse m error) := by
  unfold AsyncWriter.refuse
  split_ifs
  · exact ⟨rfl, rfl, rfl, rfl, rfl⟩
  · exact ⟨rfl, rfl, rfl, rfl, rfl⟩

theorem submit_frame (w : AsyncWriter) (m : Msg) : ProducerFrame w (w.submit m) := by
  have hframe : ∀ error, ProducerFrame w
      (AsyncWriter.refuse { w with submitted := w.submitted ++ [m] } m error) := by
    intro error
    have h := refuse_frame { w with submitted := w.submitted ++ [m] } m error
    exact ⟨h.queueCap, h.mode, h.lost, h.worker, h.pendingError⟩
  unfold AsyncWriter.submit trySend
  dsimp only
  split_ifs
  · exact ⟨rfl, rfl, rfl, rfl, rfl⟩
  · exact ⟨rfl, rfl, rfl, rfl, rfl⟩
  · exact hframe _
  · exact ⟨rfl, rfl, rfl, rfl, rfl⟩
  · exact hframe _

theorem call_frame (w : AsyncWriter) (m : Msg) : ProducerFrame w (w.call m) := by
  unfold AsyncWriter.call
  cases m with
  | scope s =>
    dsimp only
    split_ifs
    · exact submit_frame w _
    · exact .refl w
  | runId runId => exact submit_frame w _
  | record r s => exact submit_frame w _
  | flush => exact submit_frame w _

theorem proceed_frame (hs : w.proceed = some w') : ProducerFrame w w' := by
  unfold AsyncWriter.proceed AsyncWriter.send at hs
  split at hs
  · cases hs
  · cases hs
  · split_ifs at hs
    · split at hs <;> (obtain rfl := Option.some.inj hs; exact ⟨rfl, rfl, rfl, rfl, rfl⟩)
    · obtain rfl := Option.some.inj hs
      exact refuse_frame _ _ _
  · split at hs
    · obtain rfl := Option.some.inj hs
      exact ⟨rfl, rfl, rfl, rfl, rfl⟩
    · split_ifs at hs
      obtain rfl := Option.some.inj hs
      exact ⟨rfl, rfl, rfl, rfl, rfl⟩
  · split_ifs at hs
    obtain rfl := Option.some.inj hs
    exact ⟨rfl, rfl, rfl, rfl, rfl⟩

theorem receive_frame (hs : w.receive = some w') :
    w'.mode = w.mode ∧ w'.lost = w.lost ∧ w.worker = .receiving := by
  unfold AsyncWriter.receive at hs
  split at hs
  · rename_i hw
    split at hs
    · obtain rfl := Option.some.inj hs
      exact ⟨rfl, rfl, hw⟩
    · split_ifs at hs
      obtain rfl := Option.some.inj hs
      exact ⟨rfl, rfl, hw⟩
  · cases hs

theorem work_frame {r : InnerResult} (hs : w.work r = some w') :
    w'.mode = w.mode ∧ w'.lost = w.lost ∧ ((∃ m, w.worker = .handling m) ∨ w.worker = .closing) := by
  rcases work_cases hs with ⟨m, hw, -, rfl⟩ | ⟨m, hw, -, rfl⟩ | ⟨hw, -, rfl⟩ | ⟨hw, -, state, -, rfl⟩
  · exact ⟨rfl, rfl, .inl ⟨m, hw⟩⟩
  · obtain ⟨pendingError, reply, state, -, heq⟩ :=
      handled_same { w with inner := w.inner ++ [(m, r)] } m r
    rw [heq]
    exact ⟨rfl, rfl, .inl ⟨m, hw⟩⟩
  · exact ⟨rfl, rfl, .inr hw⟩
  · exact ⟨rfl, rfl, .inr hw⟩

theorem unwind_eq (hs : w.unwind = some w') : w.worker = .unwinding ∧
    w' = { w with
      state := w.state.recordError "background writer" workerPanicked
      worker := .done true, lost := w.lost ++ w.queue, queue := [] } := by
  unfold AsyncWriter.unwind at hs
  split at hs
  · rename_i hw
    exact ⟨hw, (Option.some.inj hs).symm⟩
  · cases hs

/-- A call or a drop. -/
theorem step_frame {a : WriterAction} (ha : a = .drop ∨ a = .proceed ∨ ∃ m, a = .call m)
    (hs : w.step a = some w') : ProducerFrame w w' := by
  rcases ha with rfl | rfl | ⟨m, rfl⟩
  · rw [AsyncWriter.step] at hs
    split_ifs at hs
    obtain rfl := Option.some.inj hs
    exact ⟨rfl, rfl, rfl, rfl, rfl⟩
  · exact proceed_frame hs
  · rw [AsyncWriter.step] at hs
    split_ifs at hs
    obtain rfl := Option.some.inj hs
    exact call_frame w m

/-- Messages are lost only with the receiver, and the mode stays. -/
theorem step_keeps {a : WriterAction} (hs : w.step a = some w') :
    w'.mode = w.mode ∧ w'.lost = w.lost ++ if a = .unwind then w.queue else [] := by
  cases a with
  | call m =>
    have h := step_frame (.inr (.inr ⟨m, rfl⟩)) hs
    exact ⟨h.mode, h.lost.trans (List.append_nil _).symm⟩
  | drop =>
    have h := step_frame (.inl rfl) hs
    exact ⟨h.mode, h.lost.trans (List.append_nil _).symm⟩
  | proceed =>
    have h := step_frame (.inr (.inl rfl)) hs
    exact ⟨h.mode, h.lost.trans (List.append_nil _).symm⟩
  | receive =>
    obtain ⟨hm, hl, -⟩ := receive_frame hs
    exact ⟨hm, hl.trans (List.append_nil _).symm⟩
  | work r =>
    obtain ⟨hm, hl, -⟩ := work_frame hs
    exact ⟨hm, hl.trans (List.append_nil _).symm⟩
  | unwind =>
    obtain ⟨-, rfl⟩ := unwind_eq hs
    exact ⟨rfl, rfl⟩

/-- **What a writer delivers**: for every queue capacity, mode and inner writer
    that does not panic, after any steps of producer and worker in any order. -/
theorem delivered {queueCap : ℕ} {mode : WriteMode} {scopeMetadata : Bool}
    {actions : List WriterAction} (hcalm : .work .panic ∉ actions)
    (hs : Machine.run AsyncWriter.step (spawn queueCap mode scopeMetadata) actions = some w) :
    w.Delivered mode := by
  have hmode : w.mode = mode :=
    Machine.run_invariant (I := fun w => w.mode = mode)
      (fun _ _ _ hw hs => (step_keeps hs).1.trans hw) hs rfl
  have hdelivered := (run_calm hcalm hs).delivery
  rwa [hmode] at hdelivered

/-- Two records for a queue with one place, a flush, and the end. -/
def fullQueue : List WriterAction :=
  [.call (.record ⟨⟨0⟩, none, 0, .scopeExit .success 0⟩ none),
    .call (.record ⟨⟨1⟩, none, 0, .scopeExit .success 0⟩ none), .call .flush, .receive, .proceed,
    .work .ok, .receive, .work .ok, .proceed, .drop, .receive, .work .ok, .proceed]

theorem delivered_fullQueue : ∃ w,
    Machine.run AsyncWriter.step (spawn 1 .bestEffort false) fullQueue = some w ∧
      w.Delivered .bestEffort := by
  obtain ⟨w, hw⟩ : ∃ w, Machine.run AsyncWriter.step (spawn 1 .bestEffort false) fullQueue =
    some w := ⟨_, rfl⟩
  exact ⟨w, hw, delivered (by decide) hw⟩

end AsyncWriter

end Eventline
