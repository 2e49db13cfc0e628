/-
  The scopes of async wrappers exit once, unless an id comes round again.

  Scope ids are 64-bit counters that wrap.  A scope that stays open is retained
  however many others come and go, so after 2⁶⁴ entries a new scope can have the
  id of one that is retained.  An exit closes the first scope with its id: if
  that one is closed by then, the exit of the new scope finds nothing to do.

  * `async_scopes_exit_once`: runs in which the wrapper is given a new id.
  * `Lapping` is the state of a thread that enters and exits scopes behind an
    open one; `Lapping.lap` is one entry and exit, with the emits that trim.
  * `async_scope_misses_exit`: the run in which the id has come round.
-/
import Eventline.Runtime.AsyncScope

namespace Eventline

open Checked Slots

namespace AsyncScope

/-! ## Every run -/

def resultOutcome {ε α : Type} : Except ε α → Outcome
  | .ok _ => .success
  | .error _ => .failure

theorem scopeAsync_finish {T : Type} (f : FutureId) (name : String) (guard : RuntimeScopeGuard)
    (output : T) : (scopeAsync f name).finish guard output = guard.exit .success := rfl

theorem scopeAsyncResult_finish {ε α : Type} (f : FutureId) (name : String)
    (guard : RuntimeScopeGuard) (result : Except ε α) :
    (scopeAsyncResult f name).finish guard result = guard.exit (resultOutcome result) := by
  cases result <;> rfl

/-- **Each async scope exits once.**  For every future given to `scope_async` or
    `scope_async_result` and every run of its wrapper beside any other code: a
    wrapper that was never polled makes no call; one that was polled has its
    scope exited once when it is gone, with the outcome of its end; and what it
    returns is what the future produced.  User code leaves the scope alone, and
    the id of the scope is not that of a scope that is retained. -/
theorem async_scopes_exit_once (runId : String) (wants : Bool) (max : ℕ) (f : FutureId)
    (name : String) :
    (∀ {T : Type} (moves : List (Move T)) (w : World T),
      Machine.run (World.step (scopeAsync f name)) (World.new runId wants max) moves = some w →
      Machine.Meets (World.step (scopeAsync f name)) World.Allowed (World.new runId wants max)
        moves →
      w.ExitsOnce fun _ => .success) ∧
    ∀ {ε α : Type} (moves : List (Move (Except ε α))) (w : World (Except ε α)),
      Machine.run (World.step (scopeAsyncResult f name)) (World.new runId wants max) moves =
        some w →
      Machine.Meets (World.step (scopeAsyncResult f name)) World.Allowed
        (World.new runId wants max) moves →
      w.ExitsOnce resultOutcome := by
  constructor
  · intro T moves w hrun hmeets
    exact (World.Inv.of_run (scopeAsync_finish f name) hrun hmeets).exitsOnce
  · intro ε α moves w hrun hmeets
    exact (World.Inv.of_run (scopeAsyncResult_finish f name) hrun hmeets).exitsOnce

instance {T : Type} (w : World T) (m : Move T) : Decidable (w.Spares m) := by
  unfold World.Spares
  split <;> infer_instance

instance {T : Type} (w : World T) (m : Move T) : Decidable (w.Fresh m) := by
  unfold World.Fresh
  split <;> infer_instance

instance {T : Type} (w : World T) (m : Move T) : Decidable (w.Allowed m) :=
  inferInstanceAs (Decidable (w.Spares m ∧ w.Fresh m))

/-- A wrapper that is polled on one thread and dropped on another, and one whose
    future fails. -/
def cancelled : List (Move Unit) :=
  [.create 0, .poll 0, .enter 10 1000, .next, .pending, .leave,
    .drop 1, .dropped, .exit 20 2000 2000, .next, .leave]

def failed : List (Move (Except String Unit)) :=
  [.create 0, .poll 1, .enter 10 1000, .next, .ready (.error "invalid config"), .dropped,
    .exit 20 2000 2000, .next, .leave, .drop 1, .leave]

theorem async_scopes_exit_once_ended :
    (∃ w : World Unit, Machine.run (World.step (scopeAsync 0 "request"))
        (World.new "run" false 500) cancelled = some w ∧
      w.exits = [.aborted] ∧ w.ExitsOnce fun _ => .success) ∧
    ∃ w : World (Except String Unit), Machine.run (World.step (scopeAsyncResult 0 "config"))
        (World.new "run" false 500) failed = some w ∧
      w.exits = [.failure] ∧ w.returned = some (.error "invalid config") ∧
      w.ExitsOnce resultOutcome := by
  constructor
  · obtain ⟨w, hw, hexits⟩ : ∃ w : World Unit,
        Machine.run (World.step (scopeAsync 0 "request")) (World.new "run" false 500) cancelled =
          some w ∧ w.exits = [.aborted] := ⟨_, rfl, rfl⟩
    exact ⟨w, hw, hexits, (async_scopes_exit_once "run" false 500 0 "request").1 _ w hw (by decide)⟩
  · obtain ⟨w, hw, hexits, hreturned⟩ : ∃ w : World (Except String Unit),
        Machine.run (World.step (scopeAsyncResult 0 "config")) (World.new "run" false 500) failed =
          some w ∧ w.exits = [.failure] ∧ w.returned = some (.error "invalid config") :=
      ⟨_, rfl, rfl, rfl⟩
    exact ⟨w, hw, hexits, hreturned,
      (async_scopes_exit_once "run" false 500 0 "config").2 _ w hw (by decide)⟩

/-! ## Calls that have room -/

end AsyncScope

namespace Journal

variable {j : Journal}

/-- Entering is possible while there is room for a scope. -/
theorem pushScope_ok (h : j.WF) (hroom : j.retained.length < usizeMax) (name : Option String)
    (parent : Option ScopeId) (t : Instant) (ms : UInt64) :
    ∃ j', j.pushScope name parent t ms = .ok (j', ⟨j.nextScopeId⟩) := by
  obtain ⟨scopes, hs, hwf, hr⟩ := Scopes.push_ok h.scopes hroom
    ⟨⟨⟨j.nextScopeId⟩, parent, ms, name, none, .none⟩, some ⟨t, none⟩⟩
  have hheld : ∃ s ∈ scopes.snapshot, s.id = ⟨j.nextScopeId⟩ := by
    refine ⟨_, List.mem_map.2 ⟨⟨⟨⟨j.nextScopeId⟩, parent, ms, name, none, .none⟩,
      some ⟨t, none⟩⟩, ?_, rfl⟩, rfl⟩
    show _ ∈ scopes.retained
    rw [hr]
    exact List.mem_append_right _ (.head _)
  obtain ⟨w, hw⟩ := writeScopeMetadata_ok
    (j := { j with nextScopeId := j.nextScopeId + 1, buffer := { j.buffer with scopes } })
    ⟨h.records, hwf⟩ hheld
  exact ⟨_, by simp only [pushScope, hs, ok_bind, hw]; rfl⟩

theorem recordNoWriteInScope_ok (h : j.WF) (hroom : j.records.length < usizeMax)
    (kind : EventKind) (name : String) (fields : Fields) (scopeId : Option ScopeId) (ns : UInt64) :
    ∃ out, j.recordNoWriteInScope kind name fields scopeId ns = .ok out := by
  obtain ⟨records, hr, -, -⟩ := Records.push_ok h.records hroom
    ⟨⟨j.nextRecordId⟩, scopeId, ns, .event kind name fields⟩
  exact ⟨_, by rw [recordNoWriteInScope, scopeOf_ok h, ok_bind, hr]; rfl⟩

theorem exitScopeNoWrite_ok (h : j.WF) (hroom : j.records.length < usizeMax) (id : ScopeId)
    (outcome : Outcome) (t : Instant) (ms ns : UInt64) :
    ∃ out, j.exitScopeNoWrite id outcome t ms ns = .ok out := by
  obtain ⟨scopes, hs, -, -⟩ := Scopes.finalizeScopeExitAt_ok h.scopes id ms t
  cases hx : (j.buffer.scopes.retained.find? (Scopes.hasId id)).bind (Scopes.exitOf ms t) with
  | none => exact ⟨_, by rw [exitScopeNoWrite, hs, ok_bind, hx]; rfl⟩
  | some closed =>
    obtain ⟨records, hr, -, -⟩ := Records.push_ok h.records hroom
      ⟨⟨j.nextRecordId⟩, some id, ns, .scopeExit outcome (durationNanos closed.2)⟩
    exact ⟨_, by simp only [exitScopeNoWrite, hs, ok_bind, hx, pushExit, hr]; rfl⟩

theorem trim_ok (h : j.WF) (max : ℕ) :
    ∃ j₁ j₂, j.trimRecords max = .ok j₁ ∧ j₁.trimScopes max = .ok j₂ := by
  obtain ⟨records, hrecords, hr, -⟩ := trimRecords_ok h max
  obtain ⟨scopes, hscopes, -⟩ := trimScopes_ok (j := { j with
    buffer := { j.buffer with records } }) ⟨hr, h.scopes⟩ max
  exact ⟨_, _, hrecords, hscopes⟩

theorem trim_inv (h : j.WF) {max : ℕ} {j₁ j₂ : Journal} (hrecords : j.trimRecords max = .ok j₁)
    (hscopes : j₁.trimScopes max = .ok j₂) :
    j₂.WF ∧ j₂.nextScopeId = j.nextScopeId ∧ j₂.records.length ≤ max ∧
      j₂.retained = dropFirst Scopes.isClosed (j.retained.countP Scopes.isClosed - max) j.retained := by
  obtain ⟨records, hok, hr, hents⟩ := trimRecords_ok h max
  rw [hok] at hrecords
  obtain rfl := Except.ok.inj hrecords
  obtain ⟨scopes, hok, hs, hret⟩ := trimScopes_ok (j := { j with
    buffer := { j.buffer with records } }) ⟨hr, h.scopes⟩ max
  rw [hok] at hscopes
  obtain rfl := Except.ok.inj hscopes
  refine ⟨⟨hr, hs⟩, rfl, ?_, hret⟩
  show records.entries.length ≤ max
  rw [hents, List.length_drop]
  omega

end Journal

namespace AsyncScope

/-! ## Laps -/

/-- Thread 1 takes one process to another. -/
structure Reaches (s s' : Process) : Prop where
  run : ∃ acts : List Act, Machine.run Process.step s (acts.map (.call 1)) = some s'
  thread : s'.threads 0 = s.threads 0
  futures : s'.futures = s.futures

namespace Reaches

variable {s s' s'' : Process}

theorem refl (s : Process) : Reaches s s := ⟨⟨[], rfl⟩, rfl, rfl⟩

theorem trans (h : Reaches s s') (h' : Reaches s' s'') : Reaches s s'' := by
  obtain ⟨acts, hacts⟩ := h.run
  obtain ⟨acts', hacts'⟩ := h'.run
  refine ⟨⟨acts ++ acts', ?_⟩, h'.thread.trans h.thread, h'.futures.trans h.futures⟩
  rw [List.map_append, Machine.run_append_eq_some]
  exact ⟨s', hacts, hacts'⟩

/-- A critical section of the thread. -/
theorem act {a : Act} {r : Runtime} {th : Thread}
    (h : s.runtime.act (s.threads 1) a = some (r, th)) :
    ∃ s', Reaches s s' ∧ s'.runtime = r ∧ s'.threads 1 = th := by
  obtain ⟨s', hs, hr, hthreads⟩ := Process.call_ok h
  obtain ⟨-, -, -, -, -, hfutures, -⟩ := Process.call_inv hs
  refine ⟨s', ⟨⟨[a], ?_⟩, ?_, hfutures⟩, hr, ?_⟩
  · rw [List.map_singleton, Machine.run_cons_eq_some]
    exact ⟨s', hs, rfl⟩
  · rw [hthreads, Function.update_of_ne (by decide)]
  · rw [hthreads, Function.update_self]

end Reaches

theorem act_of_user {r : Runtime} {th : Thread} {a : Act} (hpc : th.pc = .user) (ha : a ≠ .next) :
    r.act th a = r.start th a := by
  cases a with
  | next => exact absurd rfl ha
  | _ => simp only [Runtime.act, hpc]

theorem write_ok {r : Runtime} {th : Thread} {record : Record} {scope : Option Scope}
    (hpc : th.pc = .writing record scope) (hfree : r.writerLocked = false) :
    r.act th .next =
      some ({ r with writer := r.writer.call (.record record scope) }, { th with pc := .user }) := by
  show r.next th = _
  rw [Runtime.next, hpc]
  show r.writeRecord _ _ _ = _
  rw [Runtime.writeRecord, if_neg (by simp [hfree])]

/-- Thread 1 is in user code, and nothing is written but records. -/
structure AtRest (s : Process) : Prop where
  journal : s.runtime.journal.WF
  user : (s.threads 1).pc = .user
  unlocked : s.runtime.writerLocked = false
  unwanted : s.runtime.writer.wantsScopeMetadata = false
  cap : s.runtime.maxJournalRecords = 1

namespace AtRest

variable {s : Process}

theorem of_eq {s' : Process} (h : AtRest s) (hwf : s'.runtime.journal.WF)
    (huser : (s'.threads 1).pc = .user)
    (hlocked : s'.runtime.writerLocked = s.runtime.writerLocked)
    (hwants : s'.runtime.writer.wantsScopeMetadata = s.runtime.writer.wantsScopeMetadata)
    (hcap : s'.runtime.maxJournalRecords = s.runtime.maxJournalRecords) : AtRest s' :=
  ⟨hwf, huser, hlocked.trans h.unlocked, hwants.trans h.unwanted, hcap.trans h.cap⟩

/-- A scope is entered. -/
theorem enter (h : AtRest s) (hroom : s.runtime.journal.retained.length < usizeMax) :
    ∃ s' b, Reaches s s' ∧ AtRest s' ∧
      s'.runtime.journal.nextScopeId = s.runtime.journal.nextScopeId + 1 ∧
      s'.runtime.emitCount = s.runtime.emitCount ∧
      s'.runtime.journal.records.length = s.runtime.journal.records.length ∧
      s'.runtime.journal.retained = s.runtime.journal.retained ++ [b] ∧
      b.scope.id = ⟨s.runtime.journal.nextScopeId⟩ ∧ Scopes.isClosed b = false := by
  obtain ⟨j, hj⟩ := Journal.pushScope_ok h.journal hroom (some "lap")
    (s.threads 1).currentScope 0 0
  obtain ⟨hwf, -, hret, hrecords, hnext, -⟩ := Journal.pushScope_inv h.journal hj
  obtain ⟨lives, hact⟩ : ∃ lives, s.runtime.act (s.threads 1) (.enterScope "lap" 0 0) =
      some ({ s.runtime with journal := j, lives }, { s.threads 1 with
        stack := (s.threads 1).stack ++ [⟨s.runtime.journal.nextScopeId⟩]
        pc := .entered ⟨s.runtime.journal.nextScopeId⟩ }) := by
    rw [act_of_user h.user (by nofun)]
    show ∃ lives, s.runtime.enterScope _ _ _ _ = some _
    rw [Runtime.enterScope, Journal.enterScopeWithParent, hj]
    exact ⟨_, rfl⟩
  obtain ⟨s₁, hreach, hr₁, ht₁⟩ := Reaches.act hact
  have hunlock : s₁.runtime.act (s₁.threads 1) .next =
      some (s₁.runtime, { s₁.threads 1 with pc := .user }) := by
    rw [hr₁, ht₁]
    show Runtime.lockWriter _ _ _ = _
    rw [Runtime.lockWriter, if_neg (by simp [h.unlocked]), if_neg (by simp [h.unwanted])]
  obtain ⟨s₂, hreach', hr₂, ht₂⟩ := Reaches.act hunlock
  rw [hr₁] at hr₂
  refine ⟨s₂, ⟨⟨⟨s.runtime.journal.nextScopeId⟩, (s.threads 1).currentScope, 0, some "lap", none,
    .none⟩, some ⟨0, none⟩⟩, hreach.trans hreach', h.of_eq ?_ ?_ ?_ ?_ ?_, ?_, ?_, ?_, ?_, rfl, rfl⟩
  · exact hr₂ ▸ hwf
  · rw [ht₂]
  · rw [hr₂]
  · rw [hr₂]
  · rw [hr₂]
  · exact hr₂ ▸ hnext
  · rw [hr₂]
  · rw [hr₂]
    exact congrArg (fun records => records.snapshot.length) hrecords
  · exact hr₂ ▸ hret

/-- The record is written, and the call returns. -/
theorem writes (h : AtRest s) {s₁ : Process} {record : Record} {scope : Option Scope}
    (hpc : (s₁.threads 1).pc = .writing record scope) (hwf : s₁.runtime.journal.WF)
    (hlocked : s₁.runtime.writerLocked = s.runtime.writerLocked)
    (hwants : s₁.runtime.writer.wantsScopeMetadata = s.runtime.writer.wantsScopeMetadata)
    (hcap : s₁.runtime.maxJournalRecords = s.runtime.maxJournalRecords) :
    ∃ s', Reaches s₁ s' ∧ AtRest s' ∧ s'.runtime.journal = s₁.runtime.journal ∧
      s'.runtime.emitCount = s₁.runtime.emitCount := by
  obtain ⟨s', hreach, hr, ht⟩ := Reaches.act (write_ok hpc (hlocked.trans h.unlocked))
  refine ⟨s', hreach, h.of_eq ?_ ?_ ?_ ?_ ?_, ?_, ?_⟩
  · exact hr ▸ hwf
  · rw [ht]
  · exact hr ▸ hlocked
  · rw [hr]
    exact hwants
  · exact hr ▸ hcap
  · rw [hr]
  · rw [hr]

/-- An open scope is exited. -/
theorem exit (h : AtRest s) {pre post : List BufferedScope} {b : BufferedScope}
    (hheld : s.runtime.journal.retained = pre ++ b :: post)
    (hfirst : ∀ c ∈ pre, c.scope.id ≠ b.scope.id) (hopen : Scopes.isClosed b = false)
    (hroom : s.runtime.journal.records.length < usizeMax) :
    ∃ s' b', Reaches s s' ∧ AtRest s' ∧
      s'.runtime.journal.nextScopeId = s.runtime.journal.nextScopeId ∧
      s'.runtime.emitCount = s.runtime.emitCount ∧
      s'.runtime.journal.records.length = s.runtime.journal.records.length + 1 ∧
      s'.runtime.journal.retained = pre ++ b' :: post ∧
      b'.scope.id = b.scope.id ∧ Scopes.isClosed b' = true := by
  have hid : Scopes.hasId b.scope.id b = true := by simp [Scopes.hasId]
  have hpre : ∀ c ∈ pre, Scopes.hasId b.scope.id c = false := by
    intro c hc
    simpa [Scopes.hasId] using hfirst c hc
  have hfind : s.runtime.journal.retained.find? (Scopes.hasId b.scope.id) = some b := by
    rw [hheld, List.find?_append, List.find?_eq_none.2 (by simpa using hpre), Option.none_or,
      List.find?_cons_of_pos hid]
  obtain ⟨⟨j, rid, payload⟩, hj⟩ :=
    Journal.exitScopeNoWrite_ok h.journal hroom b.scope.id .success 0 0 0
  obtain ⟨hwf, -, -, hnext, -, -, hret, hcase⟩ := Journal.exitScopeNoWrite_inv h.journal hj
  rw [hfind, Option.bind_some, Scopes.exitOf, if_neg (by simp [hopen])] at hcase
  obtain ⟨record, rfl, -, hrecords, -⟩ := hcase
  rw [hheld, updateFirst_split hid hpre] at hret
  obtain ⟨pushed, lives, stack, hact⟩ : ∃ pushed lives stack,
      s.runtime.act (s.threads 1) (.exitScope b.scope.id .success 0 0 0) =
      some ({ s.runtime with journal := j, recordIds := s.runtime.recordIds + 1, pushed, lives },
        { s.threads 1 with stack, pc := .writing record (some (b.close 0 0).1.scope) }) := by
    rw [act_of_user h.user (by rintro ⟨⟩)]
    show ∃ pushed lives stack, s.runtime.exitScope _ _ _ _ _ _ = some _
    rw [Runtime.exitScope, hj]
    exact ⟨_, _, _, rfl⟩
  obtain ⟨s₁, hreach, hr₁, ht₁⟩ := Reaches.act hact
  obtain ⟨s₂, hreach', h₂, hjournal, hcount⟩ := h.writes (by rw [ht₁])
    (by rw [hr₁]; exact hwf) (by rw [hr₁]) (by rw [hr₁]) (by rw [hr₁])
  rw [hr₁] at hjournal hcount
  refine ⟨s₂, Scopes.closeIfOpen 0 0 b, hreach.trans hreach', h₂, ?_, hcount, ?_, ?_,
    (Journal.closeIfOpen_updates 0 0 b).1, Journal.closeIfOpen_isClosed 0 0 b⟩
  · exact hjournal ▸ hnext
  · rw [hjournal]
    show j.records.length = _
    rw [hrecords, List.length_append]
    rfl
  · exact hjournal ▸ hret

/-- The record is pushed and the emit counted. -/
theorem pushes (h : AtRest s) (hroom : s.runtime.journal.records.length < usizeMax) :
    ∃ s' record scope records, Reaches s s' ∧
      s'.runtime = { s.runtime with
        journal := { s.runtime.journal with
          nextRecordId := s.runtime.journal.nextRecordId + 1
          buffer := { s.runtime.journal.buffer with records } }
        pushed := s.runtime.pushed ++ [record]
        recordIds := s.runtime.recordIds + 1
        emitCount := s.runtime.emitCount + 1 } ∧
      (s'.threads 1).pc = (if s.runtime.emitCount % trimInterval = 0 then .due record scope
        else .writing record scope) ∧
      s'.runtime.journal.WF ∧
      s'.runtime.journal.records.length = s.runtime.journal.records.length + 1 := by
  obtain ⟨⟨j, id, record, scope⟩, hj⟩ := Journal.recordNoWriteInScope_ok h.journal hroom .info "lap"
    .new (s.threads 1).currentScope 0
  obtain ⟨records, hbuffer, hwf, hrecords, -⟩ := Journal.recordNoWriteInScope_inv h.journal hj
  have hact : s.runtime.act (s.threads 1) (.emit .info "lap" .new 0) =
      some ({ s.runtime with
        journal := j
        pushed := s.runtime.pushed ++ [record]
        recordIds := s.runtime.recordIds + 1 },
        { s.threads 1 with pc := .recorded record scope }) := by
    rw [act_of_user h.user (by rintro ⟨⟩)]
    show s.runtime.emit _ _ _ _ _ = _
    rw [Runtime.emit, hj]
    rfl
  obtain ⟨s₁, hreach, hr₁, ht₁⟩ := Reaches.act hact
  subst hbuffer
  have hcount : s₁.runtime.act (s₁.threads 1) .next =
      some ({ s.runtime with
        journal := { s.runtime.journal with
          nextRecordId := s.runtime.journal.nextRecordId + 1
          buffer := { s.runtime.journal.buffer with records } }
        pushed := s.runtime.pushed ++ [record]
        recordIds := s.runtime.recordIds + 1
        emitCount := s.runtime.emitCount + 1 },
        { s.threads 1 with
          pc := if s.runtime.emitCount % trimInterval = 0 then .due record scope
            else .writing record scope }) := by
    rw [hr₁, ht₁]
    rfl
  obtain ⟨s₂, hreach₂, hr₂, ht₂⟩ := Reaches.act hcount
  refine ⟨s₂, record, scope, records, hreach.trans hreach₂, hr₂, by rw [ht₂], ?_, ?_⟩
  · rw [hr₂]
    exact ⟨hwf, h.journal.scopes⟩
  · rw [hr₂]
    show records.entries.length = _
    rw [hrecords, List.length_append]
    rfl

/-- A trim that is due keeps one record and one closed scope. -/
theorem trims {record : Record} {scope : Option Scope} (hwf : s.runtime.journal.WF)
    (hcap : s.runtime.maxJournalRecords = 1) (hpc : (s.threads 1).pc = .due record scope) :
    ∃ s' j, Reaches s s' ∧ s'.runtime = { s.runtime with journal := j } ∧
      (s'.threads 1).pc = .writing record scope ∧ j.WF ∧
      j.nextScopeId = s.runtime.journal.nextScopeId ∧ j.records.length ≤ 1 ∧
      j.retained = dropFirst Scopes.isClosed
        (s.runtime.journal.retained.countP Scopes.isClosed - 1) s.runtime.journal.retained := by
  have hread : s.runtime.act (s.threads 1) .next =
      some (s.runtime, { s.threads 1 with pc := .trimming 1 record scope }) := by
    simp only [Runtime.act, Runtime.next, hpc, hcap]
  obtain ⟨s₁, hreach, hr₁, ht₁⟩ := Reaches.act hread
  obtain ⟨j₁, j₂, hj₁, hj₂⟩ := Journal.trim_ok hwf 1
  obtain ⟨hwf₂, hnext, hlength, hret⟩ := Journal.trim_inv hwf hj₁ hj₂
  have htrim : s₁.runtime.act (s₁.threads 1) .next = some ({ s.runtime with journal := j₂ },
      { s.threads 1 with pc := .writing record scope }) := by
    rw [ht₁, hr₁]
    show s.runtime.trim _ 1 _ _ = _
    rw [Runtime.trim, hj₁]
    show (j₁.trimScopes 1).toOption.bind _ = _
    rw [hj₂]
    rfl
  obtain ⟨s₂, hreach₂, hr₂, ht₂⟩ := Reaches.act htrim
  exact ⟨s₂, j₂, hreach.trans hreach₂, hr₂, by rw [ht₂], hwf₂, hnext, hlength, hret⟩

/-- A record is emitted; the first of every 128 emits trims. -/
theorem emit (h : AtRest s) (hroom : s.runtime.journal.records.length < usizeMax) :
    ∃ s', Reaches s s' ∧ AtRest s' ∧
      s'.runtime.journal.nextScopeId = s.runtime.journal.nextScopeId ∧
      s'.runtime.emitCount = s.runtime.emitCount + 1 ∧
      if s.runtime.emitCount % trimInterval = 0 then
        s'.runtime.journal.records.length ≤ 1 ∧
          s'.runtime.journal.retained = dropFirst Scopes.isClosed
            (s.runtime.journal.retained.countP Scopes.isClosed - 1) s.runtime.journal.retained
      else
        s'.runtime.journal.records.length = s.runtime.journal.records.length + 1 ∧
          s'.runtime.journal.retained = s.runtime.journal.retained := by
  obtain ⟨s₁, record, scope, records, hreach, hr₁, hpc, hwf, hlength⟩ := h.pushes hroom
  by_cases hdue : s.runtime.emitCount % trimInterval = 0
  · rw [if_pos hdue] at hpc
    obtain ⟨s₂, j, hreach₂, hr₂, hpc₂, hwf₂, hnext, hfew, hret⟩ :=
      trims hwf (by rw [hr₁]; exact h.cap) hpc
    rw [hr₁] at hr₂ hnext hret
    obtain ⟨s₃, hreach₃, h₃, hjournal, hcount⟩ := h.writes hpc₂ (by rw [hr₂]; exact hwf₂)
      (by rw [hr₂]) (by rw [hr₂]) (by rw [hr₂])
    rw [hr₂] at hjournal hcount
    refine ⟨s₃, hreach.trans (hreach₂.trans hreach₃), h₃, ?_, hcount, ?_⟩
    · rw [hjournal]
      exact hnext
    · rw [if_pos hdue, hjournal]
      exact ⟨hfew, hret⟩
  · rw [if_neg hdue] at hpc
    obtain ⟨s₂, hreach₂, h₂, hjournal, hcount⟩ := h.writes hpc hwf (by rw [hr₁]) (by rw [hr₁])
      (by rw [hr₁])
    refine ⟨s₂, hreach.trans hreach₂, h₂, ?_, ?_, ?_⟩
    · rw [hjournal, hr₁]
    · rw [hcount, hr₁]
    · rw [if_neg hdue, hjournal]
      refine ⟨hlength, ?_⟩
      rw [hr₁]
      rfl

theorem emitCount_mod (count : UInt64) : count % trimInterval = 0 ↔ count.toNat % 128 = 0 := by
  rw [← UInt64.toNat_inj, UInt64.toNat_mod]
  rfl

theorem emitCount_succ (count : UInt64) : (count + 1).toNat % 128 = (count.toNat + 1) % 128 := by
  rw [UInt64.toNat_add]
  have hone : (1 : UInt64).toNat = 1 := rfl
  omega

/-- The emits up to the next that trims. -/
theorem emits (h : AtRest s) {n k : ℕ} (hcount : s.runtime.emitCount.toNat % 128 = k) (hk : 0 < k)
    (hn : k + n = 128) (hroom : s.runtime.journal.records.length + n < usizeMax) :
    ∃ s', Reaches s s' ∧ AtRest s' ∧
      s'.runtime.journal.nextScopeId = s.runtime.journal.nextScopeId ∧
      s'.runtime.emitCount.toNat % 128 = 0 ∧
      s'.runtime.journal.records.length = s.runtime.journal.records.length + n ∧
      s'.runtime.journal.retained = s.runtime.journal.retained := by
  induction n generalizing s k with
  | zero => omega
  | succ n ih =>
    obtain ⟨s₁, hreach, h₁, hnext, hcount₁, hemit⟩ := h.emit (by omega)
    rw [if_neg (by rw [emitCount_mod]; omega)] at hemit
    obtain ⟨hrecords, hret⟩ := hemit
    have hmod : s₁.runtime.emitCount.toNat % 128 = (k + 1) % 128 := by
      rw [hcount₁, emitCount_succ]
      omega
    by_cases hlast : n = 0
    · subst hlast
      exact ⟨s₁, hreach, h₁, hnext, by omega, hrecords, hret⟩
    · obtain ⟨s₂, hreach', h₂, hnext', hcount', hrecords', hret'⟩ :=
        ih h₁ (hmod.trans (Nat.mod_eq_of_lt (by omega))) (by omega) (by omega) (by omega)
      exact ⟨s₂, hreach.trans hreach', h₂, hnext'.trans hnext, hcount', by omega, hret'.trans hret⟩

end AtRest

/-- The thread has entered scope 0, which is open, and has entered and exited
    the scopes up to `k`. -/
structure Lapping (k : ℕ) (s : Process) : Prop where
  rest : AtRest s
  next : s.runtime.journal.nextScopeId = UInt64.ofNat k
  count : s.runtime.emitCount.toNat % 128 = 0
  records : s.runtime.journal.records.length ≤ 128
  scopes : ∃ b later, s.runtime.journal.retained = b :: later ∧ b.scope.id = ⟨0⟩ ∧
    Scopes.isClosed b = false ∧ later.length ≤ 1 ∧
    ∀ c ∈ later, Scopes.isClosed c = true ∧ c.scope.id.n.toNat < k

namespace Lapping

variable {k : ℕ} {s : Process}

/-- **A lap**: a scope is entered and exited, then 128 records are emitted; the
    first of these trims, so that no more is retained than before. -/
theorem lap (h : Lapping k s) (hk : 0 < k) (hlt : k < 2 ^ 64) :
    ∃ s', Reaches s s' ∧ Lapping (k + 1) s' := by
  obtain ⟨b, later, hret, hid, hopen, hfew, hlater⟩ := h.scopes
  have hrecords := h.records
  have hmax : usizeMax = 2 ^ 64 - 1 := rfl
  have hnat : (UInt64.ofNat k).toNat = k := UInt64.toNat_ofNat_of_lt' hlt
  obtain ⟨s₁, new, hreach₁, h₁, hnext₁, hcount₁, hrecords₁, hret₁, hnew, hnewOpen⟩ :=
    h.rest.enter (by rw [hret, List.length_cons]; omega)
  rw [h.next] at hnew hnext₁
  have hfirst : ∀ c ∈ b :: later, c.scope.id ≠ new.scope.id := by
    intro c hc heq
    have hn := congrArg (fun id => id.n.toNat) (heq.trans hnew)
    simp only [hnat] at hn
    rcases List.mem_cons.1 hc with rfl | hc
    · rw [hid] at hn
      exact absurd hn (by show 0 ≠ k; omega)
    · have hold := (hlater c hc).2
      omega
  obtain ⟨s₂, closed, hreach₂, h₂, hnext₂, hcount₂, hrecords₂, hret₂, hclosedId, hclosed⟩ :=
    h₁.exit (hret₁.trans (by rw [hret])) hfirst hnewOpen (by omega)
  obtain ⟨s₃, hreach₃, h₃, hnext₃, hcount₃, hemit⟩ := h₂.emit (by omega)
  rw [hcount₂, hcount₁, if_pos ((AtRest.emitCount_mod _).2 h.count)] at hemit
  obtain ⟨hrecords₃, hret₃⟩ := hemit
  have hmod : s₃.runtime.emitCount.toNat % 128 = 1 := by
    rw [hcount₃, AtRest.emitCount_succ, hcount₂, hcount₁, Nat.add_mod, h.count]
  obtain ⟨s₄, hreach₄, h₄, hnext₄, hcount₄, hrecords₄, hret₄⟩ :=
    h₃.emits (n := 127) hmod (by omega) (by omega) (by omega)
  refine ⟨s₄, hreach₁.trans (hreach₂.trans (hreach₃.trans hreach₄)), h₄, ?_, hcount₄, by omega, ?_⟩
  · rw [hnext₄, hnext₃, hnext₂, hnext₁, UInt64.ofNat_add]
    rfl
  · -- the open scope stays first; of the closed ones the last stays
    have hall : ∀ c ∈ later ++ [closed], Scopes.isClosed c = true := by
      intro c hc
      rcases List.mem_append.1 hc with hc | hc
      · exact (hlater c hc).1
      · rw [List.mem_singleton.1 hc]
        exact hclosed
    have hcountP : (later ++ [closed]).countP Scopes.isClosed = later.length + 1 := by
      rw [List.countP_eq_length.2 hall, List.length_append]
      rfl
    have hkept : s₄.runtime.journal.retained =
        b :: dropFirst Scopes.isClosed later.length (later ++ [closed]) := by
      rw [hret₄, hret₃, hret₂, List.cons_append, List.countP_cons_of_neg (by simp [hopen]), hcountP,
        Nat.add_sub_cancel, dropFirst_cons_of_not hopen]
    have hsub := dropFirst_sublist (p := Scopes.isClosed) later.length (later ++ [closed])
    refine ⟨b, _, hkept, hid, hopen, ?_, ?_⟩
    · have hcount := countP_dropFirst (p := Scopes.isClosed) later.length (later ++ [closed])
      rw [List.countP_eq_length.2 fun c hc => hall c (hsub.subset hc), hcountP] at hcount
      omega
    · intro c hc
      refine ⟨hall c (hsub.subset hc), ?_⟩
      rcases List.mem_append.1 (hsub.subset hc) with hc | hc
      · exact (hlater c hc).2.trans (Nat.lt_succ_self k)
      · rw [List.mem_singleton.1 hc, hclosedId, hnew]
        show (UInt64.ofNat k).toNat < k + 1
        omega

theorem laps (h : Lapping k s) (hk : 0 < k) (n : ℕ) (hn : k + n ≤ 2 ^ 64) :
    ∃ s', Reaches s s' ∧ Lapping (k + n) s' := by
  induction n with
  | zero => exact ⟨s, .refl s, h⟩
  | succ n ih =>
    obtain ⟨s₁, hreach, h₁⟩ := ih (by omega)
    obtain ⟨s₂, hreach', h₂⟩ := h₁.lap (by omega) (by omega)
    exact ⟨s₂, hreach.trans hreach', h₂⟩

end Lapping

/-! ## The exit that is missed -/

/-- What thread 1 does before there is a wrapper. -/
theorem run_others {T : Type} {x : Wrapping T} {w : World T} {s : Process} {acts : List Act}
    (hpoint : w.point = .absent) (hentered : w.entered = none)
    (h : Machine.run Process.step w.process (acts.map (.call 1)) = some s) :
    ∃ panics, Machine.run (World.step x) w (acts.map fun a => .other (.call 1 a)) =
        some { w with process := s, panics } ∧
      Machine.Meets (World.step x) World.Spares w (acts.map fun a => .other (.call 1 a)) := by
  induction acts generalizing w with
  | nil =>
    obtain rfl := Option.some.inj h
    exact ⟨w.panics, rfl, trivial⟩
  | cons a acts ih =>
    rw [List.map_cons, Machine.run_cons_eq_some] at h
    obtain ⟨s₁, hs₁, hs⟩ := h
    have hstep : w.step x (.other (.call 1 a)) =
        some { w with process := s₁, panics := w.panicsAfter (.call 1 a) } := by
      simp only [World.step, World.userStep, World.permits, hpoint, Point.runs]
      rw [if_pos (by simp), hs₁]
      rfl
    obtain ⟨panics, hrun, hmeets⟩ :=
      ih (w := { w with process := s₁, panics := w.panicsAfter (.call 1 a) }) hpoint hentered hs
    refine ⟨panics, ?_, ?_, fun t ht => ?_⟩
    · rw [List.map_cons, Machine.run_cons_eq_some]
      exact ⟨_, hstep, hrun⟩
    · cases a with
      | clear => exact hentered
      | exitScope => simp [World.Spares, hentered]
      | _ => trivial
    · obtain rfl := Option.some.inj (hstep.symm.trans ht)
      exact hmeets

/-- A wrapper whose future completes at once, and that is dropped then. -/
def completed : List (Move Unit) :=
  [.create 0, .poll 0, .enter 0 0, .next, .ready (), .dropped, .exit 0 0 0, .leave, .drop 0, .leave]

/-- What a process is for thread 0 and future 0. -/
structure View (s : Process) (r : Runtime) (th : Thread) (future : Option Wrapper) : Prop where
  runtime : s.runtime = r
  thread : s.threads 0 = th
  future : s.futures 0 = future

namespace View

variable {s : Process} {r r' : Runtime} {th th' : Thread} {stack stored : List ScopeId}
  {frames : List InstalledContext} {panicked : Bool} {future : Option Wrapper}

theorem wrap (h : View s r ⟨.user, stack, frames, panicked⟩ none) :
    ∃ s', s.wrap 0 0 true = some s' ∧
      View s' r ⟨.user, stack, frames, panicked⟩ (some ⟨stack, false⟩) := by
  simp only [Process.wrap, h.thread, h.future]
  exact ⟨_, rfl, h.runtime, h.thread, by simp⟩

theorem install (h : View s r ⟨.user, stack, frames, panicked⟩ (some ⟨stored, false⟩)) :
    ∃ s', s.install 0 0 = some s' ∧
      View s' r ⟨.user, stored, ⟨0, stack⟩ :: frames, panicked⟩ (some ⟨stack, true⟩) := by
  simp only [Process.install, h.thread, h.future]
  exact ⟨_, rfl, h.runtime, by simp, by simp⟩

theorem uninstall {before : List ScopeId} {installed : Bool} (dropped : Bool)
    (h : View s r ⟨.user, stack, ⟨0, before⟩ :: frames, panicked⟩ (some ⟨stored, installed⟩)) :
    ∃ s', s.uninstall 0 dropped = some s' ∧
      View s' r ⟨.user, stored, frames, panicked⟩ (if dropped then none else some ⟨stack, false⟩) := by
  simp only [Process.uninstall, h.thread, h.future]
  exact ⟨_, rfl, h.runtime, by simp, by simp⟩

theorem call {a : Act} (h : View s r th future) (hact : r.act th a = some (r', th')) :
    ∃ s', s.call 0 a = some s' ∧ View s' r' th' future := by
  obtain ⟨s', hs, hr, hthreads⟩ := Process.call_ok (s := s) (t := 0) (a := a)
    (by rw [h.runtime, h.thread]; exact hact)
  obtain ⟨-, -, -, -, -, hfutures, -⟩ := Process.call_inv hs
  exact ⟨s', hs, hr, by rw [hthreads, Function.update_self], by rw [hfutures, h.future]⟩

end View

/-- The first scope with the next id is closed. -/
structure Stale (s : Process) : Prop where
  rest : AtRest s
  room : s.runtime.journal.retained.length < usizeMax
  records : s.runtime.journal.records.length < usizeMax
  found : ∃ b, s.runtime.journal.retained.find?
      (Scopes.hasId ⟨s.runtime.journal.nextScopeId⟩) = some b ∧ Scopes.isClosed b = true
  thread : s.threads 0 = ⟨.user, [], [], false⟩
  future : s.futures 0 = none

/-- The calls of the wrapper find nothing to exit, and push nothing. -/
theorem Stale.calls {s : Process} (h : Stale s) : ∃ r₁ r₂ id,
    s.runtime.act ⟨.user, [], [⟨0, []⟩], false⟩ (.enterScope "request" 0 0) =
      some (r₁, ⟨.entered id, [id], [⟨0, []⟩], false⟩) ∧
    r₁.act ⟨.entered id, [id], [⟨0, []⟩], false⟩ .next =
      some (r₁, ⟨.user, [id], [⟨0, []⟩], false⟩) ∧
    r₁.act ⟨.user, [id], [⟨0, []⟩], false⟩ (.exitScope id .success 0 0 0) =
      some (r₂, ⟨.user, [], [⟨0, []⟩], false⟩) ∧
    r₂.pushed = s.runtime.pushed := by
  obtain ⟨b, hfind, hclosed⟩ := h.found
  obtain ⟨j₁, hj₁⟩ := Journal.pushScope_ok h.rest.journal h.room (some "request") none 0 0
  obtain ⟨hwf, -, hret, hrecords, -⟩ := Journal.pushScope_inv h.rest.journal hj₁
  obtain ⟨⟨j₂, rid, payload⟩, hj₂⟩ := Journal.exitScopeNoWrite_ok hwf
    (show j₁.buffer.records.snapshot.length < usizeMax by rw [hrecords]; exact h.records)
    ⟨s.runtime.journal.nextScopeId⟩ .success 0 0 0
  obtain ⟨-, -, -, -, -, -, -, hcase⟩ := Journal.exitScopeNoWrite_inv hwf hj₂
  rw [hret, List.find?_append, hfind, Option.some_or, Option.bind_some, Scopes.exitOf,
    if_pos hclosed] at hcase
  obtain ⟨rfl, -⟩ := hcase
  obtain ⟨lives, henter⟩ : ∃ lives,
      s.runtime.act ⟨.user, [], [⟨0, []⟩], false⟩ (.enterScope "request" 0 0) =
        some ({ s.runtime with journal := j₁, lives }, ⟨.entered ⟨s.runtime.journal.nextScopeId⟩,
          [⟨s.runtime.journal.nextScopeId⟩], [⟨0, []⟩], false⟩) := by
    show ∃ lives, s.runtime.enterScope _ _ _ _ = some _
    rw [Runtime.enterScope, Journal.enterScopeWithParent]
    show ∃ lives, (s.runtime.journal.pushScope _ none _ _).toOption.bind _ = some _
    rw [hj₁]
    exact ⟨_, rfl⟩
  refine ⟨_, { s.runtime with journal := j₂, lives, recordIds := s.runtime.recordIds + 1 }, _, henter,
    ?_, ?_, rfl⟩
  · show Runtime.lockWriter _ _ _ = _
    rw [Runtime.lockWriter, if_neg (by simp [h.rest.unlocked]), if_neg (by simp [h.rest.unwanted])]
  · show Runtime.exitScope _ _ _ _ _ _ _ = _
    rw [Runtime.exitScope, hj₂]
    simp [Except.toOption, removeScopeFromStack]

/-- The exit of the wrapper finds nothing. -/
theorem Stale.misses {w : World Unit} (h : Stale w.process) (hpoint : w.point = .absent) :
    ∃ w', Machine.run (World.step (scopeAsync 0 "request")) w completed = some w' ∧
      w'.point = .gone ∧ w'.polls = w.polls + 1 ∧ w'.exits = [] := by
  obtain ⟨r₁, r₂, id, henter, hnext, hexit, hpushed⟩ := h.calls
  obtain ⟨s₁, hs₁, h₁⟩ := View.wrap ⟨rfl, h.thread, h.future⟩
  obtain ⟨s₂, hs₂, h₂⟩ := h₁.install
  obtain ⟨s₃, hs₃, h₃⟩ := h₂.call henter
  obtain ⟨s₄, hs₄, h₄⟩ := h₃.call hnext
  obtain ⟨s₅, hs₅, h₅⟩ := h₄.call hexit
  obtain ⟨s₆, hs₆, h₆⟩ := h₅.uninstall false
  obtain ⟨s₇, hs₇, h₇⟩ := h₆.install
  obtain ⟨s₈, hs₈, h₈⟩ := h₇.uninstall true
  -- the world after it was polled, after it entered its scope, and after its end
  let depth := w.panics 0
  let polled : World Unit := { w with polls := w.polls + 1 }
  let entered : World Unit := { polled with
    calls := w.calls ++ [.enterScope "request" 0 0]
    entered := some (id, s₂.runtime.pushed.length) }
  let ended : World Unit := { entered with ending := some (.completed ()), produced := some () }
  let exited : World Unit := { ended with
    calls := entered.calls ++ [.exitScope id .success 0 0 0] }
  have hcreate : w.step (scopeAsync 0 "request") (.create 0) =
      some { w with process := s₁, point := .idle .unresumed } := by
    simp only [World.step, World.userStep, hpoint]
    rw [show w.process.wrap 0 (scopeAsync 0 "request" : Wrapping Unit).future true = _ from hs₁]
    rfl
  have hpoll : World.step (scopeAsync 0 "request") { w with process := s₁, point := .idle .unresumed }
      (.poll 0) = some { polled with process := s₂, point := .entering 0 depth } := by
    show (s₁.install 0 0).map _ = _
    rw [hs₂]
    rfl
  have henters : World.step (scopeAsync 0 "request")
      { polled with process := s₂, point := .entering 0 depth } (.enter 0 0) =
        some { entered with process := s₃, point := .waiting 0 depth id } := by
    show (s₂.call 0 (.enterScope "request" 0 0)).bind _ = _
    rw [hs₃]
    simp only [Option.bind_some, h₃.thread]
    rfl
  have hawaits : World.step (scopeAsync 0 "request")
      { entered with process := s₃, point := .waiting 0 depth id } .next =
        some { entered with process := s₄, point := .polling 0 depth ⟨⟨id, false⟩⟩ } := by
    show (s₃.call 0 .next).bind _ = _
    rw [hs₄]
    simp [lookupFails, h₃.thread, h₄.thread, Pc.isUser]
  have hback : ∀ u : World Unit, u.process = s₄ → u.panics = w.panics →
      u.isBack (scopeAsync 0 "request") 0 depth = true := by
    intro u hprocess hpanics
    simp [World.isBack, World.running, hprocess, h₄.thread, hpanics, Pc.isUser, scopeAsync, depth]
  have hready : World.step (scopeAsync 0 "request")
      { entered with process := s₄, point := .polling 0 depth ⟨⟨id, false⟩⟩ } (.ready ()) =
        some { entered with
          process := s₄
          point := .completing 0 depth ⟨⟨id, false⟩⟩ ()
          produced := some () } :=
    if_pos (hback { entered with process := s₄, point := .polling 0 depth ⟨⟨id, false⟩⟩ } rfl rfl)
  have hdropped : World.step (scopeAsync 0 "request")
      { entered with
        process := s₄
        point := .completing 0 depth ⟨⟨id, false⟩⟩ ()
        produced := some () } .dropped =
        some { ended with process := s₄, point := .leaving 0 [(id, .success)] (.ready ()) } :=
    if_pos (hback { entered with
      process := s₄
      point := .completing 0 depth ⟨⟨id, false⟩⟩ ()
      produced := some () } rfl rfl)
  have hexits : World.step (scopeAsync 0 "request")
      { ended with process := s₄, point := .leaving 0 [(id, .success)] (.ready ()) } (.exit 0 0 0) =
        some { exited with process := s₅, point := .leaving 0 [] (.ready ()) } := by
    show (s₄.call 0 (.exitScope id .success 0 0 0)).bind _ = _
    rw [hs₅]
    rfl
  have hreturns : World.step (scopeAsync 0 "request")
      { exited with process := s₅, point := .leaving 0 [] (.ready ()) } .leave =
        some { exited with process := s₆, point := .idle .returned, returned := some () } := by
    show (s₅.uninstall 0 false).map _ = _
    rw [hs₆]
    rfl
  have hdrop : World.step (scopeAsync 0 "request")
      { exited with process := s₆, point := .idle .returned, returned := some () } (.drop 0) =
        some { exited with process := s₇, point := .leaving 0 [] .dropped, returned := some () } := by
    show (s₆.install 0 0).map _ = _
    rw [hs₇]
    rfl
  have hgone : World.step (scopeAsync 0 "request")
      { exited with process := s₇, point := .leaving 0 [] .dropped, returned := some () } .leave =
        some { exited with process := s₈, point := .gone, returned := some () } := by
    show (s₇.uninstall 0 true).map _ = _
    rw [hs₈]
    rfl
  refine ⟨{ exited with process := s₈, point := .gone, returned := some () }, ?_, rfl, rfl, ?_⟩
  · simp only [completed, Machine.run_cons_eq_some]
    exact ⟨_, hcreate, _, hpoll, _, henters, _, hawaits, _, hready, _, hdropped, _, hexits, _,
      hreturns, _, hdrop, _, hgone, rfl⟩
  · show exitsOf id (s₈.runtime.pushed.drop s₂.runtime.pushed.length) = []
    rw [h₈.runtime, hpushed, h₂.runtime, List.drop_length]
    rfl

/-- Thread 1 goes round all ids, and then exits scope 0. -/
theorem reaches_stale : ∃ s, Reaches (.new "run" false 1) s ∧ Stale s := by
  obtain ⟨s₀, hreach₀, h₀⟩ : ∃ s, Reaches (.new "run" false 1) s ∧ Lapping 1 s := by
    have hnew : AtRest (.new "run" false 1) := ⟨Journal.new_wf _, rfl, rfl, rfl, rfl⟩
    obtain ⟨s, b, hreach, h, hnext, hcount, hrecords, hret, hid, hopen⟩ := hnew.enter (by decide)
    refine ⟨s, hreach, h, hnext, ?_, ?_, b, [], hret, hid, hopen, Nat.zero_le 1, by simp⟩
    · rw [hcount]
      rfl
    · rw [hrecords]
      exact Nat.zero_le 128
  obtain ⟨s₁, hreach₁, h₁⟩ := h₀.laps (by omega) (2 ^ 64 - 1) (by omega)
  obtain ⟨b, later, hret, hid, hopen, hfew, -⟩ := h₁.scopes
  have hrecords := h₁.records
  have hmax : usizeMax = 2 ^ 64 - 1 := rfl
  obtain ⟨s₂, closed, hreach₂, h₂, hnext, -, hrecords₂, hret₂, hclosedId, hclosed⟩ :=
    h₁.rest.exit (show _ = [] ++ b :: later from hret) (by simp) hopen (by omega)
  have hreach := hreach₀.trans (hreach₁.trans hreach₂)
  refine ⟨s₂, hreach, h₂, ?_, by omega, ⟨closed, ?_, hclosed⟩, hreach.thread, ?_⟩
  · rw [hret₂, List.nil_append, List.length_cons]
    omega
  · rw [hret₂, List.nil_append, hnext, h₁.next]
    refine List.find?_cons_of_pos ?_
    rw [Scopes.hasId, hclosedId, hid]
    rfl
  · rw [hreach.futures]
    rfl

/-- User code that leaves the scope alone is not enough: after 2⁶⁴ scopes the
    scope of a wrapper has the id of one that has exited and is retained, and the
    exit of the wrapper is lost. -/
theorem async_scope_misses_exit : ¬ ∀ (moves : List (Move Unit)) (w : World Unit),
    Machine.run (World.step (scopeAsync 0 "request")) (World.new "run" false 1) moves = some w →
    Machine.Meets (World.step (scopeAsync 0 "request")) World.Spares (World.new "run" false 1) moves →
    w.ExitsOnce fun _ => .success := by
  intro hall
  obtain ⟨s, hreach, hstale⟩ := reaches_stale
  obtain ⟨acts, hacts⟩ := hreach.run
  obtain ⟨panics, hrun, hmeets⟩ := run_others (x := scopeAsync 0 "request")
    (w := World.new "run" false 1) rfl rfl hacts
  obtain ⟨w, hw, hgone, hpolls, hexits⟩ := Stale.misses
    (w := { (World.new "run" false 1 : World Unit) with process := s, panics }) hstale rfl
  have honce := hall _ w (Machine.run_append_eq_some.2 ⟨_, hrun, hw⟩) (Machine.meets_append.2
    ⟨hmeets, fun t ht => Machine.meets_of_forall fun m hm u => ?_⟩)
  · obtain ⟨ending, -, hexit⟩ := honce.gone hgone (by rw [hpolls]; omega)
    rw [hexits] at hexit
    cases hexit
  · simp only [completed, List.mem_cons, List.not_mem_nil, or_false] at hm
    rcases hm with rfl | rfl | rfl | rfl | rfl | rfl | rfl | rfl | rfl | rfl <;> trivial

end AsyncScope

end Eventline
