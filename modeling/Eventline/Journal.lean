/-
  The journal (`journal/mod.rs`): a buffer of records and scopes, the counters
  of ids and the current scope.

  The clocks are inputs: an operation gets the readings it makes.  The counters
  wrap at 2⁶⁴ (`fetch_add`).  An attached writer is the list of the calls it
  gets; their results are ignored by the code.

  * `Journal.WF`: both storages are well formed.
  * One lemma for each operation says what a call that returns has done to the
    records, the retained scopes and the counters.
-/
import Eventline.Buffer.Scopes

namespace Eventline

open Checked Slots

structure Buffer where
  records : Records
  scopes : Scopes

/-- `Buffer::new()`. -/
def Buffer.new : Buffer := ⟨.empty, .empty⟩

/-- `Buffer::clear`. -/
def Buffer.clear (b : Buffer) : Buffer := ⟨b.records.clear, b.scopes.clear⟩

/-- A call of the trait `Writer`. -/
inductive WriterCall where
  | scope (scope : Scope)
  | record (record : Record) (scope : Option Scope)
  deriving DecidableEq

/-- An attached writer: whether it wants scope metadata, and its calls so far. -/
structure AttachedWriter where
  wantsScopeMetadata : Bool
  calls : List WriterCall

def AttachedWriter.call (w : AttachedWriter) (c : WriterCall) : AttachedWriter :=
  { w with calls := w.calls ++ [c] }

structure Journal where
  runId : String
  buffer : Buffer
  writer : Option AttachedWriter
  nextScopeId : UInt64
  nextRecordId : UInt64
  currentScope : Option ScopeId

namespace Journal

/-- `Journal::new()`, with the run id that `new_run_id` gives it. -/
def new (runId : String) : Journal := ⟨runId, .new, none, 0, 0, none⟩

/-- `Journal::set_writer`. -/
def setWriter (j : Journal) (writer : AttachedWriter) : Journal :=
  { j with
    writer := some <| if writer.wantsScopeMetadata then
      { writer with calls := writer.calls ++ j.buffer.scopes.snapshot.map .scope } else writer }

def records (j : Journal) : List Record := j.buffer.records.snapshot

def scopes (j : Journal) : List Scope := j.buffer.scopes.snapshot

def getScope (j : Journal) (id : ScopeId) : Checked (Option Scope) :=
  j.buffer.scopes.getScopeById id

/-- The call of `write_scope_metadata` on a writer that is there. -/
def writeScopeTo (j : Journal) (id : ScopeId) (w : AttachedWriter) : Checked Journal :=
  if w.wantsScopeMetadata then do
    let found ← j.getScope id
    let scope ← expect "new scope is retained" found
    pure { j with writer := some (w.call (.scope scope)) }
  else pure j

def writeScopeMetadata (j : Journal) (id : ScopeId) : Checked Journal :=
  match j.writer with
  | none => pure j
  | some w => j.writeScopeTo id w

/-- The part that `enter_scope_with_parent` and `enter_scope_unnamed` share. -/
def pushScope (j : Journal) (name : Option String) (parent : Option ScopeId)
    (startedAt : Instant) (millis : UInt64) : Checked (Journal × ScopeId) := do
  let id : ScopeId := ⟨j.nextScopeId⟩
  let scope : Scope := ⟨id, parent, millis, name, none, .none⟩
  let scopes ← j.buffer.scopes.push ⟨scope, some ⟨startedAt, none⟩⟩
  let j := { j with nextScopeId := j.nextScopeId + 1, buffer := { j.buffer with scopes } }
  let j ← j.writeScopeMetadata id
  pure (j, id)

def enterScopeWithParent (j : Journal) (name : String) (parent : Option ScopeId)
    (startedAt : Instant) (millis : UInt64) : Checked (Journal × ScopeId) :=
  j.pushScope (some name) parent startedAt millis

def enterScope (j : Journal) (name : String) (startedAt : Instant) (millis : UInt64) :
    Checked (Journal × ScopeId) := do
  let (j, id) ← j.enterScopeWithParent name j.currentScope startedAt millis
  pure ({ j with currentScope := some id }, id)

def enterScopeUnnamed (j : Journal) (parent : Option ScopeId) (startedAt : Instant)
    (millis : UInt64) : Checked (Journal × ScopeId) := do
  let (j, id) ← j.pushScope none (parent.or j.currentScope) startedAt millis
  pure ({ j with currentScope := some id }, id)

def setScopeExitMessages (j : Journal) (id : ScopeId) (msgs : ExitMessages) :
    Checked (Journal × Bool) := do
  let (scopes, found) ← j.buffer.scopes.setScopeExitMessages id msgs
  pure ({ j with buffer := { j.buffer with scopes } }, found)

/-- The scope that a new record names, if it is retained. -/
def scopeOf (j : Journal) : Option ScopeId → Checked (Option Scope)
  | none => pure none
  | some sid => j.getScope sid

def recordNoWriteInScope (j : Journal) (kind : EventKind) (name : String) (fields : Fields)
    (scopeId : Option ScopeId) (nanos : UInt64) :
    Checked (Journal × RecordId × Record × Option Scope) := do
  let id : RecordId := ⟨j.nextRecordId⟩
  let record : Record := ⟨id, scopeId, nanos, .event kind name fields⟩
  let scope ← j.scopeOf scopeId
  let records ← j.buffer.records.push record
  pure ({ j with nextRecordId := j.nextRecordId + 1, buffer := { j.buffer with records } },
    id, record, scope)

def recordNoWrite (j : Journal) (kind : EventKind) (name : String) (fields : Fields)
    (nanos : UInt64) : Checked (Journal × RecordId × Record × Option Scope) :=
  j.recordNoWriteInScope kind name fields j.currentScope nanos

/-- What `exit_scope_no_write` does with the scope it has closed. -/
def pushExit (j : Journal) (id : RecordId) (scopeId : ScopeId) (outcome : Outcome)
    (nanos : UInt64) (scope : Scope) (elapsed : Duration) :
    Checked (Journal × RecordId × Option (Record × Scope)) := do
  let record : Record := ⟨id, some scopeId, nanos, .scopeExit outcome (durationNanos elapsed)⟩
  let records ← j.buffer.records.push record
  pure ({ j with
      buffer := { j.buffer with records }
      currentScope := if some scopeId = j.currentScope then scope.parent else j.currentScope },
    id, some (record, scope))

def exitScopeNoWrite (j : Journal) (scopeId : ScopeId) (outcome : Outcome) (finishedAt : Instant)
    (millis nanos : UInt64) : Checked (Journal × RecordId × Option (Record × Scope)) := do
  let id : RecordId := ⟨j.nextRecordId⟩
  let (scopes, closed) ← j.buffer.scopes.finalizeScopeExitAt scopeId millis finishedAt
  let j := { j with nextRecordId := j.nextRecordId + 1, buffer := { j.buffer with scopes } }
  match closed with
  | some (scope, elapsed) => j.pushExit id scopeId outcome nanos scope elapsed
  | none => pure (j, id, none)

/-- A `write_record` on the attached writer, if there is one. -/
def writeRecord (j : Journal) (record : Record) (scope : Option Scope) : Journal :=
  { j with writer := j.writer.map (·.call (.record record scope)) }

def record (j : Journal) (kind : EventKind) (name : String) (fields : Fields) (nanos : UInt64) :
    Checked (Journal × RecordId) := do
  let (j, id, record, scope) ← j.recordNoWrite kind name fields nanos
  pure (j.writeRecord record scope, id)

/-- The write at the end of `Journal::exit_scope`. -/
def writeExit (j : Journal) : Option (Record × Scope) → Journal
  | some (record, scope) => j.writeRecord record (some scope)
  | none => j

def exitScope (j : Journal) (scopeId : ScopeId) (outcome : Outcome) (finishedAt : Instant)
    (millis nanos : UInt64) : Checked (Journal × RecordId) := do
  let (j, id, payload) ← j.exitScopeNoWrite scopeId outcome finishedAt millis nanos
  pure (j.writeExit payload, id)

def trimRecords (j : Journal) (max : ℕ) : Checked Journal := do
  let records ← j.buffer.records.trim max
  pure { j with buffer := { j.buffer with records } }

def trimScopes (j : Journal) (max : ℕ) : Checked Journal := do
  let scopes ← j.buffer.scopes.trim max
  pure { j with buffer := { j.buffer with scopes } }

/-- `Journal::scope_elapsed`, at an instant and a wall-clock time. -/
def scopeElapsed (j : Journal) (id : ScopeId) (now : Instant) (millis : UInt64) :
    Checked (Option Duration) :=
  j.buffer.scopes.getScopeElapsed id now millis

def clear (j : Journal) : Journal :=
  { j with buffer := j.buffer.clear, currentScope := none }

/-! ## What the operations do -/

/-- Both storages are well formed. -/
structure WF (j : Journal) : Prop where
  records : j.buffer.records.WF
  scopes : j.buffer.scopes.WF

/-- The scopes held, with their clocks. -/
def retained (j : Journal) : List BufferedScope := j.buffer.scopes.retained

/-- The first scope with the id is there and open: `exit_scope` closes it. -/
def isOpen (j : Journal) (id : ScopeId) : Bool :=
  (j.retained.find? (Scopes.hasId id)).any fun b => !Scopes.isClosed b

theorem scopes_eq (j : Journal) : j.scopes = j.retained.map (·.scope) := rfl

theorem new_wf (runId : String) : (new runId).WF := ⟨Records.empty_wf, Scopes.empty_wf⟩

theorem clear_wf (j : Journal) : j.clear.WF := ⟨Records.clear_wf _, Scopes.empty_wf⟩

theorem getScope_ok {j : Journal} (h : j.WF) (id : ScopeId) :
    j.getScope id = .ok (j.scopes.find? fun s => s.id = id) := by
  rw [getScope, Scopes.getScopeById_ok h.scopes, scopes_eq, List.find?_map]
  rfl

theorem scopeElapsed_ok {j : Journal} (h : j.WF) (id : ScopeId) (now : Instant) (millis : UInt64) :
    j.scopeElapsed id now millis =
      .ok ((j.retained.find? (Scopes.hasId id)).map fun b => b.elapsed now millis) := by
  rw [scopeElapsed, Scopes.getScopeElapsed, Scopes.get_ok h.scopes]
  rfl

section
variable {j j' : Journal} (h : j.WF)
include h

/-- The journal as it was, its attached writer apart. -/
theorem writeScopeMetadata_inv {id : ScopeId} (hw : j.writeScopeMetadata id = .ok j') :
    ∃ w, j' = { j with writer := w } := by
  unfold writeScopeMetadata at hw
  cases hwr : j.writer with
  | none =>
    simp only [hwr, pure_eq_ok, Except.ok.injEq] at hw
    exact ⟨none, by rw [← hw, ← hwr]⟩
  | some w =>
    simp only [hwr, writeScopeTo] at hw
    by_cases hwant : w.wantsScopeMetadata
    · rw [if_pos hwant, getScope_ok h, ok_bind, bind_eq_ok] at hw
      obtain ⟨scope, -, hw⟩ := hw
      exact ⟨_, (Except.ok.inj hw).symm⟩
    · rw [if_neg hwant] at hw
      exact ⟨some w, by rw [← Except.ok.inj hw, ← hwr]⟩

/-- The metadata of a scope that is held is written. -/
theorem writeScopeMetadata_ok {id : ScopeId} (hid : ∃ s ∈ j.scopes, s.id = id) :
    ∃ w, j.writeScopeMetadata id = .ok { j with writer := w } := by
  unfold writeScopeMetadata
  cases hwr : j.writer with
  | none => exact ⟨none, congrArg Except.ok (by rw [← hwr])⟩
  | some w =>
    simp only [writeScopeTo]
    by_cases hwant : w.wantsScopeMetadata
    · obtain ⟨s, hs, hsid⟩ := hid
      obtain ⟨found, hf⟩ : ∃ found, (j.scopes.find? fun s => s.id = id) = some found := by
        rw [← Option.isSome_iff_exists, List.find?_isSome]
        exact ⟨s, hs, by simpa using hsid⟩
      rw [if_pos hwant, getScope_ok h, ok_bind, hf]
      exact ⟨_, rfl⟩
    · rw [if_neg hwant]
      exact ⟨some w, congrArg Except.ok (by rw [← hwr])⟩

/-- **Entering appends an open scope** with the next id. -/
theorem pushScope_inv {name : Option String} {parent : Option ScopeId} {t : Instant} {ms : UInt64}
    {id : ScopeId} (he : j.pushScope name parent t ms = .ok (j', id)) :
    j'.WF ∧ id = ⟨j.nextScopeId⟩ ∧
      j'.retained = j.retained ++ [⟨⟨id, parent, ms, name, none, .none⟩, some ⟨t, none⟩⟩] ∧
      j'.buffer.records = j.buffer.records ∧ j'.nextScopeId = j.nextScopeId + 1 ∧
      j'.nextRecordId = j.nextRecordId ∧ j'.currentScope = j.currentScope ∧
      j'.runId = j.runId := by
  simp only [pushScope] at he
  obtain ⟨scopes, hs, he⟩ := bind_eq_ok.1 he
  obtain ⟨hwf, hr⟩ := Scopes.push_inv h.scopes hs
  obtain ⟨j₁, hj₁, he⟩ := bind_eq_ok.1 he
  obtain ⟨w, rfl⟩ := writeScopeMetadata_inv (by exact ⟨h.records, hwf⟩) hj₁
  obtain ⟨rfl, rfl⟩ : _ ∧ _ := by simpa using he
  exact ⟨⟨h.records, hwf⟩, rfl, hr, rfl, rfl, rfl, rfl, rfl⟩

theorem setScopeExitMessages_ok (id : ScopeId) (msgs : ExitMessages) :
    ∃ scopes found, j.setScopeExitMessages id msgs =
        .ok ({ j with buffer := { j.buffer with scopes } }, found) ∧ scopes.WF ∧
      scopes.retained = updateFirst (Scopes.hasId id) (·.setMessages msgs) j.retained := by
  obtain ⟨t, ht, hwf, hr⟩ := Scopes.setScopeExitMessages_ok h.scopes id msgs
  exact ⟨t, _, by rw [setScopeExitMessages, ht]; rfl, hwf, hr⟩

/-- Setting messages reports whether there is a scope with the id. -/
theorem setScopeExitMessages_found {id : ScopeId} {msgs : ExitMessages} {found : Bool}
    (he : j.setScopeExitMessages id msgs = .ok (j', found)) :
    found = (j.retained.find? (Scopes.hasId id)).isSome := by
  obtain ⟨t, ht, -⟩ := Scopes.setScopeExitMessages_ok h.scopes id msgs
  rw [setScopeExitMessages, ht] at he
  exact (Prod.mk.inj (Except.ok.inj he)).2.symm

theorem scopeOf_ok (scopeId : Option ScopeId) :
    j.scopeOf scopeId = .ok (scopeId.bind fun id => j.scopes.find? fun s => s.id = id) := by
  cases scopeId with
  | none => rfl
  | some id => exact getScope_ok h id

/-- **Recording appends a record** with the next id. -/
theorem recordNoWriteInScope_inv {kind : EventKind} {name : String} {fields : Fields}
    {scopeId : Option ScopeId} {ns : UInt64} {id : RecordId} {record : Record}
    {scope : Option Scope}
    (he : j.recordNoWriteInScope kind name fields scopeId ns = .ok (j', id, record, scope)) :
    ∃ records, j' = { j with nextRecordId := j.nextRecordId + 1,
                             buffer := { j.buffer with records } } ∧
      records.WF ∧ records.entries = j.records ++ [record] ∧ id = ⟨j.nextRecordId⟩ ∧
      record = ⟨id, scopeId, ns, .event kind name fields⟩ ∧
      scope = scopeId.bind fun id => j.scopes.find? fun s => s.id = id := by
  simp only [recordNoWriteInScope, scopeOf_ok h, ok_bind] at he
  obtain ⟨records, hr, he⟩ := bind_eq_ok.1 he
  obtain ⟨hwf, hents⟩ := Records.push_inv h.records hr
  simp only [pure_eq_ok, Except.ok.injEq, Prod.mk.injEq] at he
  obtain ⟨rfl, rfl, rfl, rfl⟩ := he
  exact ⟨records, rfl, hwf, hents, rfl, rfl, rfl⟩

/-- **Exiting closes the first scope with the id and appends its record**; it
    does nothing but take an id if there is no open one. -/
theorem exitScopeNoWrite_inv {scopeId : ScopeId} {outcome : Outcome} {t : Instant}
    {ms ns : UInt64} {id : RecordId} {payload : Option (Record × Scope)}
    (he : j.exitScopeNoWrite scopeId outcome t ms ns = .ok (j', id, payload)) :
    j'.WF ∧ id = ⟨j.nextRecordId⟩ ∧ j'.nextRecordId = j.nextRecordId + 1 ∧
      j'.nextScopeId = j.nextScopeId ∧ j'.runId = j.runId ∧ j'.writer = j.writer ∧
      j'.retained = updateFirst (Scopes.hasId scopeId) (Scopes.closeIfOpen ms t) j.retained ∧
      match (j.retained.find? (Scopes.hasId scopeId)).bind (Scopes.exitOf ms t) with
      | none => payload = none ∧ j'.records = j.records ∧ j'.currentScope = j.currentScope
      | some (scope, elapsed) => ∃ record, payload = some (record, scope) ∧
          record = ⟨id, some scopeId, ns, .scopeExit outcome (durationNanos elapsed)⟩ ∧
          j'.records = j.records ++ [record] ∧
          j'.currentScope =
            if some scopeId = j.currentScope then scope.parent else j.currentScope := by
  obtain ⟨scopes, hs, hwf, hr⟩ := Scopes.finalizeScopeExitAt_ok h.scopes scopeId ms t
  simp only [exitScopeNoWrite, hs, ok_bind, retained] at he ⊢
  cases hc : (j.buffer.scopes.retained.find? (Scopes.hasId scopeId)).bind (Scopes.exitOf ms t) with
  | none =>
    simp only [hc, pure_eq_ok, Except.ok.injEq, Prod.mk.injEq] at he
    obtain ⟨rfl, rfl, rfl⟩ := he
    exact ⟨⟨h.records, hwf⟩, rfl, rfl, rfl, rfl, rfl, hr, rfl, rfl, rfl⟩
  | some closed =>
    obtain ⟨scope, elapsed⟩ := closed
    simp only [hc, pushExit] at he
    obtain ⟨records, hp, he⟩ := bind_eq_ok.1 he
    obtain ⟨hrwf, hents⟩ := Records.push_inv h.records hp
    simp only [pure_eq_ok, Except.ok.injEq, Prod.mk.injEq] at he
    obtain ⟨rfl, rfl, rfl⟩ := he
    exact ⟨⟨hrwf, hwf⟩, rfl, rfl, rfl, rfl, rfl, hr, _, rfl, rfl, hents, rfl⟩

theorem trimRecords_ok (max : ℕ) :
    ∃ records, j.trimRecords max = .ok { j with buffer := { j.buffer with records } } ∧
      records.WF ∧ records.entries = j.records.drop (j.records.length - max) := by
  obtain ⟨t, ht, hwf, hr⟩ := Records.trim_ok h.records max
  exact ⟨t, by rw [trimRecords, ht]; rfl, hwf, hr⟩

theorem trimScopes_ok (max : ℕ) :
    ∃ scopes, j.trimScopes max = .ok { j with buffer := { j.buffer with scopes } } ∧
      scopes.WF ∧ scopes.retained =
        dropFirst Scopes.isClosed (j.retained.countP Scopes.isClosed - max) j.retained := by
  obtain ⟨t, ht, hwf, hr⟩ := Scopes.trim_ok h.scopes max
  exact ⟨t, by rw [trimScopes, ht]; rfl, hwf, hr⟩

end

end Journal

end Eventline
