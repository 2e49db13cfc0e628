/-
  The calls on a journal as steps, with what they hand out and push.

  `JournalOp` has the calls that write to the attached writer; the forms
  without a write, with any scope id, are added here.

  * `JournalRun` keeps the ids handed out and the records pushed so far beside
    the journal.
  * `JournalCall.Performs`: what each call does, in terms of the forms without a
    write; `apply_performs` reads it off the definitions once.
  * `Effect` lists what a call can do to the journal; `apply_effect` says that
    it does nothing else.
-/
import Eventline.History
import Eventline.Lib.Machine

namespace Eventline

open Checked Slots

/-- The calls that change a journal, with the clock readings they make. -/
inductive JournalCall where
  | op (op : JournalOp)
  | recordNoWrite (kind : EventKind) (name : String) (fields : Fields) (nanos : UInt64)
  | recordNoWriteInScope (kind : EventKind) (name : String) (fields : Fields)
    (scopeId : Option ScopeId) (nanos : UInt64)
  | exitScopeNoWrite (id : ScopeId) (outcome : Outcome) (finishedAt : Instant)
    (millis nanos : UInt64)
  | setWriter (writer : AttachedWriter)

/-- The id that a call returns. -/
inductive Ticket where
  | scope (id : ScopeId)
  | record (id : RecordId)
  | none

def Ticket.scopes : Ticket → List ScopeId
  | scope id => [id]
  | _ => []

def Ticket.records : Ticket → List RecordId
  | record id => [id]
  | _ => []

namespace JournalCall

def apply (j : Journal) : JournalCall → Checked (Journal × Ticket)
  | op (.enterScope name t ms) => Prod.map id .scope <$> j.enterScope name t ms
  | op (.enterScopeWithParent name parent t ms) =>
    Prod.map id .scope <$> j.enterScopeWithParent name parent t ms
  | op (.enterScopeUnnamed parent t ms) => Prod.map id .scope <$> j.enterScopeUnnamed parent t ms
  | op (.record kind name fields ns) => Prod.map id .record <$> j.record kind name fields ns
  | op (.setScopeExitMessages id msgs) => (fun out => (out.1, .none)) <$> j.setScopeExitMessages id msgs
  | op (.exitScope scopeId outcome t ms ns) =>
    Prod.map id .record <$> j.exitScope scopeId outcome t ms ns
  | op (.trimRecords max) => (fun j => (j, .none)) <$> j.trimRecords max
  | op (.trimScopes max) => (fun j => (j, .none)) <$> j.trimScopes max
  | op .clear => pure (j.clear, .none)
  | recordNoWrite kind name fields ns =>
    (fun out => (out.1, .record out.2.1)) <$> j.recordNoWrite kind name fields ns
  | recordNoWriteInScope kind name fields scopeId ns =>
    (fun out => (out.1, .record out.2.1)) <$> j.recordNoWriteInScope kind name fields scopeId ns
  | exitScopeNoWrite id outcome t ms ns =>
    (fun out => (out.1, .record out.2.1)) <$> j.exitScopeNoWrite id outcome t ms ns
  | setWriter writer => pure (j.setWriter writer, .none)

/-- The scope that a call exits, and the outcome. -/
def exits : JournalCall → Option (ScopeId × Outcome)
  | op (.exitScope id outcome ..) | exitScopeNoWrite id outcome .. => some (id, outcome)
  | _ => none

/-- The scope that a call's event is put in. -/
def eventScope (j : Journal) : JournalCall → Option (Option ScopeId)
  | op (.record ..) | recordNoWrite .. => some j.currentScope
  | recordNoWriteInScope _ _ _ scopeId _ => some scopeId
  | _ => none

def isClear : JournalCall → Bool
  | op .clear => true
  | _ => false

end JournalCall

/-- A journal, the ids that its calls have returned and the records that they
    have pushed. -/
structure JournalRun where
  journal : Journal
  entered : List ScopeId
  taken : List RecordId
  pushed : List Record

namespace JournalRun

def new (runId : String) : JournalRun := ⟨.new runId, [], [], []⟩

def step (s : JournalRun) (c : JournalCall) : Option JournalRun :=
  (c.apply s.journal).toOption.map fun (j, ticket) =>
    { journal := j
      entered := s.entered ++ ticket.scopes
      taken := s.taken ++ ticket.records
      pushed := s.pushed ++ j.records.drop s.journal.records.length }

end JournalRun

/-! ## What a call can do -/

/-- The same scope: identity, times and clock. -/
structure BufferedScope.Same (b b' : BufferedScope) : Prop where
  id : b'.scope.id = b.scope.id
  exitedAt : b'.scope.exitedAt = b.scope.exitedAt
  clock : b'.clock = b.clock

theorem BufferedScope.Same.refl (b : BufferedScope) : b.Same b := ⟨rfl, rfl, rfl⟩

theorem BufferedScope.Same.isClosed {b b' : BufferedScope} (h : b.Same b') :
    Scopes.isClosed b' = Scopes.isClosed b := by
  rw [Scopes.isClosed, Scopes.isClosed, h.exitedAt]

/-- Closed scopes may be gone, messages may differ. -/
structure Kept (old new : List BufferedScope) : Prop where
  ids : (new.map (·.scope.id)).Sublist (old.map (·.scope.id))
  same : ∀ b' ∈ new, ∃ b ∈ old, b.Same b'
  opens : ∀ b ∈ old, Scopes.isClosed b = false → ∃ b' ∈ new, b.Same b'

theorem Kept.refl (l : List BufferedScope) : Kept l l where
  ids := List.Sublist.refl _
  same b hb := ⟨b, hb, .refl b⟩
  opens b hb _ := ⟨b, hb, .refl b⟩

theorem kept_messages (id : ScopeId) (msgs : ExitMessages) (l : List BufferedScope) :
    Kept l (updateFirst (Scopes.hasId id) (·.setMessages msgs) l) := by
  have hsame : ∀ b : BufferedScope, b.Same (b.setMessages msgs) := fun b => ⟨rfl, rfl, rfl⟩
  refine ⟨?_, ?_, ?_⟩
  · have hids := map_updateFirst_of_eq (p := Scopes.hasId id) (f := (·.setMessages msgs))
      (e := fun b => b.scope.id) (fun _ => rfl) l
    rw [hids]
  · intro b' hb'
    rcases mem_updateFirst hb' with hb | ⟨b, hb, -, rfl⟩
    · exact ⟨b', hb, .refl b'⟩
    · exact ⟨b, hb, hsame b⟩
  · intro b hb _
    rcases updateFirst_mem (p := Scopes.hasId id) (f := (·.setMessages msgs)) hb with hb' | hb'
    · exact ⟨b, hb', .refl b⟩
    · exact ⟨_, hb', hsame b⟩

theorem kept_trim (n : ℕ) (l : List BufferedScope) : Kept l (dropFirst Scopes.isClosed n l) where
  ids := (dropFirst_sublist n l).map _
  same b hb := ⟨b, (dropFirst_sublist n l).subset hb, .refl b⟩
  opens b hb hopen := ⟨b, mem_dropFirst_of_not hb hopen, .refl b⟩

/-- What a call performs: the form of it that does not write, and a write. -/
inductive JournalCall.Performs (j : Journal) : JournalCall → Journal → Ticket → Prop
  | enterScope {name : String} {t : Instant} {ms : UInt64} {j₁ : Journal} {id : ScopeId}
    (h : j.pushScope (some name) j.currentScope t ms = .ok (j₁, id)) :
    Performs j (.op (.enterScope name t ms)) { j₁ with currentScope := some id } (.scope id)
  | enterScopeWithParent {name : String} {parent : Option ScopeId} {t : Instant} {ms : UInt64}
    {j₁ : Journal} {id : ScopeId} (h : j.pushScope (some name) parent t ms = .ok (j₁, id)) :
    Performs j (.op (.enterScopeWithParent name parent t ms)) j₁ (.scope id)
  | enterScopeUnnamed {parent : Option ScopeId} {t : Instant} {ms : UInt64} {j₁ : Journal}
    {id : ScopeId} (h : j.pushScope none (parent.or j.currentScope) t ms = .ok (j₁, id)) :
    Performs j (.op (.enterScopeUnnamed parent t ms)) { j₁ with currentScope := some id } (.scope id)
  | record {kind : EventKind} {name : String} {fields : Fields} {ns : UInt64} {j₁ : Journal}
    {id : RecordId} {record : Record} {scope : Option Scope}
    (h : j.recordNoWriteInScope kind name fields j.currentScope ns = .ok (j₁, id, record, scope)) :
    Performs j (.op (.record kind name fields ns)) (j₁.writeRecord record scope) (.record id)
  | setScopeExitMessages {id : ScopeId} {msgs : ExitMessages} {j₁ : Journal} {found : Bool}
    (h : j.setScopeExitMessages id msgs = .ok (j₁, found)) :
    Performs j (.op (.setScopeExitMessages id msgs)) j₁ .none
  | exitScope {id : ScopeId} {outcome : Outcome} {t : Instant} {ms ns : UInt64} {j₁ : Journal}
    {rid : RecordId} {payload : Option (Record × Scope)}
    (h : j.exitScopeNoWrite id outcome t ms ns = .ok (j₁, rid, payload)) :
    Performs j (.op (.exitScope id outcome t ms ns)) (j₁.writeExit payload) (.record rid)
  | trimRecords {max : ℕ} {j₁ : Journal} (h : j.trimRecords max = .ok j₁) :
    Performs j (.op (.trimRecords max)) j₁ .none
  | trimScopes {max : ℕ} {j₁ : Journal} (h : j.trimScopes max = .ok j₁) :
    Performs j (.op (.trimScopes max)) j₁ .none
  | clear : Performs j (.op .clear) j.clear .none
  | recordNoWrite {kind : EventKind} {name : String} {fields : Fields} {ns : UInt64} {j₁ : Journal}
    {id : RecordId} {record : Record} {scope : Option Scope}
    (h : j.recordNoWriteInScope kind name fields j.currentScope ns = .ok (j₁, id, record, scope)) :
    Performs j (.recordNoWrite kind name fields ns) j₁ (.record id)
  | recordNoWriteInScope {kind : EventKind} {name : String} {fields : Fields}
    {scopeId : Option ScopeId} {ns : UInt64} {j₁ : Journal} {id : RecordId} {record : Record}
    {scope : Option Scope}
    (h : j.recordNoWriteInScope kind name fields scopeId ns = .ok (j₁, id, record, scope)) :
    Performs j (.recordNoWriteInScope kind name fields scopeId ns) j₁ (.record id)
  | exitScopeNoWrite {id : ScopeId} {outcome : Outcome} {t : Instant} {ms ns : UInt64}
    {j₁ : Journal} {rid : RecordId} {payload : Option (Record × Scope)}
    (h : j.exitScopeNoWrite id outcome t ms ns = .ok (j₁, rid, payload)) :
    Performs j (.exitScopeNoWrite id outcome t ms ns) j₁ (.record rid)
  | setWriter (writer : AttachedWriter) : Performs j (.setWriter writer) (j.setWriter writer) .none

theorem JournalCall.apply_performs {j j' : Journal} {c : JournalCall} {ticket : Ticket}
    (ha : c.apply j = .ok (j', ticket)) : Performs j c j' ticket := by
  cases c with
  | op op =>
    cases op with
    | enterScope name t ms =>
      obtain ⟨⟨j₁, id⟩, he, heq⟩ := map_eq_ok.1 ha
      obtain ⟨⟨j₂, id₂⟩, hp, he⟩ := bind_eq_ok.1 he
      obtain ⟨rfl, rfl⟩ := Prod.mk.inj (Except.ok.inj he)
      obtain ⟨rfl, rfl⟩ := Prod.mk.inj heq
      exact .enterScope hp
    | enterScopeWithParent name parent t ms =>
      obtain ⟨⟨j₁, id⟩, hp, heq⟩ := map_eq_ok.1 ha
      obtain ⟨rfl, rfl⟩ := Prod.mk.inj heq
      exact .enterScopeWithParent hp
    | enterScopeUnnamed parent t ms =>
      obtain ⟨⟨j₁, id⟩, he, heq⟩ := map_eq_ok.1 ha
      obtain ⟨⟨j₂, id₂⟩, hp, he⟩ := bind_eq_ok.1 he
      obtain ⟨rfl, rfl⟩ := Prod.mk.inj (Except.ok.inj he)
      obtain ⟨rfl, rfl⟩ := Prod.mk.inj heq
      exact .enterScopeUnnamed hp
    | record kind name fields ns =>
      obtain ⟨⟨j₁, id⟩, he, heq⟩ := map_eq_ok.1 ha
      obtain ⟨⟨j₂, id₂, record, scope⟩, hr, he⟩ := bind_eq_ok.1 he
      obtain ⟨rfl, rfl⟩ := Prod.mk.inj (Except.ok.inj he)
      obtain ⟨rfl, rfl⟩ := Prod.mk.inj heq
      exact .record hr
    | setScopeExitMessages id msgs =>
      obtain ⟨⟨j₁, found⟩, he, heq⟩ := map_eq_ok.1 ha
      obtain ⟨rfl, rfl⟩ := Prod.mk.inj heq
      exact .setScopeExitMessages he
    | exitScope id outcome t ms ns =>
      obtain ⟨⟨j₁, id₁⟩, he, heq⟩ := map_eq_ok.1 ha
      obtain ⟨⟨j₂, id₂, payload⟩, hx, he⟩ := bind_eq_ok.1 he
      obtain ⟨rfl, rfl⟩ := Prod.mk.inj (Except.ok.inj he)
      obtain ⟨rfl, rfl⟩ := Prod.mk.inj heq
      exact .exitScope hx
    | trimRecords max =>
      obtain ⟨j₁, he, heq⟩ := map_eq_ok.1 ha
      obtain ⟨rfl, rfl⟩ := Prod.mk.inj heq
      exact .trimRecords he
    | trimScopes max =>
      obtain ⟨j₁, he, heq⟩ := map_eq_ok.1 ha
      obtain ⟨rfl, rfl⟩ := Prod.mk.inj heq
      exact .trimScopes he
    | clear =>
      obtain ⟨rfl, rfl⟩ := Prod.mk.inj (Except.ok.inj ha)
      exact .clear
  | recordNoWrite kind name fields ns =>
    obtain ⟨⟨j₁, id, record, scope⟩, hr, heq⟩ := map_eq_ok.1 ha
    obtain ⟨rfl, rfl⟩ := Prod.mk.inj heq
    exact .recordNoWrite hr
  | recordNoWriteInScope kind name fields scopeId ns =>
    obtain ⟨⟨j₁, id, record, scope⟩, hr, heq⟩ := map_eq_ok.1 ha
    obtain ⟨rfl, rfl⟩ := Prod.mk.inj heq
    exact .recordNoWriteInScope hr
  | exitScopeNoWrite id outcome t ms ns =>
    obtain ⟨⟨j₁, id₁, payload⟩, hx, heq⟩ := map_eq_ok.1 ha
    obtain ⟨rfl, rfl⟩ := Prod.mk.inj heq
    exact .exitScopeNoWrite hx
  | setWriter writer =>
    obtain ⟨rfl, rfl⟩ := Prod.mk.inj (Except.ok.inj ha)
    exact .setWriter writer

/-- What a call can do to the journal `j`. -/
inductive Effect (j j' : Journal) (c : JournalCall) : Ticket → Prop
  /-- A scope is entered. -/
  | enter {b : BufferedScope} {t : Instant}
    (exits : c.exits = none) (event : c.eventScope j = none)
    (id : b.scope.id = ⟨j.nextScopeId⟩) (opened : Scopes.isClosed b = false)
    (clock : b.clock = some ⟨t, none⟩)
    (retained : j'.retained = j.retained ++ [b]) (records : j'.records = j.records)
    (nextScope : j'.nextScopeId = j.nextScopeId + 1) (nextRecord : j'.nextRecordId = j.nextRecordId)
    (current : j'.currentScope = j.currentScope ∨ j'.currentScope = some b.scope.id) :
    Effect j j' c (.scope b.scope.id)
  /-- An event is recorded. -/
  | record {r : Record}
    (exits : c.exits = none) (event : c.eventScope j = some r.scope)
    (id : r.id = ⟨j.nextRecordId⟩) (noExit : Journal.exitOf r = none)
    (retained : j'.retained = j.retained) (records : j'.records = j.records ++ [r])
    (nextScope : j'.nextScopeId = j.nextScopeId)
    (nextRecord : j'.nextRecordId = j.nextRecordId + 1)
    (current : j'.currentScope = j.currentScope) :
    Effect j j' c (.record r.id)
  /-- An open scope is exited. -/
  | exit {id : ScopeId} {outcome : Outcome} {b : BufferedScope} {t : Instant} {ms ns : UInt64}
    (exits : c.exits = some (id, outcome)) (event : c.eventScope j = none)
    (found : j.retained.find? (Scopes.hasId id) = some b) (opened : Scopes.isClosed b = false)
    (retained : j'.retained = updateFirst (Scopes.hasId id) (Scopes.closeIfOpen ms t) j.retained)
    (records : j'.records = j.records ++
      [⟨⟨j.nextRecordId⟩, some id, ns, .scopeExit outcome (durationNanos (b.close ms t).2)⟩])
    (nextScope : j'.nextScopeId = j.nextScopeId)
    (nextRecord : j'.nextRecordId = j.nextRecordId + 1)
    (current : j'.currentScope =
      if some id = j.currentScope then b.scope.parent else j.currentScope) :
    Effect j j' c (.record ⟨j.nextRecordId⟩)
  /-- There is no open scope to exit. -/
  | miss {id : ScopeId} {outcome : Outcome}
    (exits : c.exits = some (id, outcome)) (event : c.eventScope j = none)
    (closed : j.isOpen id = false)
    (retained : j'.retained = j.retained) (records : j'.records = j.records)
    (nextScope : j'.nextScopeId = j.nextScopeId)
    (nextRecord : j'.nextRecordId = j.nextRecordId + 1)
    (current : j'.currentScope = j.currentScope) :
    Effect j j' c (.record ⟨j.nextRecordId⟩)
  /-- Messages are set, entries are trimmed, a writer is attached. -/
  | keep (exits : c.exits = none) (event : c.eventScope j = none)
    (retained : Kept j.retained j'.retained) (records : j'.records.Sublist j.records)
    (nextScope : j'.nextScopeId = j.nextScopeId) (nextRecord : j'.nextRecordId = j.nextRecordId)
    (current : j'.currentScope = j.currentScope) :
    Effect j j' c .none
  | clear (exits : c.exits = none) (event : c.eventScope j = none) (isClear : c.isClear = true)
    (retained : j'.retained = []) (records : j'.records = [])
    (nextScope : j'.nextScopeId = j.nextScopeId) (nextRecord : j'.nextRecordId = j.nextRecordId)
    (current : j'.currentScope = none) :
    Effect j j' c .none

namespace Journal

variable {j j' : Journal}

/-- A scope pushed by an enter, with the current scope as the enter leaves it. -/
theorem enter_effect (h : j.WF) {c : JournalCall} (exits : c.exits = none)
    (event : c.eventScope j = none) {name : Option String} {parent : Option ScopeId} {t : Instant}
    {ms : UInt64} {id : ScopeId} (hp : j.pushScope name parent t ms = .ok (j', id))
    {current : Option ScopeId} (hc : current = j'.currentScope ∨ current = some id) :
    WF { j' with currentScope := current } ∧
      Effect j { j' with currentScope := current } c (.scope id) := by
  obtain ⟨hwf, hid, hret, hrecords, hnexts, hnextr, hcur, -⟩ := pushScope_inv h hp
  refine ⟨⟨hwf.records, hwf.scopes⟩, ?_⟩
  refine .enter (b := ⟨⟨id, parent, ms, name, none, .none⟩, some ⟨t, none⟩⟩) exits event hid rfl rfl
    hret ?_ hnexts hnextr ?_
  · show j'.buffer.records.snapshot = j.buffer.records.snapshot
    rw [hrecords]
  · rw [← hcur]
    exact hc

/-- The attached writer apart, `record` does what its form without a write does. -/
theorem record_effect (h : j.WF) {c : JournalCall} (exits : c.exits = none) {kind : EventKind}
    {name : String} {fields : Fields} {scopeId : Option ScopeId} {ns : UInt64} {id : RecordId}
    {record : Record} {scope : Option Scope} (event : c.eventScope j = some scopeId)
    (hr : j.recordNoWriteInScope kind name fields scopeId ns = .ok (j', id, record, scope))
    (w : Option AttachedWriter) :
    WF { j' with writer := w } ∧ Effect j { j' with writer := w } c (.record id) := by
  obtain ⟨records, rfl, hwf, hents, hid, hrec, -⟩ := recordNoWriteInScope_inv h hr
  refine ⟨⟨hwf, h.scopes⟩, ?_⟩
  obtain rfl : record.id = id := by rw [hrec]
  refine .record (r := record) exits ?_ hid ?_ rfl hents rfl rfl rfl
  · rw [event, hrec]
  · rw [hrec]
    rfl

theorem exitOf_eq_some {b : BufferedScope} {ms : UInt64} {t : Instant} {out : Scope × Duration}
    (h : Scopes.exitOf ms t b = some out) :
    Scopes.isClosed b = false ∧ out = ((b.close ms t).1.scope, (b.close ms t).2) := by
  unfold Scopes.exitOf at h
  split_ifs at h with hcl
  exact ⟨by simpa using hcl, (Option.some.inj h).symm⟩

/-- Exiting an id whose first scope is closed, or that no scope has, leaves the
    scopes as they are. -/
theorem closeIfOpen_missing {l : List BufferedScope} {id : ScopeId} {ms : UInt64} {t : Instant}
    (h : (l.find? (Scopes.hasId id)).bind (Scopes.exitOf ms t) = none) :
    updateFirst (Scopes.hasId id) (Scopes.closeIfOpen ms t) l = l := by
  cases hf : l.find? (Scopes.hasId id) with
  | none => exact updateFirst_of_none (by simpa using hf)
  | some b =>
    obtain ⟨pre, post, rfl, hb, hpre⟩ := find?_split hf
    have hcl : Scopes.isClosed b = true := by
      rw [hf, Option.bind_some] at h
      unfold Scopes.exitOf at h
      split_ifs at h with hcl
      exact hcl
    rw [updateFirst_split hb hpre, Scopes.closeIfOpen, if_pos hcl]

theorem exit_effect (h : j.WF) {c : JournalCall} {scopeId : ScopeId} {outcome : Outcome}
    (exits : c.exits = some (scopeId, outcome)) (event : c.eventScope j = none) {t : Instant}
    {ms ns : UInt64} {id : RecordId} {payload : Option (Record × Scope)}
    (he : j.exitScopeNoWrite scopeId outcome t ms ns = .ok (j', id, payload))
    (w : Option AttachedWriter) :
    WF { j' with writer := w } ∧ Effect j { j' with writer := w } c (.record id) := by
  obtain ⟨hwf, rfl, hnextr, hnexts, -, -, hret, hcase⟩ := exitScopeNoWrite_inv h he
  refine ⟨⟨hwf.records, hwf.scopes⟩, ?_⟩
  cases hx : (j.retained.find? (Scopes.hasId scopeId)).bind (Scopes.exitOf ms t) with
  | none =>
    rw [hx] at hcase
    refine .miss exits event ?_ (hret.trans (closeIfOpen_missing hx)) hcase.2.1 hnexts hnextr
      hcase.2.2
    rw [isOpen]
    cases hf : j.retained.find? (Scopes.hasId scopeId) with
    | none => rfl
    | some b =>
      rw [hf, Option.bind_some] at hx
      unfold Scopes.exitOf at hx
      split_ifs at hx with hcl
      simp [hcl]
  | some closed =>
    rw [hx] at hcase
    obtain ⟨record, -, rfl, hrecords, hcur⟩ := hcase
    obtain ⟨b, hb, hexit⟩ := Option.bind_eq_some_iff.1 hx
    obtain ⟨hopen, rfl⟩ := exitOf_eq_some hexit
    refine .exit exits event hb hopen hret hrecords hnexts hnextr ?_
    rw [Scopes.close_scope] at hcur
    exact hcur

end Journal

open Journal in
/-- **A call does one of these things.** -/
theorem JournalCall.apply_effect {j j' : Journal} (h : j.WF) {c : JournalCall} {ticket : Ticket}
    (ha : c.apply j = .ok (j', ticket)) : j'.WF ∧ Effect j j' c ticket := by
  cases apply_performs ha with
  | enterScope hp => exact enter_effect h rfl rfl hp (.inr rfl)
  | enterScopeWithParent hp => exact enter_effect h rfl rfl hp (.inl rfl)
  | enterScopeUnnamed hp => exact enter_effect h rfl rfl hp (.inr rfl)
  | record hr => exact record_effect h rfl rfl hr _
  | @setScopeExitMessages id msgs _ _ he =>
    obtain ⟨scopes, found', hok, hwf, hret⟩ := setScopeExitMessages_ok h id msgs
    rw [hok] at he
    obtain ⟨rfl, -⟩ := Prod.mk.inj (Except.ok.inj he)
    refine ⟨⟨h.records, hwf⟩, .keep rfl rfl ?_ (List.Sublist.refl _) rfl rfl rfl⟩
    show Kept j.retained scopes.retained
    rw [hret]
    exact kept_messages id msgs j.retained
  | @exitScope id outcome t ms ns j₁ rid payload hx =>
    cases payload with
    | none => exact exit_effect h rfl rfl hx j₁.writer
    | some p => exact exit_effect h rfl rfl hx _
  | @trimRecords max _ he =>
    obtain ⟨records, hok, hwf, hents⟩ := trimRecords_ok h max
    rw [hok] at he
    obtain rfl := Except.ok.inj he
    refine ⟨⟨hwf, h.scopes⟩, .keep rfl rfl (Kept.refl _) ?_ rfl rfl rfl⟩
    show records.entries.Sublist j.records
    rw [hents]
    exact List.drop_sublist _ _
  | @trimScopes max _ he =>
    obtain ⟨scopes, hok, hwf, hret⟩ := trimScopes_ok h max
    rw [hok] at he
    obtain rfl := Except.ok.inj he
    refine ⟨⟨h.records, hwf⟩, .keep rfl rfl ?_ (List.Sublist.refl _) rfl rfl rfl⟩
    show Kept j.retained scopes.retained
    rw [hret]
    exact kept_trim _ _
  | clear => exact ⟨clear_wf j, .clear rfl rfl rfl rfl rfl rfl rfl rfl⟩
  | recordNoWrite hr => exact record_effect h rfl rfl hr j'.writer
  | recordNoWriteInScope hr => exact record_effect h rfl rfl hr j'.writer
  | exitScopeNoWrite hx => exact exit_effect h rfl rfl hx j'.writer
  | setWriter writer =>
    exact ⟨⟨h.records, h.scopes⟩, .keep rfl rfl (Kept.refl _) (List.Sublist.refl _) rfl rfl rfl⟩

namespace JournalRun

/-- The effect of a step, with the records it pushed. -/
theorem step_effect {s s' : JournalRun} {c : JournalCall} (h : s.journal.WF) (hs : s.step c = some s') :
    ∃ ticket, s'.journal.WF ∧ Effect s.journal s'.journal c ticket ∧
      s'.entered = s.entered ++ ticket.scopes ∧ s'.taken = s.taken ++ ticket.records ∧
      s'.pushed = s.pushed ++ s'.journal.records.drop s.journal.records.length := by
  obtain ⟨⟨j, ticket⟩, hj, rfl⟩ := Option.map_eq_some_iff.1 hs
  have happly : c.apply s.journal = .ok (j, ticket) := by
    cases ha : c.apply s.journal with
    | ok out =>
      rw [ha] at hj
      rw [Option.some.inj hj]
    | error e =>
      rw [ha] at hj
      cases hj
  obtain ⟨hwf, heffect⟩ := JournalCall.apply_effect h happly
  exact ⟨ticket, hwf, heffect, rfl, rfl, rfl⟩

end JournalRun

end Eventline
