/-
  What a journal shows of itself over a run of calls: what it holds at any
  moment, and what it hands to the writers attached to it.

  * `Tracked.apply`: each call tracks the lives of scopes on; a scope that `clear`
    drops cannot be exited any more.
  * `JournalCall.apply_continues`: the writer only gets what is then held.
  * `View`: parts that were held together at one moment; `Viewed` says that all
    views of a run are of its lives and of the records pushed.
  * `Journal.savedLines`: the lines of an export and of the attached writer;
    `run_saved`: they are rendered from views.
-/
import Eventline.Finality
import Eventline.Replay.Snapshot
import Eventline.Runtime.Survivors
import Eventline.Writer.Files

namespace Eventline

open Text Checked Slots

/-- The parent that a call names. -/
def JournalCall.parent : JournalCall → Option ScopeId
  | .op call => call.parent
  | _ => none

/-- The parent that a call names has been handed out, and a writer is attached
    before it is used. -/
def JournalRun.Allowed (s : JournalRun) (c : JournalCall) : Prop :=
  (∀ p, c.parent = some p → p ∈ s.entered) ∧ ∀ w, c = .setWriter w → w.calls = []

/-! ## The scopes of a run -/

/-- An open scope that is lost ends unseen, with the messages that it has. -/
def Life.lose (held : List BufferedScope) (l : Life) : Life :=
  if l.exited.isSome then l
  else { l with exited := (held.find? (Scopes.hasId l.scope.id)).map fun b =>
    { b.scope with exitedAt := some 0 } }

@[simp] theorem Life.lose_scope (held : List BufferedScope) (l : Life) :
    (l.lose held).scope = l.scope := by
  unfold Life.lose
  split_ifs <;> rfl

section
variable {j j' : Journal} {lives : List Life} (h : Tracked j lives)
include h

/-- What is found of an open life. -/
theorem Tracked.find_open {l : Life} (hl : l ∈ lives) (hopen : l.exited = none) :
    ∃ b ∈ j.retained, j.retained.find? (Scopes.hasId l.scope.id) = some b ∧
      b.scope.id = l.scope.id ∧ Scopes.isClosed b = false := by
  obtain ⟨b, hb, hid⟩ := h.opens l hl hopen
  obtain ⟨x, hx⟩ : ∃ x, j.retained.find? (Scopes.hasId l.scope.id) = some x := by
    rw [← Option.isSome_iff_exists, List.find?_isSome]
    exact ⟨b, hb, by simpa [Scopes.hasId] using hid⟩
  have hmem := List.mem_of_find?_eq_some hx
  have hxid : x.scope.id = l.scope.id := by simpa [Scopes.hasId] using List.find?_some hx
  obtain ⟨l', hl', hshows, hclosed⟩ := h.held x hmem
  obtain rfl := h.life_unique hl' hl (hshows.id.symm.trans hxid)
  exact ⟨x, hmem, hx, hxid, by rw [hclosed, hopen]; rfl⟩

/-- **Clearing** ends all lives: what is lost cannot be exited any more. -/
theorem Tracked.clear : Tracked j.clear (lives.map (.lose j.retained)) ∧
    ∀ x, Backed j lives x → Backed j.clear (lives.map (.lose j.retained)) x := by
  have hret : j.clear.retained = [] := rfl
  have hids : (lives.map (Life.lose j.retained)).map (·.scope.id) = lives.map (·.scope.id) := by
    simp [Function.comp_def]
  have hended : ∀ l ∈ lives, ∃ e, (l.lose j.retained).exited = some e ∧ e.exitedAt.isSome := by
    intro l hl
    unfold Life.lose
    split_ifs with hexited
    · obtain ⟨e, he⟩ := Option.isSome_iff_exists.1 hexited
      exact ⟨e, he, h.closed l hl e he⟩
    · obtain ⟨b, -, hfind, -⟩ := h.find_open hl (by simpa using hexited)
      exact ⟨{ b.scope with exitedAt := some 0 }, by simp [hfind], rfl⟩
  constructor
  · refine ⟨Journal.clear_wf j, ?_, ?_, ?_, ?_, ?_, ?_, ?_, ?_⟩
    · rw [hret]
      exact .nil
    · rw [List.length_map]
      exact h.next
    · rw [hids]
      exact h.ids
    · intro l' hl'
      obtain ⟨l, hl, rfl⟩ := List.mem_map.1 hl'
      simpa using h.idsBefore l hl
    · intro l' hl' p hp
      obtain ⟨l, hl, rfl⟩ := List.mem_map.1 hl'
      rw [Life.lose_scope] at hp ⊢
      obtain ⟨hlt, l₁, hl₁, hid⟩ := h.parents l hl p hp
      exact ⟨hlt, _, List.mem_map_of_mem hl₁, by simpa using hid⟩
    · intro l' hl' e hle
      obtain ⟨l, hl, rfl⟩ := List.mem_map.1 hl'
      obtain ⟨e', he', hclosed⟩ := hended l hl
      obtain rfl := Option.some.inj (he'.symm.trans hle)
      exact hclosed
    · intro b hb
      rw [hret] at hb
      cases hb
    · intro l' hl' hopen
      obtain ⟨l, hl, rfl⟩ := List.mem_map.1 hl'
      obtain ⟨e, he, -⟩ := hended l hl
      rw [hopen] at he
      cases he
  · rintro x ⟨l, hl, hshows, hwithin⟩
    refine ⟨_, List.mem_map_of_mem hl, ?_, by simp [hret]⟩
    unfold Life.lose
    split_ifs with hexited
    · exact hshows
    · -- an open copy: its messages are within those that are lost with the scope
      have hopen : l.exited = none := by simpa using hexited
      obtain ⟨b, hb, hfind, hbid, hbopen⟩ := h.find_open hl hopen
      rw [hfind]
      refine hshows.exit_of_within (hshows.exitedAt_none hopen) ?_
      exact hwithin b hb (hbid.trans hshows.id.symm) hbopen

/-- **Entering** under a parent that has been handed out, or in the current scope. -/
theorem Tracked.entered (hn : lives.length < 2 ^ 64) {name : Option String}
    {parent : Option ScopeId} {t : Instant} {ms : UInt64} {id : ScopeId}
    (hp : ∀ p, parent = some p → p ∈ lives.map (·.scope.id))
    (he : j.pushScope name parent t ms = .ok (j', id)) (current : Option ScopeId) :
    ∃ lives', Tracked { j' with currentScope := current } lives' ∧
      lives'.map (·.scope.id) = lives.map (·.scope.id) ++ [id] ∧
      ∀ x, Backed j lives x → Backed { j' with currentScope := current } lives' x := by
  obtain ⟨htracked, hbacked, -⟩ := h.enter hn (fun p hpp => by simpa using hp p hpp) he
  have hwf : Journal.WF { j' with currentScope := current } :=
    ⟨htracked.wf.records, htracked.wf.scopes⟩
  obtain ⟨htracked', hbacked'⟩ := htracked.congr hwf rfl rfl
  exact ⟨_, htracked', by simp, fun x hx => hbacked' x (hbacked x hx)⟩

/-- **Exiting** ends the life of an open scope, if there is one. -/
theorem Tracked.exited {id : ScopeId} {outcome : Outcome} {t : Instant} {ms ns : UInt64}
    {rid : RecordId} {payload : Option (Record × Scope)}
    (he : j.exitScopeNoWrite id outcome t ms ns = .ok (j', rid, payload)) (w : Option AttachedWriter) :
    ∃ lives', Tracked { j' with writer := w } lives' ∧
      lives'.map (·.scope.id) = lives.map (·.scope.id) ∧
      ∀ x, Backed j lives x → Backed { j' with writer := w } lives' x := by
  cases payload with
  | none =>
    obtain ⟨hwf, -, -, hnext, -, -, hret, hcase⟩ := Journal.exitScopeNoWrite_inv h.wf he
    cases hx : (j.retained.find? (Scopes.hasId id)).bind (Scopes.exitOf ms t) with
    | none =>
      have hwf' : Journal.WF { j' with writer := w } := ⟨hwf.records, hwf.scopes⟩
      obtain ⟨htracked, hbacked⟩ := h.congr hwf' (hret.trans (Journal.closeIfOpen_missing hx)) hnext
      exact ⟨lives, htracked, rfl, hbacked⟩
    | some closed =>
      rw [hx] at hcase
      obtain ⟨record, hpayload, -⟩ := hcase
      cases hpayload
  | some out =>
    obtain ⟨record, scope⟩ := out
    obtain ⟨htracked, hbacked, -⟩ := h.exit he
    have hwf : Journal.WF { j' with writer := w } := ⟨htracked.wf.records, htracked.wf.scopes⟩
    obtain ⟨htracked', hbacked'⟩ := htracked.congr hwf rfl rfl
    exact ⟨_, htracked', by simp [Function.comp_def], fun x hx => hbacked' x (hbacked x hx)⟩

/-- A record changes no scope. -/
theorem Tracked.recorded {kind : EventKind} {name : String} {fields : Fields}
    {scopeId : Option ScopeId} {ns : UInt64} {rid : RecordId} {record : Record}
    {scope : Option Scope}
    (he : j.recordNoWriteInScope kind name fields scopeId ns = .ok (j', rid, record, scope))
    (w : Option AttachedWriter) :
    Tracked { j' with writer := w } lives ∧
      ∀ x, Backed j lives x → Backed { j' with writer := w } lives x := by
  obtain ⟨records, rfl, hwf, -⟩ := Journal.recordNoWriteInScope_inv h.wf he
  exact h.congr ⟨hwf, h.wf.scopes⟩ rfl rfl

/-- **Every call** tracks the lives on, and keeps the copies that were taken. -/
theorem Tracked.apply {c : JournalCall} {ticket : Ticket} (ha : c.apply j = .ok (j', ticket))
    (hn : lives.length + ticket.scopes.length ≤ 2 ^ 64)
    (hparent : ∀ p, c.parent = some p → p ∈ lives.map (·.scope.id))
    (hcurrent : ∀ p, j.currentScope = some p → p ∈ lives.map (·.scope.id)) :
    ∃ lives', Tracked j' lives' ∧
      lives'.map (·.scope.id) = lives.map (·.scope.id) ++ ticket.scopes ∧
      ∀ x, Backed j lives x → Backed j' lives' x := by
  have hsame : (Tracked j' lives ∧ ∀ x, Backed j lives x → Backed j' lives x) →
      ticket.scopes = [] → ∃ lives', Tracked j' lives' ∧
        lives'.map (·.scope.id) = lives.map (·.scope.id) ++ ticket.scopes ∧
        ∀ x, Backed j lives x → Backed j' lives' x := by
    intro hkept hticket
    exact ⟨lives, hkept.1, by rw [hticket, List.append_nil], hkept.2⟩
  cases JournalCall.apply_performs ha with
  | enterScope hp => exact h.entered hn hcurrent hp _
  | enterScopeWithParent hp => exact h.entered hn hparent hp j'.currentScope
  | enterScopeUnnamed hp =>
    refine h.entered hn ?_ hp _
    intro p hpp
    rcases Option.or_eq_some_iff.1 hpp with hpp | ⟨-, hpp⟩
    · exact hparent p hpp
    · exact hcurrent p hpp
  | record hr => exact hsame (h.recorded hr _) rfl
  | @setScopeExitMessages id msgs j₁ found he =>
    obtain ⟨htracked, hbacked⟩ := h.messages he
    refine ⟨_, htracked, ?_, hbacked⟩
    cases found <;> simp [Ticket.scopes, Function.comp_def]
  | @exitScope id outcome t ms ns j₁ rid payload hx =>
    simp only [Ticket.scopes, List.append_nil]
    cases payload with
    | none => exact h.exited hx j₁.writer
    | some p => exact h.exited hx _
  | @trimRecords max j₁ he =>
    obtain ⟨records, hok, hwf, -⟩ := Journal.trimRecords_ok h.wf max
    rw [hok] at he
    obtain rfl := Except.ok.inj he
    exact hsame (h.congr ⟨hwf, h.wf.scopes⟩ rfl rfl) rfl
  | @trimScopes max j₁ he =>
    obtain ⟨scopes, hok, hwf, hret⟩ := Journal.trimScopes_ok h.wf max
    rw [hok] at he
    obtain rfl := Except.ok.inj he
    exact hsame (h.evict ⟨h.wf.records, hwf⟩ rfl hret) rfl
  | clear =>
    obtain ⟨htracked, hbacked⟩ := h.clear
    exact ⟨_, htracked, by simp [Ticket.scopes, Function.comp_def], hbacked⟩
  | recordNoWrite hr => exact hsame (h.recorded hr j'.writer) rfl
  | recordNoWriteInScope hr => exact hsame (h.recorded hr j'.writer) rfl
  | exitScopeNoWrite hx =>
    simp only [Ticket.scopes, List.append_nil]
    exact h.exited hx j'.writer
  | setWriter writer => exact hsame (h.congr ⟨h.wf.records, h.wf.scopes⟩ rfl rfl) rfl

end

/-! ## What is held, and handed to a writer -/

/-- The parts are held together, and can be read back. -/
structure Journal.Holds (j : Journal) (p : Parts) : Prop where
  scope : ∀ x, p.scope = some x → x ∈ j.scopes
  record : ∀ r, p.record = some r → r ∈ j.records
  paired : ∀ r, p.record = some r → r.Paired p.scope

theorem Journal.holds_scope {j : Journal} {x : Scope} (hx : x ∈ j.scopes) : j.Holds ⟨none, some x⟩ where
  scope y hy := Option.some.inj hy ▸ hx
  record r hr := by cases hr
  paired r hr := by cases hr

/-- The writer got the call. -/
def Journal.Handed (j : Journal) (call : WriterCall) : Prop :=
  ∃ w, j.writer = some w ∧ call ∈ w.calls

/-- The journal after a call: what the writer gets is held, and new records can
    be read back. -/
structure Journal.Continues (j j' : Journal) : Prop where
  runId : j'.runId = j.runId
  handed : ∀ call, j'.Handed call → j.Handed call ∨ j'.Holds call.parts
  paired : ∀ r ∈ j'.records, r ∈ j.records ∨ r.Paired none

namespace Journal

variable {j j' : Journal} (h : j.WF) {call : WriterCall}

theorem handed_call {record : Record} {scope : Option Scope} :
    (j.writeRecord record scope).Handed call → j.Handed call ∨ call = .record record scope := by
  rintro ⟨w', hw', hcall⟩
  obtain ⟨w, hw, rfl⟩ := Option.map_eq_some_iff.1 hw'
  rw [AttachedWriter.call, List.mem_append, List.mem_singleton] at hcall
  exact hcall.imp_left fun hcall => ⟨w, hw, hcall⟩

include h

/-- The metadata that is written is that of a scope held. -/
theorem handed_metadata {id : ScopeId} (hw : j.writeScopeMetadata id = .ok j') (hc : j'.Handed call) :
    j.Handed call ∨ ∃ x ∈ j.scopes, call = .scope x := by
  obtain ⟨w', hw', hcall⟩ := hc
  unfold writeScopeMetadata at hw
  cases hwr : j.writer with
  | none =>
    simp only [hwr, pure_eq_ok, Except.ok.injEq] at hw
    rw [← hw, hwr] at hw'
    cases hw'
  | some w =>
    simp only [hwr, writeScopeTo] at hw
    by_cases hwant : w.wantsScopeMetadata
    · rw [if_pos hwant, getScope_ok h, ok_bind, bind_eq_ok] at hw
      obtain ⟨scope, hfound, hw⟩ := hw
      obtain rfl := Except.ok.inj hw
      obtain rfl := Option.some.inj hw'
      have hfind : (j.scopes.find? fun s => s.id = id) = some scope := by
        cases hf : j.scopes.find? fun s => s.id = id with
        | none =>
          rw [hf] at hfound
          cases hfound
        | some x =>
          rw [hf] at hfound
          exact congrArg some (Except.ok.inj hfound)
      rw [AttachedWriter.call, List.mem_append, List.mem_singleton] at hcall
      rcases hcall with hcall | rfl
      · exact .inl ⟨w, hwr, hcall⟩
      · exact .inr ⟨scope, List.mem_of_find?_eq_some hfind, rfl⟩
    · rw [if_neg hwant] at hw
      obtain rfl := Except.ok.inj hw
      exact .inl ⟨w', hw', hcall⟩

theorem handed_pushScope {name : Option String} {parent : Option ScopeId} {t : Instant}
    {ms : UInt64} {id : ScopeId} (he : j.pushScope name parent t ms = .ok (j', id))
    (hc : j'.Handed call) : j.Handed call ∨ j'.Holds call.parts := by
  simp only [pushScope] at he
  obtain ⟨scopes, hs, he⟩ := bind_eq_ok.1 he
  obtain ⟨hwf, -⟩ := Scopes.push_inv h.scopes hs
  obtain ⟨j₁, hj₁, he⟩ := bind_eq_ok.1 he
  obtain ⟨rfl, rfl⟩ : j₁ = j' ∧ _ := by simpa using he
  have hwf' : Journal.WF { j with nextScopeId := j.nextScopeId + 1,
                                  buffer := { j.buffer with scopes } } := ⟨h.records, hwf⟩
  rcases handed_metadata hwf' hj₁ hc with hc | ⟨x, hx, rfl⟩
  · exact .inl hc
  · obtain ⟨w, rfl⟩ := writeScopeMetadata_inv hwf' hj₁
    exact .inr (holds_scope hx)

/-- The record and the scope that `record` hands to the writer. -/
theorem holds_recorded {kind : EventKind} {name : String} {fields : Fields}
    {scopeId : Option ScopeId} {ns : UInt64} {rid : RecordId} {record : Record}
    {scope : Option Scope}
    (he : j.recordNoWriteInScope kind name fields scopeId ns = .ok (j', rid, record, scope)) :
    j'.Holds ⟨some record, scope⟩ ∧ j'.records = j.records ++ [record] ∧ j'.writer = j.writer ∧
      j'.runId = j.runId := by
  obtain ⟨records, rfl, -, hents, -, hrecord, hscope⟩ := recordNoWriteInScope_inv h he
  refine ⟨⟨?_, ?_, ?_⟩, hents, rfl, rfl⟩
  · rintro x rfl
    obtain ⟨id, -, hfind⟩ := Option.bind_eq_some_iff.1 hscope.symm
    exact List.mem_of_find?_eq_some hfind
  · rintro r ⟨⟩
    show record ∈ records.entries
    rw [hents]
    exact List.mem_append_right _ (List.mem_singleton_self _)
  · rintro r ⟨⟩
    rw [hrecord]
    constructor
    · rintro ⟨outcome, d, hkind⟩
      cases hkind
    · rintro x rfl
      obtain ⟨id, rfl, hfind⟩ := Option.bind_eq_some_iff.1 hscope.symm
      have hid : x.id = id := by simpa using List.find?_some hfind
      rw [hid]

/-- The record and the scope that `exit_scope` hands to the writer. -/
theorem holds_exited {id : ScopeId} {outcome : Outcome} {t : Instant} {ms ns : UInt64}
    {rid : RecordId} {payload : Option (Record × Scope)}
    (he : j.exitScopeNoWrite id outcome t ms ns = .ok (j', rid, payload)) :
    j'.runId = j.runId ∧ j'.writer = j.writer ∧
      (payload = none → j'.records = j.records) ∧
      ∀ record scope, payload = some (record, scope) → j'.Holds ⟨some record, some scope⟩ ∧
        j'.records = j.records ++ [record] := by
  obtain ⟨-, -, -, -, hrun, hwriter, hret, hcase⟩ := exitScopeNoWrite_inv h he
  refine ⟨hrun, hwriter, ?_⟩
  cases hx : (j.retained.find? (Scopes.hasId id)).bind (Scopes.exitOf ms t) with
  | none =>
    rw [hx] at hcase
    obtain ⟨rfl, hrecords, -⟩ := hcase
    exact ⟨fun _ => hrecords, by rintro record scope ⟨⟩⟩
  | some closed =>
    rw [hx] at hcase
    obtain ⟨record, rfl, hrecord, hrecords, -⟩ := hcase
    refine ⟨by rintro ⟨⟩, ?_⟩
    rintro r x ⟨⟩
    obtain ⟨b, hb, hexit⟩ := Option.bind_eq_some_iff.1 hx
    obtain ⟨hopen, rfl⟩ := exitOf_eq_some hexit
    have hbid : b.scope.id = id := by simpa [Scopes.hasId] using List.find?_some hb
    refine ⟨⟨?_, ?_, ?_⟩, hrecords⟩
    · rintro y ⟨⟩
      obtain ⟨pre, post, hsplit, hid, hpre⟩ := find?_split hb
      rw [scopes_eq, hret, hsplit, updateFirst_split hid hpre, Scopes.closeIfOpen, hopen,
        if_neg Bool.false_ne_true]
      simp
    · rintro y ⟨⟩
      rw [hrecords]
      exact List.mem_append_right _ (List.mem_singleton_self _)
    · rintro y ⟨⟩
      rw [hrecord]
      refine ⟨fun _ => by simp, ?_⟩
      rintro x ⟨⟩
      rw [Scopes.close_scope, hbid]

theorem paired_recorded {kind : EventKind} {name : String} {fields : Fields}
    {scopeId : Option ScopeId} {ns : UInt64} {rid : RecordId} {record : Record}
    {scope : Option Scope}
    (he : j.recordNoWriteInScope kind name fields scopeId ns = .ok (j', rid, record, scope)) :
    ∀ r ∈ j'.records, r ∈ j.records ∨ r.Paired none := by
  intro r hr
  obtain ⟨hholds, hrecords, -⟩ := holds_recorded h he
  rw [hrecords, List.mem_append, List.mem_singleton] at hr
  rcases hr with hr | rfl
  · exact .inl hr
  · exact .inr (hholds.paired r rfl).alone

theorem paired_exited {id : ScopeId} {outcome : Outcome} {t : Instant} {ms ns : UInt64}
    {rid : RecordId} {payload : Option (Record × Scope)}
    (he : j.exitScopeNoWrite id outcome t ms ns = .ok (j', rid, payload)) :
    ∀ r ∈ j'.records, r ∈ j.records ∨ r.Paired none := by
  intro r hr
  obtain ⟨-, -, hnone, hsome⟩ := holds_exited h he
  cases payload with
  | none => exact .inl (hnone rfl ▸ hr)
  | some out =>
    obtain ⟨hholds, hrecords⟩ := hsome out.1 out.2 rfl
    rw [hrecords, List.mem_append, List.mem_singleton] at hr
    rcases hr with hr | rfl
    · exact .inl hr
    · exact .inr (hholds.paired _ rfl).alone

/-- An enter, with the current scope as it leaves it. -/
theorem continues_enter {name : Option String} {parent : Option ScopeId} {t : Instant}
    {ms : UInt64} {id : ScopeId} (he : j.pushScope name parent t ms = .ok (j', id))
    (current : Option ScopeId) : j.Continues { j' with currentScope := current } := by
  obtain ⟨-, -, -, hrecords, -, -, -, hrun⟩ := pushScope_inv h he
  constructor
  · exact hrun
  · intro call hc
    refine (handed_pushScope h he hc).imp_right ?_
    exact fun hholds => ⟨hholds.scope, hholds.record, hholds.paired⟩
  · intro r hr
    left
    show r ∈ j.buffer.records.snapshot
    rw [← hrecords]
    exact hr

/-- A record that is not written. -/
theorem continues_recorded {kind : EventKind} {name : String} {fields : Fields}
    {scopeId : Option ScopeId} {ns : UInt64} {rid : RecordId} {record : Record}
    {scope : Option Scope}
    (he : j.recordNoWriteInScope kind name fields scopeId ns = .ok (j', rid, record, scope)) :
    j.Continues j' := by
  obtain ⟨-, -, hwriter, hrun⟩ := holds_recorded h he
  exact ⟨hrun, fun call ⟨w, hw, hcall⟩ => .inl ⟨w, hwriter ▸ hw, hcall⟩, paired_recorded h he⟩

omit h in
/-- A new writer gets the scopes that are held. -/
theorem continues_setWriter {writer : AttachedWriter} (hfresh : writer.calls = []) :
    j.Continues (j.setWriter writer) := by
  refine ⟨rfl, ?_, fun r hr => .inl hr⟩
  rintro call ⟨w, hw, hcall⟩
  obtain rfl := Option.some.inj hw
  right
  split_ifs at hcall with hwants
  · rw [hfresh, List.nil_append] at hcall
    obtain ⟨x, hx, rfl⟩ := List.mem_map.1 hcall
    exact holds_scope hx
  · rw [hfresh] at hcall
    cases hcall

/-- What `exit_scope` writes in the end. -/
theorem handed_exited {id : ScopeId} {outcome : Outcome} {t : Instant} {ms ns : UInt64}
    {rid : RecordId} {payload : Option (Record × Scope)}
    (he : j.exitScopeNoWrite id outcome t ms ns = .ok (j', rid, payload))
    (hc : (j'.writeExit payload).Handed call) :
    j.Handed call ∨ (j'.writeExit payload).Holds call.parts := by
  obtain ⟨-, hwriter, -, hsome⟩ := holds_exited h he
  cases payload with
  | none =>
    obtain ⟨w, hw, hcall⟩ := hc
    exact .inl ⟨w, hwriter ▸ hw, hcall⟩
  | some out =>
    obtain ⟨record, scope⟩ := out
    obtain ⟨hholds, -⟩ := hsome record scope rfl
    rcases handed_call hc with ⟨w, hw, hcall⟩ | rfl
    · exact .inl ⟨w, hwriter ▸ hw, hcall⟩
    · exact .inr ⟨hholds.scope, hholds.record, hholds.paired⟩

end Journal

open Journal in
/-- **Every call** hands to the writer what the journal then holds. -/
theorem JournalCall.apply_continues {j j' : Journal} (h : j.WF) {c : JournalCall} {ticket : Ticket}
    (ha : c.apply j = .ok (j', ticket)) (hfresh : ∀ w, c = .setWriter w → w.calls = []) :
    j.Continues j' := by
  have hsame : j'.runId = j.runId → j'.writer = j.writer → j'.records.Sublist j.records →
      j.Continues j' := by
    rintro hrun hwriter hsub
    refine ⟨hrun, ?_, fun r hr => .inl (hsub.subset hr)⟩
    rintro call ⟨w, hw, hcall⟩
    exact .inl ⟨w, hwriter ▸ hw, hcall⟩
  cases apply_performs ha with
  | enterScope hp => exact continues_enter h hp _
  | enterScopeWithParent hp => exact continues_enter h hp j'.currentScope
  | enterScopeUnnamed hp => exact continues_enter h hp _
  | record hr =>
    obtain ⟨hholds, -, hwriter, hrun⟩ := holds_recorded h hr
    have hpaired := paired_recorded h hr
    refine ⟨hrun, ?_, hpaired⟩
    intro call hc
    rcases handed_call hc with ⟨w, hw, hcall⟩ | rfl
    · exact .inl ⟨w, hwriter ▸ hw, hcall⟩
    · exact .inr ⟨hholds.scope, hholds.record, hholds.paired⟩
  | @setScopeExitMessages id msgs j₁ found he =>
    obtain ⟨scopes, found', hok, -⟩ := setScopeExitMessages_ok h id msgs
    rw [hok] at he
    obtain ⟨rfl, -⟩ := Prod.mk.inj (Except.ok.inj he)
    exact hsame rfl rfl (List.Sublist.refl _)
  | @exitScope id outcome t ms ns j₁ rid payload hx =>
    obtain ⟨hrun, -⟩ := holds_exited h hx
    have hpaired := paired_exited h hx
    refine ⟨?_, fun call hc => handed_exited h hx hc, ?_⟩
    · cases payload <;> exact hrun
    · cases payload <;> exact hpaired
  | @trimRecords max j₁ he =>
    obtain ⟨records, hok, -, hents⟩ := trimRecords_ok h max
    rw [hok] at he
    obtain rfl := Except.ok.inj he
    refine hsame rfl rfl ?_
    show records.entries.Sublist j.records
    rw [hents]
    exact List.drop_sublist _ _
  | @trimScopes max j₁ he =>
    obtain ⟨scopes, hok, -⟩ := trimScopes_ok h max
    rw [hok] at he
    obtain rfl := Except.ok.inj he
    exact hsame rfl rfl (List.Sublist.refl _)
  | clear => exact hsame rfl rfl (List.nil_sublist _)
  | recordNoWrite hr => exact continues_recorded h hr
  | recordNoWriteInScope hr => exact continues_recorded h hr
  | exitScopeNoWrite hx =>
    obtain ⟨hrun, hwriter, -⟩ := holds_exited h hx
    exact ⟨hrun, fun call ⟨w, hw, hcall⟩ => .inl ⟨w, hwriter ▸ hw, hcall⟩, paired_exited h hx⟩
  | setWriter writer => exact continues_setWriter (hfresh writer rfl)

/-! ## The views of a run -/

namespace JournalRun

/-- Parts that the journal held together at some moment of the run. -/
def View (runId : String) (calls : List JournalCall) (p : Parts) : Prop :=
  ∃ before s, before <+: calls ∧ Machine.run step (new runId) before = some s ∧ s.journal.Holds p

/-- After the calls: the lives are tracked, what was in view is backed, and the
    writer got no more. -/
structure Viewed (runId : String) (calls : List JournalCall) (s : JournalRun) (lives : List Life) :
    Prop where
  run : Machine.run step (new runId) calls = some s
  named : s.journal.runId = runId
  tracked : Tracked s.journal lives
  ids : lives.map (·.scope.id) = s.entered
  current : ∀ p, s.journal.currentScope = some p → p ∈ s.entered
  backed : ∀ p, View runId calls p → ∀ x, p.scope = some x → Backed s.journal lives x
  pushed : ∀ p, View runId calls p → ∀ r, p.record = some r → r ∈ s.pushed
  handed : ∀ call, s.journal.Handed call → View runId calls call.parts
  paired : ∀ r ∈ s.journal.records, r.Paired none

theorem new_viewed (runId : String) : Viewed runId [] (new runId) [] := by
  have hempty : ∀ p, View runId [] p → p.scope = none ∧ p.record = none := by
    rintro p ⟨before, s, hbefore, hrun, hholds⟩
    obtain rfl := List.prefix_nil.1 hbefore
    obtain rfl := Option.some.inj hrun
    constructor
    · rw [Option.eq_none_iff_forall_ne_some]
      intro x hx
      cases hholds.scope x hx
    · rw [Option.eq_none_iff_forall_ne_some]
      intro r hr
      cases hholds.record r hr
  refine ⟨rfl, rfl, new_tracked runId, rfl, ?_, ?_, ?_, ?_, ?_⟩
  · rintro p ⟨⟩
  · intro p hp x hx
    rw [(hempty p hp).1] at hx
    cases hx
  · intro p hp r hr
    rw [(hempty p hp).2] at hr
    cases hr
  · rintro call ⟨w, hw, -⟩
    cases hw
  · intro r hr
    cases hr

theorem View.concat {runId : String} {calls : List JournalCall} {c : JournalCall} {p : Parts}
    (h : View runId calls p) : View runId (calls ++ [c]) p := by
  obtain ⟨before, s, hbefore, hrest⟩ := h
  exact ⟨before, s, hbefore.trans (List.prefix_append _ _), hrest⟩

section
variable {runId : String} {calls : List JournalCall} {s s' : JournalRun} {lives : List Life}
  (h : Viewed runId calls s lives) {c : JournalCall} (hs : s.step c = some s')
include h hs

theorem Viewed.run_concat : Machine.run step (new runId) (calls ++ [c]) = some s' :=
  Machine.run_append_eq_some.2 ⟨s, h.run, Machine.run_cons_eq_some.2 ⟨s', hs, rfl⟩⟩

/-- The views after one more call. -/
theorem Viewed.view_concat {p : Parts} (hp : View runId (calls ++ [c]) p) :
    View runId calls p ∨ s'.journal.Holds p := by
  obtain ⟨before, t, hbefore, hrun, hholds⟩ := hp
  rcases List.prefix_concat_iff.1 hbefore with rfl | hbefore
  · obtain rfl := Option.some.inj ((h.run_concat hs).symm.trans hrun)
    exact .inr hholds
  · exact .inl ⟨before, t, hbefore, hrun, hholds⟩

/-- The current scope is one that was handed out: an exit goes to the parent. -/
theorem Viewed.current_step : ∀ p, s'.journal.currentScope = some p → p ∈ s'.entered := by
  obtain ⟨ticket, -, heffect, hentered, -, -⟩ := step_effect h.tracked.wf hs
  have hold : ∀ p, s.journal.currentScope = some p → p ∈ s'.entered := by
    intro p hp
    rw [hentered]
    exact List.mem_append_left _ (h.current p hp)
  intro p hp
  cases heffect with
  | enter exits event id opened clock retained records nextScope nextRecord current =>
    rcases current with current | current
    · exact hold p (current ▸ hp)
    · obtain rfl := Option.some.inj (current.symm.trans hp)
      rw [hentered]
      exact List.mem_append_right _ (List.mem_singleton_self _)
  | record exits event id noExit retained records nextScope nextRecord current =>
    exact hold p (current ▸ hp)
  | @exit id outcome b t ms ns exits event found opened retained records nextScope nextRecord
      current =>
    rw [current] at hp
    split_ifs at hp with hid
    · obtain ⟨l, hl, hshows, -⟩ := h.tracked.held b (List.mem_of_find?_eq_some found)
      obtain ⟨-, l', hl', rfl⟩ := h.tracked.parents l hl p (hshows.parent ▸ hp)
      rw [hentered, ← h.ids]
      exact List.mem_append_left _ (List.mem_map_of_mem hl')
    · exact hold p hp
  | miss exits event closed retained records nextScope nextRecord current =>
    exact hold p (current ▸ hp)
  | keep exits event retained records nextScope nextRecord current =>
    exact hold p (current ▸ hp)
  | clear exits event isClear retained records nextScope nextRecord current =>
    rw [current] at hp
    cases hp

/-- **A call** keeps all that was in view. -/
theorem Viewed.step (hf : s'.Final) (hc : s.Allowed c) (hn : s'.entered.length ≤ 2 ^ 64) :
    ∃ lives', Viewed runId (calls ++ [c]) s' lives' := by
  have hcurrent := h.current_step hs
  have hrun := h.run_concat hs
  have hview := @Viewed.view_concat _ _ _ _ _ h _ hs
  obtain ⟨⟨j, ticket⟩, hj, rfl⟩ := Option.map_eq_some_iff.1 hs
  have ha := toOption_eq_some.1 hj
  have hcontinues := JournalCall.apply_continues h.tracked.wf ha hc.2
  have hlength : lives.length = s.entered.length := by rw [← h.ids, List.length_map]
  obtain ⟨lives', htracked, hids, hbacked⟩ := h.tracked.apply ha
    (by rw [hlength, ← List.length_append]; exact hn)
    (by rw [h.ids]; exact hc.1) (by rw [h.ids]; exact h.current)
  refine ⟨lives', hrun, hcontinues.runId.trans h.named, htracked, ?_, hcurrent, ?_, ?_, ?_, ?_⟩
  · rw [hids, h.ids]
  · intro p hp x hx
    rcases hview hp with hp | hholds
    · exact hbacked x (h.backed p hp x hx)
    · obtain ⟨b, hb, rfl⟩ := List.mem_map.1 (hholds.scope x hx)
      exact htracked.backed hb
  · intro p hp r hr
    rcases hview hp with hp | hholds
    · exact List.mem_append_left _ (h.pushed p hp r hr)
    · exact hf.records.subset (hholds.record r hr)
  · intro call hcall
    rcases hcontinues.handed call hcall with hcall | hholds
    · exact (h.handed call hcall).concat
    · exact ⟨_, _, List.prefix_refl _, hrun, hholds⟩
  · intro r hr
    exact (hcontinues.paired r hr).elim (h.paired r) id

end

/-- **Every run** whose counters have not wrapped. -/
theorem run_viewed {runId : String} {calls : List JournalCall} {s : JournalRun}
    (hs : Machine.run step (new runId) calls = some s)
    (hm : Machine.Meets step Allowed (new runId) calls) (hentered : s.entered.length ≤ 2 ^ 64)
    (htaken : s.taken.length ≤ 2 ^ 64) : ∃ lives, Viewed runId calls s lives := by
  induction calls using List.reverseRecOn generalizing s with
  | nil =>
    obtain rfl := Option.some.inj hs
    exact ⟨[], new_viewed runId⟩
  | append_singleton calls c ih =>
    have hf := run_final hs hentered htaken
    obtain ⟨u, hu, hlast⟩ := Machine.run_append_eq_some.1 hs
    obtain ⟨t, ht, hnil⟩ := Machine.run_cons_eq_some.1 hlast
    obtain rfl := Option.some.inj hnil
    obtain ⟨hm, hlast⟩ := Machine.meets_append.1 hm
    have hle := step_counts ht
    obtain ⟨lives, h⟩ := ih hu hm (hle.1.trans hentered) (hle.2.trans htaken)
    exact h.step ht hf (hlast u hu).1 hentered

/-! ## Saved lines -/

/-- The records pushed are one of each id, and exit each scope once, as they are
    read. -/
theorem Final.oneEach {s : JournalRun} (h : s.Final) (serde : SerdeJson) :
    OneEach (s.pushed.map (Record.reread serde)) := by
  refine oneEach_reread serde (h.recordIds.imp ?_) h.exits
  intro x y hlt heq
  rw [heq] at hlt
  exact absurd hlt (UInt64.lt_irrefl _)

theorem Viewed.told {runId : String} {calls : List JournalCall} {s : JournalRun}
    {lives : List Life} (h : Viewed runId calls s lives) {p : Parts} (hp : View runId calls p) :
    Told lives s.pushed p where
  scope x hx := by
    obtain ⟨l, hl, hshows, -⟩ := h.backed p hp x hx
    exact ⟨l, hl, hshows⟩
  record r hr := h.pushed p hp r hr

end JournalRun

/-- The lines that a journal can save: its export, and those of the calls on its
    writer. -/
def Journal.savedLines (serde : SerdeJson) (j : Journal) : List Bytes :=
  j.recordsJsonl serde ++
    (j.writer.map fun w => w.calls.map (WriterCall.line serde j.runId)).getD []

/-- The line is saved at some moment of the run. -/
def SavedDuring (serde : SerdeJson) (runId : String) (calls : List JournalCall) (line : Bytes) :
    Prop :=
  ∃ before s, before <+: calls ∧
    Machine.run JournalRun.step (.new runId) before = some s ∧ line ∈ s.journal.savedLines serde

namespace JournalRun

variable {runId : String} {calls : List JournalCall} {s : JournalRun} {lives : List Life}
  (h : Viewed runId calls s lives)
include h

/-- The record lines of an export are rendered from what is held. -/
theorem Viewed.rendered_record (serde : SerdeJson) {r : Record} (hr : r ∈ s.journal.records) :
    Rendered serde runId
      (renderJsonlInRun serde r (r.scope.bind (indexScopes s.journal.scopes)) s.journal.runId)
      ⟨some (r.reread serde), r.scope.bind (indexScopes s.journal.scopes)⟩ ∧
    s.journal.Holds ⟨some r, r.scope.bind (indexScopes s.journal.scopes)⟩ := by
  have hfound : ∀ x, r.scope.bind (indexScopes s.journal.scopes) = some x →
      x ∈ s.journal.scopes ∧ r.scope = some x.id := by
    intro x hx
    obtain ⟨id, hid, hindex⟩ := Option.bind_eq_some_iff.1 hx
    rw [indexScopes_eq] at hindex
    have hxid : x.id = id := by simpa using List.find?_some hindex
    exact ⟨List.mem_of_find?_eq_some hindex, by rw [hid, hxid]⟩
  have hpaired : r.Paired (r.scope.bind (indexScopes s.journal.scopes)) :=
    ⟨(h.paired r hr).1, fun x hx => (hfound x hx).2⟩
  rw [h.named]
  refine ⟨.record hpaired, fun x hx => (hfound x hx).1, ?_, ?_⟩
  · rintro y ⟨⟩
    exact hr
  · rintro y ⟨⟩
    exact hpaired

/-- **What is saved** is rendered from a view of the run. -/
theorem Viewed.rendered (serde : SerdeJson) {line : Bytes}
    (hline : line ∈ s.journal.savedLines serde) :
    ∃ p : Parts, Rendered serde runId line (p.reread serde) ∧ View runId calls p := by
  have hnow : ∀ p, s.journal.Holds p → View runId calls p :=
    fun p hp => ⟨calls, s, List.prefix_refl _, h.run, hp⟩
  rcases List.mem_append.1 hline with hline | hline
  · rcases List.mem_append.1 hline with hline | hline
    · obtain ⟨x, hx, rfl⟩ := List.mem_map.1 hline
      rw [h.named]
      exact ⟨⟨none, some x⟩, .scope x, hnow _ (Journal.holds_scope hx)⟩
    · obtain ⟨r, hr, rfl⟩ := List.mem_map.1 hline
      obtain ⟨hrendered, hholds⟩ := h.rendered_record serde hr
      exact ⟨⟨some r, _⟩, hrendered, hnow _ hholds⟩
  · cases hw : s.journal.writer with
    | none =>
      rw [hw] at hline
      cases hline
    | some w =>
      rw [hw] at hline
      obtain ⟨call, hcall, rfl⟩ := List.mem_map.1 hline
      have hview := h.handed call ⟨w, hw, hcall⟩
      refine ⟨call.parts, ?_, hview⟩
      rw [h.named]
      cases call with
      | scope x => exact .scope x
      | record r x =>
        obtain ⟨_, _, _, _, hholds⟩ := hview
        exact .record (hholds.paired r rfl)

end JournalRun

/-- The lines that are saved at any moment of a run. -/
theorem run_saved {runId : String} {calls : List JournalCall} {s : JournalRun}
    (hs : Machine.run JournalRun.step (.new runId) calls = some s)
    (hm : Machine.Meets JournalRun.step JournalRun.Allowed (.new runId) calls)
    (hentered : s.entered.length ≤ 2 ^ 64) (htaken : s.taken.length ≤ 2 ^ 64) {serde : SerdeJson}
    {line : Bytes} (hline : SavedDuring serde runId calls line) :
    ∃ p : Parts, Rendered serde runId line (p.reread serde) ∧ JournalRun.View runId calls p := by
  obtain ⟨before, t, ⟨after, rfl⟩, ht, hline⟩ := hline
  obtain ⟨u, hu, hrest⟩ := Machine.run_append_eq_some.1 hs
  obtain rfl := Option.some.inj (ht.symm.trans hu)
  have hle := JournalRun.run_counts hrest
  obtain ⟨lives, h⟩ := JournalRun.run_viewed ht (Machine.meets_append.1 hm).1
    (hle.1.trans hentered) (hle.2.trans htaken)
  obtain ⟨p, hrendered, hview⟩ := h.rendered serde hline
  obtain ⟨first, v, hfirst, hrest⟩ := hview
  exact ⟨p, hrendered, first, v, hfirst.trans (List.prefix_append _ _), hrest⟩

end Eventline
