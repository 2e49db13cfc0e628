/-
  The upkeep of a journal is amortised.

  A call may compact the scopes, trim many records or build the id index.  All
  that the calls of a run visit in this way is paid for when scopes are entered
  and records are pushed.

  * `JournalUse`: the calls that change a journal, and the look-up of a record,
    which may build the index; `visits` counts the slots and records that one
    of them visits to keep the storage in order.
  * `JournalRun.Upkept`: keys and ids are as the counters are; every use keeps
    it, and has its visits paid for.
  * `upkeep_amortised`: over a run, four visits for a scope and two for a record.
-/
import Eventline.Buffer.Upkeep
import Eventline.Finality
import Eventline.Lib.Potential

namespace Eventline

open Checked Slots Journal

/-! ## Uses of a journal -/

/-- `Journal::get_record`. -/
def Journal.getRecord (j : Journal) (id : RecordId) : Checked (Journal × Option Record) := do
  let (records, found) ← j.buffer.records.getRecordById id
  pure ({ j with buffer := { j.buffer with records } }, found)

/-- A call that changes the journal, or a look-up, which may build the index. -/
inductive JournalUse where
  | call (c : JournalCall)
  | getRecord (id : RecordId)

/-- The slots and records that the loops of the storage visit in a call. -/
def JournalCall.visits (j : Journal) : JournalCall → ℕ
  | op (.enterScope ..) | op (.enterScopeWithParent ..) | op (.enterScopeUnnamed ..) =>
    j.buffer.scopes.rebaseVisits
  | op (.record ..) | recordNoWrite .. | recordNoWriteInScope .. => j.buffer.records.rebaseVisits
  | op (.exitScope id ..) | exitScopeNoWrite id .. =>
    if j.isOpen id then j.buffer.records.rebaseVisits else 0
  | op (.trimRecords max) => j.buffer.records.trimVisits max
  | op (.trimScopes max) => j.buffer.scopes.trimVisits max
  | op .clear => j.buffer.records.entries.length + j.buffer.scopes.entries.length
  | op (.setScopeExitMessages ..) | setWriter _ => 0

def JournalUse.visits (s : JournalRun) : JournalUse → ℕ
  | call c => c.visits s.journal
  | getRecord _ => s.journal.buffer.records.lookupVisits

def JournalRun.use (s : JournalRun) : JournalUse → Option JournalRun
  | .call c => s.step c
  | .getRecord id => (s.journal.getRecord id).toOption.map fun out => { s with journal := out.1 }

def Buffer.credit (b : Buffer) : ℕ := b.scopes.credit + b.records.credit

/-! ## What a call pays -/

/-- A call enters and pushes so much, and pays for its visits with it. -/
structure Pays (j j' : Journal) (visits : ℕ) (ticket : Ticket) : Prop where
  scopeKeys : j'.buffer.scopes.nextKey ≤ j.buffer.scopes.nextKey + ticket.scopes.length
  recordKeys : j'.buffer.records.nextKey ≤
    j.buffer.records.nextKey + (j'.records.drop j.records.length).length
  pushes : (j'.records.drop j.records.length).length ≤ ticket.records.length
  credit : j'.buffer.credit + visits ≤ j.buffer.credit + 4 * ticket.scopes.length +
    2 * (j'.records.drop j.records.length).length

section
variable {j j' : Journal}

/-- No record is pushed. -/
theorem Pays.of_still {visits : ℕ} {ticket : Ticket}
    (hrecords : j'.records.length ≤ j.records.length)
    (hrecordKeys : j'.buffer.records.nextKey ≤ j.buffer.records.nextKey)
    (hscopeKeys : j'.buffer.scopes.nextKey ≤ j.buffer.scopes.nextKey + ticket.scopes.length)
    (hcredit : j'.buffer.credit + visits ≤ j.buffer.credit + 4 * ticket.scopes.length) :
    Pays j j' visits ticket := by
  have hnone : j'.records.drop j.records.length = [] := List.drop_eq_nil_of_le hrecords
  constructor
  · exact hscopeKeys
  · exact hrecordKeys.trans (Nat.le_add_right _ _)
  · rw [hnone]
    exact Nat.zero_le _
  · exact hcredit.trans (Nat.le_add_right _ _)

/-- The records are left alone. -/
theorem Pays.of_scopes {visits : ℕ} {ticket : Ticket}
    (hrecords : j'.buffer.records = j.buffer.records)
    (hkeys : j'.buffer.scopes.nextKey ≤ j.buffer.scopes.nextKey + ticket.scopes.length)
    (hcredit : j'.buffer.scopes.credit + visits ≤
      j.buffer.scopes.credit + 4 * ticket.scopes.length) : Pays j j' visits ticket := by
  refine .of_still ?_ ?_ hkeys ?_
  · rw [Journal.records, Journal.records, hrecords]
  · rw [hrecords]
  · rw [Buffer.credit, Buffer.credit, hrecords]
    omega

/-- A record is pushed, and the scopes pay nothing. -/
theorem Pays.of_push (h : j.WF) {visits : ℕ} {id : RecordId} {r : Record}
    (hpush : j.buffer.records.push r = .ok j'.buffer.records)
    (hroom : j.buffer.records.nextKey < usizeMax)
    (hvisits : visits = j.buffer.records.rebaseVisits)
    (hkeys : j'.buffer.scopes.nextKey = j.buffer.scopes.nextKey)
    (hcredit : j'.buffer.scopes.credit = j.buffer.scopes.credit) :
    Pays j j' visits (.record id) := by
  obtain ⟨hnext, hpays⟩ := Records.push_pays hroom hpush
  obtain ⟨-, hentries⟩ := Records.push_inv h.records hpush
  have hone : (j'.records.drop j.records.length).length = 1 := by
    show (j'.buffer.records.entries.drop j.buffer.records.entries.length).length = 1
    rw [hentries, List.drop_left, List.length_singleton]
  constructor
  · rw [hkeys]
    exact Nat.le_add_right _ _
  · rw [hone, hnext]
  · rw [hone]
    exact le_rfl
  · rw [hone, Buffer.credit, Buffer.credit, hcredit, hvisits]
    omega

theorem enter_pays (h : j.WF) {name : Option String} {parent : Option ScopeId} {t : Instant}
    {ms : UInt64} {id : ScopeId} (hroom : j.buffer.scopes.nextKey < usizeMax)
    (hp : j.pushScope name parent t ms = .ok (j', id)) (current : Option ScopeId) :
    Pays j { j' with currentScope := current } j.buffer.scopes.rebaseVisits (.scope id) := by
  rw [pushScope] at hp
  obtain ⟨scopes, hs, hp⟩ := bind_eq_ok.1 hp
  obtain ⟨j₁, hj₁, hp⟩ := bind_eq_ok.1 hp
  obtain ⟨hwf, -⟩ := Scopes.push_inv h.scopes hs
  obtain ⟨w, rfl⟩ := writeScopeMetadata_inv (by exact ⟨h.records, hwf⟩) hj₁
  obtain ⟨rfl, -⟩ := Prod.mk.inj (Except.ok.inj hp)
  obtain ⟨hnext, hpays⟩ := Scopes.push_pays hroom hs
  exact .of_scopes rfl hnext.le hpays.le

theorem record_pays (h : j.WF) {kind : EventKind} {name : String} {fields : Fields}
    {scopeId : Option ScopeId} {ns : UInt64} {id : RecordId} {record : Record}
    {scope : Option Scope} (hroom : j.buffer.records.nextKey < usizeMax)
    (hr : j.recordNoWriteInScope kind name fields scopeId ns = .ok (j', id, record, scope))
    (w : Option AttachedWriter) :
    Pays j { j' with writer := w } j.buffer.records.rebaseVisits (.record id) := by
  rw [recordNoWriteInScope, scopeOf_ok h, ok_bind] at hr
  obtain ⟨records, hpush, hr⟩ := bind_eq_ok.1 hr
  obtain ⟨rfl, -⟩ := Prod.mk.inj (Except.ok.inj hr)
  exact .of_push h hpush hroom rfl rfl rfl

theorem exit_pays (h : j.WF) {scopeId : ScopeId} {outcome : Outcome} {t : Instant}
    {ms ns : UInt64} {id : RecordId} {payload : Option (Record × Scope)}
    (hroom : j.buffer.records.nextKey < usizeMax)
    (he : j.exitScopeNoWrite scopeId outcome t ms ns = .ok (j', id, payload))
    (w : Option AttachedWriter) :
    Pays j { j' with writer := w } (if j.isOpen scopeId then j.buffer.records.rebaseVisits else 0)
      (.record id) := by
  obtain ⟨scopes, hs, -⟩ := Scopes.finalizeScopeExitAt_ok h.scopes scopeId ms t
  obtain ⟨hkeys, hcredit⟩ := Scopes.finalize_pays hs
  rw [exitScopeNoWrite, hs, ok_bind] at he
  cases hopen : j.isOpen scopeId with
  | false =>
    have hclosed : (j.buffer.scopes.retained.find? (Scopes.hasId scopeId)).bind
        (Scopes.exitOf ms t) = none := by
      rw [isOpen, retained] at hopen
      cases hfound : j.buffer.scopes.retained.find? (Scopes.hasId scopeId) with
      | none => rfl
      | some b =>
        rw [hfound] at hopen
        have hb : Scopes.isClosed b = true := by simpa using hopen
        rw [Option.bind_some, Scopes.exitOf, if_pos hb]
    rw [hclosed] at he
    obtain ⟨rfl, -⟩ := Prod.mk.inj (Except.ok.inj he)
    exact .of_scopes rfl hkeys.le hcredit.le
  | true =>
    obtain ⟨closed, hclosed⟩ : ∃ closed, (j.buffer.scopes.retained.find?
        (Scopes.hasId scopeId)).bind (Scopes.exitOf ms t) = some closed := by
      rw [isOpen, retained] at hopen
      cases hfound : j.buffer.scopes.retained.find? (Scopes.hasId scopeId) with
      | none =>
        rw [hfound] at hopen
        cases hopen
      | some b =>
        rw [hfound] at hopen
        have hb : ¬ Scopes.isClosed b = true := by simpa using hopen
        rw [Option.bind_some, Scopes.exitOf, if_neg hb]
        exact ⟨_, rfl⟩
    rw [hclosed] at he
    obtain ⟨records, hpush, he⟩ := bind_eq_ok.1 he
    obtain ⟨rfl, -⟩ := Prod.mk.inj (Except.ok.inj he)
    exact .of_push h hpush hroom rfl hkeys hcredit

theorem trimRecords_pays (h : j.WF)
    (hupkept : j.buffer.records.Upkept j.buffer.records.nextKey) {max : ℕ}
    (ht : j.trimRecords max = .ok j') :
    Pays j j' (JournalCall.visits j (.op (.trimRecords max))) .none := by
  obtain ⟨records, hs, ht⟩ := bind_eq_ok.1 ht
  obtain rfl := Except.ok.inj ht
  obtain ⟨hupkept', hcredit⟩ := Records.trim_pays hupkept hs
  refine .of_still ?_ hupkept'.keys le_rfl ?_
  · obtain ⟨records', hs', -, hentries⟩ := Records.trim_ok h.records max
    obtain rfl := Except.ok.inj (hs'.symm.trans hs)
    show records'.entries.length ≤ j.buffer.records.entries.length
    rw [hentries]
    exact (List.drop_sublist _ _).length_le
  · simp only [Buffer.credit, JournalCall.visits]
    omega

theorem clear_pays (j : Journal) : Pays j j.clear (JournalCall.visits j (.op .clear)) .none := by
  refine .of_still (Nat.zero_le _) (Nat.zero_le _) (Nat.zero_le _) ?_
  have hrecords : j.clear.buffer.records.credit = 0 := by
    simp [Records.credit, Records.lookupVisits, clear, Buffer.clear, Records.clear]
  have hscopes : j.clear.buffer.scopes.credit = 0 := rfl
  have hheld : j.buffer.records.entries.length ≤ j.buffer.records.credit := Nat.le_add_right _ _
  rw [Buffer.credit, Buffer.credit, hrecords, hscopes, JournalCall.visits, Scopes.credit]
  omega

end

/-! ## Runs -/

namespace JournalRun

/-- Keys and ids are as the counters are. -/
structure Upkept (s : JournalRun) : Prop where
  final : s.Final
  pushed : s.pushed.length ≤ s.taken.length
  scopeKeys : s.journal.buffer.scopes.nextKey ≤ s.entered.length
  recordKeys : s.journal.buffer.records.nextKey ≤ s.pushed.length

theorem new_upkept (runId : String) : (new runId).Upkept :=
  ⟨new_final runId, le_rfl, le_rfl, le_rfl⟩

variable {s s' : JournalRun}

theorem Upkept.scopes (h : s.Upkept) :
    s.journal.buffer.scopes.Upkept s.journal.buffer.scopes.nextKey :=
  ⟨h.final.wf.scopes, h.final.scope_nodup, le_rfl⟩

theorem Upkept.records (h : s.Upkept) :
    s.journal.buffer.records.Upkept s.journal.buffer.records.nextKey := by
  refine ⟨h.final.wf.records, ?_, le_rfl⟩
  have hids := h.final.recordIds.sublist h.final.records
  exact List.pairwise_map.2 (hids.imp fun hlt heq => UInt64.ne_of_lt hlt (congrArg RecordId.n heq))

/-- **A call pays for its visits.** -/
theorem Upkept.pays (h : s.Upkept) {c : JournalCall} {j : Journal} {ticket : Ticket}
    (hn : s.entered.length + ticket.scopes.length < 2 ^ 64)
    (hm : s.taken.length + ticket.records.length < 2 ^ 64)
    (ha : c.apply s.journal = .ok (j, ticket)) : Pays s.journal j (c.visits s.journal) ticket := by
  have hwf := h.final.wf
  have hscopeKeys := h.scopeKeys
  have hrecordKeys := h.recordKeys.trans h.pushed
  have hscopeRoom : ∀ id, ticket = .scope id → s.journal.buffer.scopes.nextKey < usizeMax := by
    rintro id rfl
    simp only [Ticket.scopes, List.length_singleton, usizeMax] at hn ⊢
    omega
  have hrecordRoom : ∀ id, ticket = .record id → s.journal.buffer.records.nextKey < usizeMax := by
    rintro id rfl
    simp only [Ticket.records, List.length_singleton, usizeMax] at hm ⊢
    omega
  cases JournalCall.apply_performs ha with
  | enterScope hp => exact enter_pays hwf (hscopeRoom _ rfl) hp _
  | enterScopeWithParent hp => exact enter_pays hwf (hscopeRoom _ rfl) hp j.currentScope
  | enterScopeUnnamed hp => exact enter_pays hwf (hscopeRoom _ rfl) hp _
  | record hr => exact record_pays hwf (hrecordRoom _ rfl) hr _
  | setScopeExitMessages he =>
    obtain ⟨⟨scopes, found⟩, hs, he⟩ := bind_eq_ok.1 he
    obtain ⟨rfl, -⟩ := Prod.mk.inj (Except.ok.inj he)
    obtain ⟨hkeys, hcredit⟩ := Scopes.setMessages_pays hs
    exact .of_scopes rfl hkeys.le hcredit.le
  | @exitScope id outcome t ms ns j₁ rid payload hx =>
    cases payload with
    | none => exact exit_pays hwf (hrecordRoom _ rfl) hx j₁.writer
    | some p => exact exit_pays hwf (hrecordRoom _ rfl) hx _
  | trimRecords he => exact trimRecords_pays hwf h.records he
  | trimScopes he =>
    obtain ⟨scopes, hs, he⟩ := bind_eq_ok.1 he
    obtain rfl := Except.ok.inj he
    obtain ⟨hupkept, hcredit⟩ := Scopes.trim_pays h.scopes hs
    exact .of_scopes rfl hupkept.keys hcredit
  | clear => exact clear_pays s.journal
  | recordNoWrite hr => exact record_pays hwf (hrecordRoom _ rfl) hr j.writer
  | recordNoWriteInScope hr => exact record_pays hwf (hrecordRoom _ rfl) hr j.writer
  | exitScopeNoWrite hx => exact exit_pays hwf (hrecordRoom _ rfl) hx j.writer
  | setWriter writer => exact .of_scopes rfl le_rfl le_rfl

/-- **A call** keeps keys and ids in order, and pays for its visits. -/
theorem Upkept.step (h : s.Upkept) {c : JournalCall} (hs : s.step c = some s')
    (hn : s'.entered.length < 2 ^ 64) (hm : s'.taken.length < 2 ^ 64) : s'.Upkept ∧
      s'.journal.buffer.credit + c.visits s.journal + 4 * s.entered.length + 2 * s.pushed.length ≤
        s.journal.buffer.credit + 4 * s'.entered.length + 2 * s'.pushed.length := by
  have hfinal := h.final.step hs hn.le hm.le
  obtain ⟨⟨j, ticket⟩, ha, rfl⟩ := Option.map_eq_some_iff.1 hs
  dsimp only at hn hm hfinal ⊢
  rw [List.length_append] at hn hm
  have hpays := h.pays hn hm (toOption_eq_some.1 ha)
  have hpushed := h.pushed
  have hscopeKeys := h.scopeKeys
  have hrecordKeys := h.recordKeys
  have hpushes := hpays.pushes
  have hscopeKeys' := hpays.scopeKeys
  have hrecordKeys' := hpays.recordKeys
  have hcredit := hpays.credit
  refine ⟨⟨hfinal, ?_, ?_, ?_⟩, ?_⟩ <;> simp only [List.length_append] <;> omega

/-- **A look-up** is paid for, if it has to build the index. -/
theorem Upkept.getRecord (h : s.Upkept) {id : RecordId} {j : Journal} {found : Option Record}
    (hs : s.journal.getRecord id = .ok (j, found)) : Upkept { s with journal := j } ∧
      j.buffer.credit + s.journal.buffer.records.lookupVisits ≤ s.journal.buffer.credit := by
  obtain ⟨⟨records, found'⟩, hget, hs⟩ := bind_eq_ok.1 hs
  obtain ⟨rfl, -⟩ := Prod.mk.inj (Except.ok.inj hs)
  obtain ⟨hwf, hentries, hkeys, hcredit⟩ := Records.getRecordById_pays h.records hget
  have hrecords : records.entries.Sublist s.pushed := by
    rw [hentries]
    exact h.final.records
  refine ⟨⟨{ h.final with wf := ⟨hwf, h.final.wf.scopes⟩, records := hrecords }, h.pushed,
    h.scopeKeys, ?_⟩, ?_⟩
  · exact hkeys.trans_le h.recordKeys
  · simp only [Buffer.credit]
    omega

/-- Ids are only ever added. -/
theorem use_counts {u : JournalUse} (hs : s.use u = some s') :
    s.entered.length ≤ s'.entered.length ∧ s.taken.length ≤ s'.taken.length := by
  cases u with
  | call c => exact step_counts hs
  | getRecord id =>
    obtain ⟨out, -, rfl⟩ := Option.map_eq_some_iff.1 hs
    exact ⟨le_rfl, le_rfl⟩

/-- The visits so far are paid for, with the credit that is left. -/
def PaidFor (s : JournalRun) (visits : ℕ) : Prop :=
  s.entered.length < 2 ^ 64 → s.taken.length < 2 ^ 64 → s.Upkept ∧
    s.journal.buffer.credit + visits ≤ 4 * s.entered.length + 2 * s.pushed.length

theorem PaidFor.use {visits : ℕ} {u : JournalUse} (h : s.PaidFor visits) (hs : s.use u = some s') :
    s'.PaidFor (visits + u.visits s) := by
  intro hn hm
  have hcounts := use_counts hs
  obtain ⟨hupkept, hpaid⟩ := h (by omega) (by omega)
  cases u with
  | call c =>
    obtain ⟨hupkept', hpays⟩ := hupkept.step hs hn hm
    refine ⟨hupkept', ?_⟩
    rw [JournalUse.visits]
    omega
  | getRecord id =>
    obtain ⟨⟨j, found⟩, hget, rfl⟩ := Option.map_eq_some_iff.1 hs
    obtain ⟨hupkept', hpays⟩ := hupkept.getRecord (toOption_eq_some.1 hget)
    refine ⟨hupkept', ?_⟩
    rw [JournalUse.visits]
    dsimp only
    omega

end JournalRun

/-- **The upkeep of a journal is amortised**: before the counters wrap, all that
    the calls and look-ups of a run visit to keep the storage in order is at most
    four slots for a scope that was entered and two records for one pushed. -/
theorem upkeep_amortised {runId : String} {uses : List JournalUse} {s : JournalRun}
    (hrun : Machine.run JournalRun.use (.new runId) uses = some s)
    (hn : s.entered.length < 2 ^ 64) (hm : s.taken.length < 2 ^ 64) :
    Machine.work JournalRun.use JournalUse.visits (.new runId) uses ≤
      4 * s.entered.length + 2 * s.pushed.length := by
  have hnew : (JournalRun.new runId).PaidFor 0 := by
    intro _ _
    exact ⟨JournalRun.new_upkept runId, le_rfl⟩
  have hpaid : s.PaidFor (0 + Machine.work JournalRun.use JournalUse.visits (.new runId) uses) :=
    Machine.run_work (I := JournalRun.PaidFor) (fun s n u t h hs => h.use hs) hrun hnew
  obtain ⟨-, hcredit⟩ := hpaid hn hm
  omega

/-- A scope stays open, one behind it is exited, looked up and evicted. -/
def evictedBehindOpen : List JournalUse :=
  [.call (.op (.enterScope "request" 0 0)), .call (.op (.enterScope "query" 0 0)),
    .call (.op (.exitScope ⟨1⟩ .success 5 5 5)), .getRecord ⟨0⟩, .call (.op (.trimScopes 0)),
    .call (.op .clear)]

theorem upkeep_amortised_evicted :
    ∃ s, Machine.run JournalRun.use (.new "run") evictedBehindOpen = some s ∧
      Machine.work JournalRun.use JournalUse.visits (.new "run") evictedBehindOpen = 5 ∧
      5 ≤ 4 * s.entered.length + 2 * s.pushed.length := by
  have hwork : Machine.work JournalRun.use JournalUse.visits (.new "run") evictedBehindOpen = 5 := by
    rfl
  obtain ⟨s, hrun, hn, hm⟩ : ∃ s, Machine.run JournalRun.use (.new "run") evictedBehindOpen = some s ∧
      s.entered.length < 2 ^ 64 ∧ s.taken.length < 2 ^ 64 := ⟨_, rfl, by decide, by decide⟩
  have hle := upkeep_amortised hrun hn hm
  rw [hwork] at hle
  exact ⟨s, hrun, hwork, hle⟩

end Eventline
