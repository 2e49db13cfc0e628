/-
  The storage of a `Buffer` refines plain lists.

  * `scopes_refine_list`: any run of scope operations, from any base offset,
    returns what the list of scopes returns, and every observable is that of
    the list.
  * `records_refine_list`: the same for records, with the two phases of every
    `get_record_by_id` interleaved with other operations and the id index
    built at any point or never.
-/
import Eventline.Buffer.Scopes
import Eventline.Lib.Refinement

namespace Eventline

open Checked Slots Refinement

/-! ## Scopes -/

inductive ScopeOp where
  | push (scope : Scope)
  | finalize (id : ScopeId) (millis : UInt64) (now : Instant)
  | setMessages (id : ScopeId) (msgs : ExitMessages)
  | trim (max : ℕ)
  | clear

inductive ScopeReply where
  | done
  | finalized (scope : Option Scope)
  | updated (found : Bool)
  deriving DecidableEq

/-- The scope operations of `Buffer`. -/
def Scopes.step (s : Scopes) : ScopeOp → Checked (Scopes × ScopeReply)
  | .push scope => do
    let s ← s.push ⟨scope, none⟩
    pure (s, .done)
  | .finalize id millis now => do
    let (s, result) ← s.finalizeScopeExitAt id millis now
    pure (s, .finalized (result.map Prod.fst))
  | .setMessages id msgs => do
    let (s, found) ← s.setScopeExitMessages id msgs
    pure (s, .updated found)
  | .trim max => do
    let s ← s.trim max
    pure (s, .done)
  | .clear => pure (s.clear, .done)

/-- A push finds room in the deque. -/
def Scopes.hasRoom (s : Scopes) : ScopeOp → Bool
  | .push _ => s.entries.length < usizeMax
  | _ => true

namespace ScopeList

/-- The scope closed, if it is open. -/
def close (millis : UInt64) (s : Scope) : Scope :=
  if s.exitedAt.isSome then s else { s with exitedAt := some millis }

/-- Drop the oldest closed scopes until at most `max` closed ones remain. -/
def trim (max : ℕ) (l : List Scope) : List Scope :=
  let closed := fun s : Scope => s.exitedAt.isSome
  dropFirst closed (l.countP closed - max) l

/-- The plain list of scopes: the state after an operation and its reply. -/
def step (l : List Scope) : ScopeOp → List Scope × ScopeReply
  | .push scope => (l ++ [scope], .done)
  | .finalize id millis _ =>
    (updateFirst (fun s => s.id = id) (close millis) l,
      .finalized ((l.find? fun s => s.id = id).bind fun s =>
        if s.exitedAt.isSome then none else some { s with exitedAt := some millis }))
  | .setMessages id msgs =>
    (updateFirst (fun s => s.id = id)
      (fun s => { s with exitMessages := s.exitMessages.overlay msgs }) l,
      .updated (l.any fun s => s.id = id))
  | .trim max => (trim max l, .done)
  | .clear => ([], .done)

end ScopeList

/-- Every observable of the storage is that of the list. -/
structure Scopes.Observes (s : Scopes) (l : List Scope) : Prop where
  len : s.len = l.length
  snapshot : s.snapshot = l
  getScope : ∀ i, s.getScope i = l[i]?
  getScopeById : ∀ id, s.getScopeById id = .ok (l.find? fun x => x.id = id)

namespace Scopes

theorem find?_scopes (l : List BufferedScope) (id : ScopeId) :
    (l.find? (hasId id)).map (·.scope) = (l.map (·.scope)).find? fun x => x.id = id := by
  rw [List.find?_map]
  rfl

theorem isSome_find? (l : List BufferedScope) (id : ScopeId) :
    (l.find? (hasId id)).isSome = l.any (hasId id) := by
  rw [Bool.eq_iff_iff, List.find?_isSome, List.any_eq_true]

theorem WF.observes {s : Scopes} (h : s.WF) : s.Observes (s.retained.map (·.scope)) where
  len := by simpa using h.len
  snapshot := rfl
  getScope i := by rw [getScope_eq h, List.getElem?_map]
  getScopeById id := by rw [getScopeById_ok h, find?_scopes]

/-- One operation on a well-formed storage is the operation on the list. -/
theorem step_refines {s : Scopes} (h : s.WF) (op : ScopeOp) (hroom : s.hasRoom op = true) :
    ∃ t, s.step op = .ok (t, (ScopeList.step (s.retained.map (·.scope)) op).2) ∧ t.WF ∧
      t.retained.map (·.scope) = (ScopeList.step (s.retained.map (·.scope)) op).1 := by
  cases op with
  | push scope =>
    have hlt : s.entries.length < usizeMax := by simpa [hasRoom] using hroom
    obtain ⟨t, ht, hwf, hr⟩ := push_ok h (s.retained_length_le.trans_lt hlt) ⟨scope, none⟩
    exact ⟨t, by rw [step, ht]; rfl, hwf, by rw [hr]; simp [ScopeList.step]⟩
  | finalize id millis now =>
    obtain ⟨t, ht, hwf, hr⟩ := finalizeScopeExitAt_ok h id millis now
    refine ⟨t, ?_, hwf, ?_⟩
    · rw [step, ht, ok_bind]
      simp only [ScopeList.step, ← find?_scopes, pure_eq_ok]
      cases s.retained.find? (hasId id) with
      | none => rfl
      | some b =>
        simp only [Option.bind_some, Option.map_some, exitOf, isClosed]
        by_cases hcl : b.scope.exitedAt.isSome <;> simp [hcl]
    · rw [hr]
      refine map_updateFirst (p := hasId id) (q := fun s : Scope => decide (s.id = id))
        (g := ScopeList.close millis) (fun _ => rfl) (fun b _ => ?_) _
      simp only [closeIfOpen, isClosed, ScopeList.close]
      by_cases hcl : b.scope.exitedAt.isSome <;> simp [hcl]
  | setMessages id msgs =>
    obtain ⟨t, ht, hwf, hr⟩ := setScopeExitMessages_ok h id msgs
    refine ⟨t, ?_, hwf, ?_⟩
    · rw [step, ht, ok_bind]
      simp only [ScopeList.step, pure_eq_ok, List.any_map, isSome_find?]
      rfl
    · rw [hr]
      exact map_updateFirst (p := hasId id) (q := fun s : Scope => decide (s.id = id))
        (fun _ => rfl) (fun _ _ => rfl) _
  | trim max =>
    obtain ⟨t, ht, hwf, hr⟩ := trim_ok h max
    refine ⟨t, by rw [step, ht]; rfl, hwf, ?_⟩
    rw [hr]
    simp only [ScopeList.step, ScopeList.trim, List.countP_map]
    exact map_dropFirst (p := isClosed) (q := fun s : Scope => s.exitedAt.isSome)
      (fun _ => rfl) _ _
  | clear => exact ⟨s.clear, rfl, empty_wf, rfl⟩

end Scopes

/-- **Scope storage refines a plain list**: from any slots at any base
    offset, no run stops with a fault while the pushes find room, and its
    replies and the observables after it are those of the list. -/
theorem scopes_refine_list (base : ℕ) (slots : List (Option BufferedScope)) (ops : List ScopeOp)
    (hbase : base + slots.length ≤ usizeMax)
    (hroom : permitted Scopes.hasRoom Scopes.step (Scopes.ofEntries base slots) ops = true) :
    ∃ s replies l, runM Scopes.step (Scopes.ofEntries base slots) ops = .ok (s, replies) ∧
      Explained (fun l op r l' => ScopeList.step l op = (l', r))
        (slots.reduceOption.map (·.scope)) ops replies l ∧
      s.Observes l := by
  obtain ⟨s, rs, l, hs, hl, hwf, rfl⟩ := run_explained
    (fun l op r l' => ScopeList.step l op = (l', r))
    (fun (s : Scopes) l => s.WF ∧ s.retained.map (·.scope) = l)
    (fun s l op ⟨hwf, he⟩ hp => by
      obtain ⟨t, ht, htwf, hte⟩ := Scopes.step_refines hwf op hp
      subst he
      exact ⟨t, _, _, ht, rfl, htwf, hte⟩)
    ⟨Scopes.ofEntries_wf hbase, rfl⟩ hroom
  exact ⟨s, rs, _, hs, hl, hwf.observes⟩

/-- Two scopes of one id at the greatest base offset: the first is closed and
    evicted, the second found. -/
theorem scopes_refine_list_rebased :
    let a : Scope := ⟨⟨3⟩, none, 5, some "a", none, .none⟩
    ∃ s replies l, runM Scopes.step (Scopes.ofEntries usizeMax [])
        [.push a, .push a, .finalize ⟨3⟩ 9 0, .trim 0, .finalize ⟨3⟩ 9 0, .clear, .push a] =
          .ok (s, replies) ∧
      Explained (fun l op r l' => ScopeList.step l op = (l', r)) []
        [.push a, .push a, .finalize ⟨3⟩ 9 0, .trim 0, .finalize ⟨3⟩ 9 0, .clear, .push a]
        replies l ∧
      s.Observes l :=
  scopes_refine_list _ _ _ (by decide) (by decide)

/-! ## Records -/

/-- A critical section on the records of a `Buffer` and its clones.  The
    look-up of a caller has two: `lookup`, and `resume` if it has to wait for
    the write lock. -/
inductive RecordOp where
  | push (record : Record)
  | trim (max : ℕ)
  | clear
  | lookup (caller : ℕ) (id : RecordId)
  | resume (caller : ℕ)

inductive RecordReply where
  | done
  | waits
  | answer (record : Option Record)
  deriving DecidableEq

/-- The records, and the ids that callers between their phases look for. -/
structure SharedRecords where
  records : Records
  waiting : ℕ → Option RecordId

namespace SharedRecords

/-- What the read-locked phase leaves to do. -/
def afterRead (s : SharedRecords) (caller : ℕ) (id : RecordId) :
    Option (Option Record) → SharedRecords × RecordReply
  | some record => (s, .answer record)
  | none => ({ s with waiting := Function.update s.waiting caller (some id) }, .waits)

def resume (s : SharedRecords) (caller : ℕ) (id : RecordId) :
    Checked (SharedRecords × RecordReply) := do
  let (records, record) ← s.records.lookupWrite id
  pure (⟨records, Function.update s.waiting caller none⟩, .answer record)

/-- The record operations of `Buffer`, by critical section. -/
def step (s : SharedRecords) : RecordOp → Checked (SharedRecords × RecordReply)
  | .push record => do
    let records ← s.records.push record
    pure ({ s with records }, .done)
  | .trim max => do
    let records ← s.records.trim max
    pure ({ s with records }, .done)
  | .clear => pure ({ s with records := s.records.clear }, .done)
  | .lookup caller id => do
    let found ← s.records.lookupRead id
    pure (s.afterRead caller id found)
  | .resume caller =>
    match s.waiting caller with
    | some id => s.resume caller id
    | none => pure (s, .done)

/-- A push finds room in the deque; a caller is in one look-up at a time. -/
def enabled (s : SharedRecords) : RecordOp → Bool
  | .push _ => s.records.entries.length < usizeMax
  | .lookup caller _ => (s.waiting caller).isNone
  | .resume caller => (s.waiting caller).isSome
  | _ => true

end SharedRecords

/-- The plain list of records, with the ids its callers wait for. -/
structure RecordList where
  records : List Record
  waiting : ℕ → Option RecordId

/-- The plain list: trimming keeps the newest entries, and a look-up that is
    answered is answered with the first entry that has the id at that moment.
    Whether the first phase of a look-up answers is left open. -/
inductive RecordList.Step : RecordList → RecordOp → RecordReply → RecordList → Prop
  | push {l w r} : Step ⟨l, w⟩ (.push r) .done ⟨l ++ [r], w⟩
  | trim {l w max} : Step ⟨l, w⟩ (.trim max) .done ⟨l.drop (l.length - max), w⟩
  | clear {l w} : Step ⟨l, w⟩ .clear .done ⟨[], w⟩
  | found {l w c id} : Step ⟨l, w⟩ (.lookup c id) (.answer (l.find? fun r => r.id = id)) ⟨l, w⟩
  | waits {l w c id} : Step ⟨l, w⟩ (.lookup c id) .waits ⟨l, Function.update w c (some id)⟩
  | resume {l w c id} : w c = some id →
      Step ⟨l, w⟩ (.resume c) (.answer (l.find? fun r => r.id = id)) ⟨l, Function.update w c none⟩

/-- Every observable of the storage is that of the list, the answer of a
    look-up made now included. -/
structure Records.Observes (s : Records) (l : List Record) : Prop where
  len : s.len = l.length
  snapshot : s.snapshot = l
  getRecord : ∀ i : ℕ, s.getRecord i = l[i]?
  lookupRead : ∀ id, s.lookupRead id = .ok none ∨
    s.lookupRead id = .ok (some (l.find? fun r => r.id = id))
  lookupWrite : ∀ id, ∃ t, s.lookupWrite id = .ok (t, l.find? fun r => r.id = id)

theorem Records.WF.observes {s : Records} (h : s.WF) : s.Observes s.entries where
  len := rfl
  snapshot := rfl
  getRecord _ := rfl
  lookupRead id := by
    rw [lookupRead_ok h]
    cases s.byId with
    | none => exact .inl rfl
    | some index => exact .inr rfl
  lookupWrite id := by
    obtain ⟨t, ht, -, -⟩ := lookupWrite_ok h id
    exact ⟨t, ht⟩

/-- One critical section on well-formed records is a step of the list. -/
theorem SharedRecords.step_refines {s : SharedRecords} (h : s.records.WF) (op : RecordOp)
    (hen : s.enabled op = true) :
    ∃ t r, s.step op = .ok (t, r) ∧ t.records.WF ∧
      RecordList.Step ⟨s.records.entries, s.waiting⟩ op r ⟨t.records.entries, t.waiting⟩ := by
  cases op with
  | push record =>
    obtain ⟨t, ht, hwf, he⟩ := Records.push_ok h (by simpa [enabled] using hen) record
    exact ⟨{ s with records := t }, .done, by rw [step, ht]; rfl, hwf, he ▸ .push⟩
  | trim max =>
    obtain ⟨t, ht, hwf, he⟩ := Records.trim_ok h max
    exact ⟨{ s with records := t }, .done, by rw [step, ht]; rfl, hwf, he ▸ .trim⟩
  | clear => exact ⟨{ s with records := s.records.clear }, .done, rfl, Records.clear_wf _, .clear⟩
  | lookup caller id =>
    rw [step, Records.lookupRead_ok h]
    cases s.records.byId with
    | none => exact ⟨_, _, rfl, h, .waits⟩
    | some index => exact ⟨_, _, rfl, h, .found⟩
  | resume caller =>
    obtain ⟨id, hid⟩ := Option.isSome_iff_exists.1 (show (s.waiting caller).isSome from hen)
    obtain ⟨t, ht, hwf, he⟩ := Records.lookupWrite_ok h id
    refine ⟨⟨t, Function.update s.waiting caller none⟩,
      .answer (s.records.entries.find? fun r => r.id = id), ?_, hwf, ?_⟩
    · rw [step, hid]
      simp only [SharedRecords.resume, ht, ok_bind]
      rfl
    · simp only [he]
      exact .resume hid

/-- **Record storage refines a plain list**, whether and whenever its id index
    is built: from any entries at any base offset, no interleaving of critical
    sections stops with a fault while the pushes find room, every look-up is
    answered as the list answers it at that moment, and the observables
    afterwards are those of the list. -/
theorem records_refine_list (base : ℕ) (entries : List Record) (indexed : Bool)
    (ops : List RecordOp) (hbase : base + entries.length ≤ usizeMax)
    (hen : permitted SharedRecords.enabled SharedRecords.step
      ⟨Records.ofEntries base entries indexed, fun _ => none⟩ ops = true) :
    ∃ s replies l, runM SharedRecords.step ⟨Records.ofEntries base entries indexed, fun _ => none⟩
        ops = .ok (s, replies) ∧
      Explained RecordList.Step ⟨entries, fun _ => none⟩ ops replies l ∧
      s.records.Observes l.records := by
  obtain ⟨s, rs, l, hs, hl, hwf, rfl⟩ := run_explained RecordList.Step
    (fun (s : SharedRecords) l => s.records.WF ∧ (⟨s.records.entries, s.waiting⟩ : RecordList) = l)
    (fun s l op ⟨hwf, he⟩ hp => by
      obtain ⟨t, r, ht, htwf, hstep⟩ := SharedRecords.step_refines hwf op hp
      subst he
      exact ⟨t, r, _, ht, hstep, htwf, rfl⟩)
    ⟨Records.ofEntries_wf indexed hbase, rfl⟩ hen
  exact ⟨s, rs, _, hs, hl, hwf.observes⟩

/-- With two records of one id and the keys at their greatest: the look-up of
    one caller waits while others push and trim, and the index is rebased. -/
theorem records_refine_list_rebased :
    let r : UInt64 → Record := fun t => ⟨⟨7⟩, none, t, .scopeExit .success t⟩
    ∃ s replies l, runM SharedRecords.step
        ⟨Records.ofEntries (usizeMax - 1) [r 1] false, fun _ => none⟩
        [.lookup 0 ⟨7⟩, .push (r 2), .resume 0, .trim 1, .push (r 3), .lookup 1 ⟨7⟩] =
          .ok (s, replies) ∧
      Explained RecordList.Step ⟨[r 1], fun _ => none⟩
        [.lookup 0 ⟨7⟩, .push (r 2), .resume 0, .trim 1, .push (r 3), .lookup 1 ⟨7⟩] replies l ∧
      s.records.Observes l.records :=
  records_refine_list _ _ _ _ (by decide) (by decide)

end Eventline
