/-
  Merging the entries of one run (`RunBuilder::add_scope` and `add_record` of
  `replay/load.rs`).

  The builder holds the run and hash maps into its lists.

  * `RunBuilder.WF`: the maps lead to the first entry with an id, and scope ids
    are distinct.
  * `absorbScope`, `absorbRecord` say what an entry does to the lists alone;
    `addScope_ok` and `addRecord_ok` are the refinement, and that no index is
    out of bounds.
-/
import Eventline.Wire.Codec
import Eventline.Lib.Slots

namespace Eventline

open Text Checked Slots

structure ReplayIssue where
  source : Option String
  line : Option ℕ
  kind : ReplayIssueKind
  message : String
  deriving DecidableEq, Repr

structure SavedRun where
  runId : Option String
  headers : List String
  records : List Record
  scopes : List Scope
  missingScopeMetadata : List ScopeId

structure RunBuilder where
  run : SavedRun
  source : Option String
  records : RecordId → Option ℕ
  scopes : ScopeId → Option ℕ
  outcomes : ScopeId → Option (Outcome × UInt64)

/-- A later snapshot of a scope contradicts the first one. -/
def Scope.conflicts (existing incoming : Scope) : Bool :=
  existing.parent ≠ incoming.parent || existing.enteredAt ≠ incoming.enteredAt ||
    existing.name ≠ incoming.name ||
    match existing.exitedAt, incoming.exitedAt with
    | some a, some b => a ≠ b
    | _, _ => false

/-- A later snapshot adds an exit, and messages unless it is an older view. -/
def Scope.merge (existing incoming : Scope) : Scope :=
  { existing with
    exitedAt := existing.exitedAt.or incoming.exitedAt
    exitMessages :=
      if existing.exitedAt.isNone || incoming.exitedAt.isSome then
        existing.exitMessages.overlay incoming.exitMessages
      else existing.exitMessages }

/-- How a record relates to the first one with its id. -/
inductive RecordCheck where
  | fresh
  | duplicate
  | conflicting

namespace RunBuilder

/-- `RunBuilder::new`. -/
def new (runId : Option String) (source : Option String) : RunBuilder :=
  ⟨⟨runId, [], [], [], []⟩, source, fun _ => none, fun _ => none, fun _ => none⟩

def conflictingScopeMessage (id : ScopeId) : String :=
  "conflicting metadata for scope " ++ id.debug ++ "; retained the first metadata"

def addScope (b : RunBuilder) (incoming : Scope) : Checked (RunBuilder × Option String) :=
  match b.scopes incoming.id with
  | none =>
    pure ({ b with
      scopes := Function.update b.scopes incoming.id (some b.run.scopes.length)
      run := { b.run with scopes := b.run.scopes ++ [incoming] } }, none)
  | some i => do
    let existing ← index b.run.scopes i
    if existing.conflicts incoming then pure (b, some (conflictingScopeMessage incoming.id))
    else
      pure ({ b with
        run := { b.run with scopes := b.run.scopes.set i (existing.merge incoming) } }, none)

/-- The value of the wire form of a record, without embedded scope. -/
def wireValue (serde : SerdeJson) (record : Record) : Checked Json :=
  match serde.fromSlice (renderJsonlInRun serde record none "comparison") with
  | .ok v => pure v
  | .error _ => .error (.expectFailed "loaded record has a valid wire representation")

/-- The comparison with the first record of the same id. -/
def checkRecord (serde : SerdeJson) (b : RunBuilder) (record : Record) : Checked RecordCheck :=
  match b.records record.id with
  | none => pure .fresh
  | some i => do
    let existing ← index b.run.records i
    let old ← wireValue serde existing
    let new ← wireValue serde record
    pure (if old.same new then .duplicate else .conflicting)

def conflictingRecordMessage (id : RecordId) : String :=
  "record " ++ id.debug ++ " has conflicting contents; retained both entries"

def contradictoryExitMessage (id : ScopeId) : String :=
  "scope " ++ id.debug ++ " has contradictory exit records; " ++
    "retained the observed records without choosing an outcome"

/-- The scope that an exit record names, and what it observed. -/
def exitOf (record : Record) : Option (ScopeId × Outcome × UInt64) :=
  match record.kind, record.scope with
  | .scopeExit outcome durationNs, some id => some (id, outcome, durationNs)
  | _, _ => none

/-- The outcomes after an exit: the first one of a scope is kept. -/
def observe (b : RunBuilder) (record : Record) : ScopeId → Option (Outcome × UInt64) :=
  match exitOf record with
  | some (id, observed) =>
    if (b.outcomes id).isSome then b.outcomes else Function.update b.outcomes id (some observed)
  | none => b.outcomes

/-- The issue of an exit that contradicts an earlier one of its scope. -/
def exitConflict (b : RunBuilder) (record : Record) : Option (ReplayIssueKind × String) :=
  match exitOf record with
  | some (id, observed) =>
    if (b.outcomes id).any fun previous => previous ≠ observed then
      some (.conflictingScope, contradictoryExitMessage id)
    else none
  | none => none

/-- The record appended, its exit observed. -/
def pushRecord (b : RunBuilder) (record : Record) : RunBuilder :=
  { b with
    outcomes := b.observe record
    run := { b.run with records := b.run.records ++ [record] } }

def addRecord (serde : SerdeJson) (b : RunBuilder) (record : Record) :
    Checked (RunBuilder × Option (ReplayIssueKind × String)) := do
  match ← b.checkRecord serde record with
  | .duplicate => pure (b, none)
  | .conflicting =>
    pure (b.pushRecord record, some (.conflictingRecord, conflictingRecordMessage record.id))
  | .fresh =>
    let records := Function.update b.records record.id (some b.run.records.length)
    pure ({ b with records }.pushRecord record, b.exitConflict record)

end RunBuilder

/-! ## What an entry does to the lists -/

/-- The scopes after a snapshot: merged with the first of its id, or appended. -/
def absorbScope (l : List Scope) (incoming : Scope) : List Scope :=
  if l.any fun s => s.id = incoming.id then
    updateFirst (fun s => s.id = incoming.id)
      (fun s => if s.conflicts incoming then s else s.merge incoming) l
  else l ++ [incoming]

/-- The value that two records of one id are compared by: the text of the record
    read again, with its zeros unsigned, since `==` takes them for equal. -/
def comparisonJson (serde : SerdeJson) (record : Record) : Json :=
  ((jsonRecord serde record none "comparison").canonical.mapDoubles serde.reread).unsigned

/-- The records after a record: dropped if the first one of its id has the same
    wire form, and appended otherwise. -/
def absorbRecord (serde : SerdeJson) (l : List Record) (record : Record) : List Record :=
  if (l.find? fun r => r.id = record.id).any fun r =>
      comparisonJson serde r = comparisonJson serde record then l
  else l ++ [record]

namespace RunBuilder

/-- The maps lead to the first entry with an id, and scope ids are distinct. -/
structure WF (b : RunBuilder) : Prop where
  records : b.records = fun id => b.run.records.findIdx? fun r => r.id = id
  scopes : b.scopes = fun id => b.run.scopes.findIdx? fun s => s.id = id
  nodup : (b.run.scopes.map (·.id)).Nodup

theorem new_wf (runId source : Option String) : (new runId source).WF := ⟨rfl, rfl, List.nodup_nil⟩

theorem findIdx?_concat {α K : Type} [DecidableEq K] (f : α → K) (l : List α) (a : α)
    (h : l.findIdx? (fun x => f x = f a) = none) :
    (fun k => (l ++ [a]).findIdx? fun x => f x = k) =
      Function.update (fun k => l.findIdx? fun x => f x = k) (f a) (some l.length) := by
  funext k
  by_cases hk : k = f a
  · subst hk
    simp [List.findIdx?_append, h]
  · simp [List.findIdx?_append, Function.update_of_ne hk, List.findIdx?_cons, Ne.symm hk]

/-- The entry that an index leads to splits the list. -/
theorem findIdx?_split {α : Type} {p : α → Bool} {l : List α} {i : ℕ} (h : l.findIdx? p = some i) :
    ∃ pre a post, l = pre ++ a :: post ∧ pre.length = i ∧ p a = true ∧
      (∀ x ∈ pre, p x = false) ∧ index l i = .ok a := by
  obtain ⟨hlt, hp, hmin⟩ := List.findIdx?_eq_some_iff_getElem.1 h
  refine ⟨l.take i, l[i], l.drop (i + 1), ?_, by simp [hlt.le], hp, ?_,
    index_ok (List.getElem?_eq_getElem hlt)⟩
  · rw [← List.drop_eq_getElem_cons hlt, List.take_append_drop]
  · intro x hx
    obtain ⟨j, hj, rfl⟩ := List.mem_take_iff_getElem.1 hx
    simpa using hmin j (by omega)

theorem any_of_split {α : Type} {p : α → Bool} {pre post : List α} {a : α} (ha : p a = true) :
    (pre ++ a :: post).any p = true := by simp [ha]

/-- What a snapshot does to a well-formed builder. -/
theorem addScope_ok {b : RunBuilder} (h : b.WF) (incoming : Scope) :
    ∃ b', b.addScope incoming = .ok (b',
        if b.run.scopes.any fun s => s.id = incoming.id && s.conflicts incoming then
          some (conflictingScopeMessage incoming.id) else none) ∧ b'.WF ∧
      b'.run = { b.run with scopes := absorbScope b.run.scopes incoming } ∧
      b'.source = b.source ∧ b'.outcomes = b.outcomes := by
  have hidx : b.scopes incoming.id = b.run.scopes.findIdx? fun s => s.id = incoming.id := by
    rw [h.scopes]
  cases hi : b.run.scopes.findIdx? fun s => s.id = incoming.id with
  | none =>
    have hno : ∀ s ∈ b.run.scopes, s.id ≠ incoming.id := by
      simpa [List.findIdx?_eq_none_iff] using hi
    have hany : b.run.scopes.any (fun s => s.id = incoming.id && s.conflicts incoming) = false := by
      rw [List.any_eq_false]
      intro s hs
      simp [hno s hs]
    have habs : absorbScope b.run.scopes incoming = b.run.scopes ++ [incoming] := by
      rw [absorbScope, if_neg]
      simpa using hno
    rw [addScope, hidx, hi, hany, habs]
    refine ⟨_, rfl, ⟨h.records, ?_, ?_⟩, rfl, rfl, rfl⟩
    · simp only [h.scopes]
      exact (findIdx?_concat Scope.id _ _ hi).symm
    · rw [List.map_append, List.nodup_append]
      refine ⟨h.nodup, by simp, ?_⟩
      intro k hk k' hk' hkk
      obtain ⟨s, hs, rfl⟩ := List.mem_map.1 hk
      exact hno s hs (by simpa using hkk.trans (List.mem_singleton.1 hk'))
  | some i =>
    obtain ⟨pre, s, post, hl, hlen, hs, hpre, hget⟩ := findIdx?_split hi
    have hid : s.id = incoming.id := by simpa using hs
    have habs : absorbScope b.run.scopes incoming =
        pre ++ (if s.conflicts incoming then s else s.merge incoming) :: post := by
      rw [absorbScope, if_pos (by rw [hl]; exact any_of_split hs), hl,
        updateFirst_split (p := fun s : Scope => decide (s.id = incoming.id)) hs hpre]
    have hpost : ∀ x ∈ post, x.id ≠ incoming.id := by
      have hnd := h.nodup
      rw [hl, List.map_append, List.map_cons, List.nodup_middle, List.nodup_cons] at hnd
      intro x hx hxid
      exact hnd.1 (List.mem_append_right _ (List.mem_map.2 ⟨x, hx, hxid.trans hid.symm⟩))
    have hany : b.run.scopes.any (fun s => s.id = incoming.id && s.conflicts incoming) =
        s.conflicts incoming := by
      have hpre' : pre.any (fun s => s.id = incoming.id && s.conflicts incoming) = false := by
        rw [List.any_eq_false]
        intro x hx
        simp [show ¬ x.id = incoming.id by simpa using hpre x hx]
      have hpost' : post.any (fun s => s.id = incoming.id && s.conflicts incoming) = false := by
        rw [List.any_eq_false]
        intro x hx
        simp [hpost x hx]
      rw [hl, List.any_append, List.any_cons, hpre', hpost']
      simp [hid]
    rw [addScope, hidx, hi, hany, habs]
    simp only [hget, ok_bind]
    cases hc : s.conflicts incoming with
    | true => exact ⟨b, rfl, h, by simp only [if_true, ← hl], rfl, rfl⟩
    | false =>
      have hset : b.run.scopes.set i (s.merge incoming) = pre ++ s.merge incoming :: post := by
        rw [hl, ← hlen]
        simp
      refine ⟨_, rfl, ⟨h.records, ?_, ?_⟩, by simp [hset], rfl, rfl⟩
      · simp only [h.scopes, hset]
        rw [hl]
        funext k
        simp [List.findIdx?_append, List.findIdx?_cons, Scope.merge]
      · have hnd := h.nodup
        rw [hl] at hnd
        simp only [hset]
        simpa [Scope.merge] using hnd

/-- The ids of the scopes after a snapshot. -/
theorem mem_absorbScope_ids {l : List Scope} {incoming : Scope} {id : ScopeId} :
    id ∈ (absorbScope l incoming).map (·.id) ↔ id ∈ l.map (·.id) ∨ id = incoming.id := by
  unfold absorbScope
  by_cases hany : l.any fun s => s.id = incoming.id
  · rw [if_pos hany]
    have hmap : (updateFirst (fun s => decide (s.id = incoming.id))
        (fun s => if s.conflicts incoming then s else s.merge incoming) l).map Scope.id =
        l.map Scope.id :=
      map_updateFirst_of_eq (fun s => by split_ifs <;> rfl) l
    rw [hmap]
    constructor
    · exact .inl
    · rintro (h | rfl)
      · exact h
      · simpa using hany
  · rw [if_neg hany]
    simp

/-! ## Records -/

theorem wireValue_ok {serde : SerdeJson} (hs : serde.Lawful) (record : Record) :
    ∃ v, wireValue serde record = .ok v ∧ v.unsigned = comparisonJson serde record := by
  refine ⟨_, ?_, rfl⟩
  rw [wireValue, hs.fromSlice_toVec _ _ (depth_jsonRecord serde record none "comparison")
    (renderJsonlInRun_eq hs record none "comparison")]
  rfl

/-- The record that the comparison sees. -/
theorem comparisonJson_eq {serde : SerdeJson} (hs : serde.Lawful) (record : Record) :
    comparisonJson serde record =
      (jsonRecord serde (record.reread serde).unsigned none "comparison").canonical := by
  rw [comparisonJson, Json.unsigned, ← jsonRecord_mapDoubles hs, ← jsonRecord_mapDoubles hs]
  rfl

/-- **Records that are the same on the wire** are equal, doubles apart: these
    read the same, up to the sign of a zero. -/
theorem reread_eq_of_wire_eq {serde : SerdeJson} (hs : serde.Lawful) {r r' : Record}
    (h : r.Paired none) (h' : r'.Paired none)
    (he : comparisonJson serde r = comparisonJson serde r') :
    (r.reread serde).unsigned = (r'.reread serde).unsigned := by
  rw [comparisonJson_eq hs, comparisonJson_eq hs] at he
  exact eq_of_jsonRecord_eq hs ((h.mapDoubles _).mapDoubles _) ((h'.mapDoubles _).mapDoubles _) he

theorem id_eq_of_wire_eq {serde : SerdeJson} (hs : serde.Lawful) {r r' : Record}
    (h : r.Paired none) (h' : r'.Paired none)
    (he : comparisonJson serde r = comparisonJson serde r') : r.id = r'.id := by
  have heq := congrArg Record.id (reread_eq_of_wire_eq hs h h' he)
  exact heq

theorem exitOf_mapDoubles (f : FiniteF64 → FiniteF64) (r : Record) :
    exitOf (r.mapDoubles f) = exitOf r := by
  obtain ⟨id, scope, timeNs, kind⟩ := r
  cases kind with
  | event kind name fields => rfl
  | scopeExit outcome durationNs => rfl

theorem exitOf_eq_of_wire_eq {serde : SerdeJson} (hs : serde.Lawful) {r r' : Record}
    (h : r.Paired none) (h' : r'.Paired none)
    (he : comparisonJson serde r = comparisonJson serde r') : exitOf r = exitOf r' := by
  have heq := congrArg exitOf (reread_eq_of_wire_eq hs h h' he)
  rwa [Record.unsigned, Record.unsigned, Record.reread, Record.reread, exitOf_mapDoubles,
    exitOf_mapDoubles, exitOf_mapDoubles, exitOf_mapDoubles] at heq

/-- A record without doubles has no other record with its wire form. -/
theorem eq_of_wire_eq {serde : SerdeJson} (hs : serde.Lawful) {r r' : Record}
    (h : r.Paired none) (h' : r'.Paired none) (hfree : r'.doubleFree = true)
    (he : comparisonJson serde r = comparisonJson serde r') : r = r' := by
  have heq := reread_eq_of_wire_eq hs h h' he
  have hr : r.doubleFree = true := by
    rw [← Record.doubleFree_mapDoubles serde.reread, ← Record.doubleFree_mapDoubles
      FiniteF64.unsigned]
    rw [show (r.mapDoubles serde.reread).mapDoubles FiniteF64.unsigned =
      (r'.mapDoubles serde.reread).mapDoubles FiniteF64.unsigned from heq]
    rwa [Record.doubleFree_mapDoubles, Record.doubleFree_mapDoubles]
  rwa [Record.reread_of_doubleFree serde hr, Record.reread_of_doubleFree serde hfree,
    Record.unsigned, Record.unsigned, Record.mapDoubles_of_doubleFree _ hr,
    Record.mapDoubles_of_doubleFree _ hfree] at heq

/-- What a record does to a well-formed builder. -/
theorem addRecord_ok {serde : SerdeJson} (hs : serde.Lawful) {b : RunBuilder} (h : b.WF)
    (record : Record) :
    ∃ b' issue, b.addRecord serde record = .ok (b', issue) ∧ b'.WF ∧
      b'.run = { b.run with records := absorbRecord serde b.run.records record } ∧
      b'.source = b.source ∧ b'.scopes = b.scopes := by
  have hidx : b.records record.id = b.run.records.findIdx? fun r => r.id = record.id := by
    rw [h.records]
  cases hi : b.run.records.findIdx? fun r => r.id = record.id with
  | none =>
    have hfind : (b.run.records.find? fun r => r.id = record.id) = none := by
      simpa [List.findIdx?_eq_none_iff] using hi
    have habs : absorbRecord serde b.run.records record = b.run.records ++ [record] := by
      rw [absorbRecord, hfind]
      rfl
    rw [addRecord, checkRecord, hidx, hi, habs]
    refine ⟨_, _, rfl, ⟨?_, h.scopes, h.nodup⟩, rfl, rfl, rfl⟩
    simp only [pushRecord, h.records]
    exact (findIdx?_concat Record.id _ _ hi).symm
  | some i =>
    obtain ⟨pre, r, post, hl, -, hr, hpre, hget⟩ := findIdx?_split hi
    have hfind : (b.run.records.find? fun r => r.id = record.id) = some r := by
      have hnone : pre.find? (fun r => r.id = record.id) = none :=
        List.find?_eq_none.2 (by simpa using hpre)
      rw [hl, List.find?_append, hnone, List.find?_cons, hr]
      rfl
    obtain ⟨old, hold, hwire⟩ := wireValue_ok hs r
    obtain ⟨new, hnew, hwire'⟩ := wireValue_ok hs record
    rw [addRecord, checkRecord, hidx, hi, absorbRecord, hfind]
    simp only [hget, ok_bind, hold, hnew, Option.any_some, decide_eq_true_eq, pure_eq_ok,
      Json.same_iff, hwire, hwire']
    by_cases heq : comparisonJson serde r = comparisonJson serde record
    · simp only [heq, if_true]
      exact ⟨b, none, rfl, h, rfl, rfl, rfl⟩
    · simp only [heq, if_false]
      refine ⟨b.pushRecord record, _, rfl, ⟨?_, h.scopes, h.nodup⟩, rfl, rfl, rfl⟩
      simp only [pushRecord, h.records]
      funext k
      rw [List.findIdx?_append]
      by_cases hk : record.id = k
      · subst hk
        simp [hi]
      · simp [List.findIdx?_cons, hk]

end RunBuilder

end Eventline
