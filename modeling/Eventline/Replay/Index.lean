/-
  Indexes over the records and scopes of a run (`ReplayIndex` of `replay.rs`).

  * `ReplayIndex.Indexes`: the maps over the records so far are the first record
    of each id and the group of each scope; one iteration keeps this.
  * `index_agrees`: every query on an index is a linear scan of the slices that
    it was made of, whatever ids are repeated or missing.
-/
import Eventline.Replay.Outcomes

namespace Eventline

open HashIndex

/-- `records_for_scope`. -/
def recordsForScope (records : List Record) (scopeId : ScopeId) : List Record :=
  records.filter fun record => record.scope = some scopeId

structure ReplayIndex where
  records : List Record
  scopes : ScopeId → Option Scope
  recordsById : RecordId → Option Record
  recordsByScope : ScopeId → Option (List Record)

namespace ReplayIndex

/-- One iteration of the loop of `ReplayIndex::new`. -/
def indexRecord (maps : (RecordId → Option Record) × (ScopeId → Option (List Record)))
    (record : Record) : (RecordId → Option Record) × (ScopeId → Option (List Record)) :=
  let byId := orInsert Record.id maps.1 record
  match record.scope with
  | some scope => (byId, pushTo maps.2 scope record)
  | none => (byId, maps.2)

def new (records : List Record) (scopes : List Scope) : ReplayIndex :=
  let (recordsById, recordsByScope) := records.foldl indexRecord (fun _ => none, fun _ => none)
  ⟨records, indexScopes scopes, recordsById, recordsByScope⟩

def scope (index : ReplayIndex) (id : ScopeId) : Option Scope := index.scopes id

def record (index : ReplayIndex) (id : RecordId) : Option Record := index.recordsById id

/-- `ReplayIndex::records_for_scope`: the group of the scope, if there is one. -/
def recordsForScope (index : ReplayIndex) (id : ScopeId) : List Record :=
  (index.recordsByScope id).toList.flatten

def scopeOutcomes (index : ReplayIndex) : List ScopeOutcome :=
  collectOutcomes index.records index.scopes

/-! ## The maps -/

/-- The maps index the records. -/
structure Indexes (records : List Record)
    (maps : (RecordId → Option Record) × (ScopeId → Option (List Record))) : Prop where
  byId : maps.1 = first Record.id records
  byScope : maps.2 = group Record.scope records

/-- One iteration indexes one more record. -/
theorem Indexes.concat {records : List Record}
    {maps : (RecordId → Option Record) × (ScopeId → Option (List Record))}
    (h : Indexes records maps) (r : Record) : Indexes (records ++ [r]) (indexRecord maps r) := by
  unfold indexRecord
  rw [h.byId, h.byScope]
  cases hscope : r.scope with
  | none => exact ⟨orInsert_first records r, (group_concat_of_none records hscope).symm⟩
  | some id => exact ⟨orInsert_first records r, pushTo_group records hscope⟩

theorem foldl_indexes (records : List Record) :
    Indexes records (records.foldl indexRecord (fun _ => none, fun _ => none)) := by
  induction records using List.reverseRecOn with
  | nil => exact ⟨rfl, rfl⟩
  | append_singleton records r ih =>
    rw [List.foldl_concat]
    exact ih.concat r

end ReplayIndex

/-! ## Linear scans -/

/-- What an exit record observed, of the first scope that a linear search finds. -/
def scanOutcome (scopes : List Scope) (record : Record) : Option ScopeOutcome :=
  match record.kind with
  | .scopeExit outcome durationNs => do
    let id ← record.scope
    let scope ← scopes.find? fun s => s.id = id
    some ⟨scope, outcome, durationNs⟩
  | .event .. => none

/-- The queries on an index are linear scans of the slices. -/
structure AgreesWithScans (records : List Record) (scopes : List Scope) (index : ReplayIndex) :
    Prop where
  scope : ∀ id, index.scope id = scopes.find? fun s => s.id = id
  record : ∀ id, index.record id = records.find? fun r => r.id = id
  recordsForScope : ∀ id, index.recordsForScope id = recordsForScope records id
  scopeOutcomes : index.scopeOutcomes = (records.filter Record.isExit).filterMap (scanOutcome scopes)

/-- Outcomes through an index are those of a linear search for each exit. -/
theorem collectOutcomes_eq (records : List Record) (scopes : List Scope) :
    collectOutcomes records (indexScopes scopes) =
      (records.filter Record.isExit).filterMap (scanOutcome scopes) := by
  rw [List.filterMap_filter, collectOutcomes]
  refine List.filterMap_congr fun r _ => ?_
  unfold Record.isExit scanOutcome
  cases r.kind with
  | event kind message fields => rfl
  | scopeExit outcome durationNs =>
    simp only [if_true, indexScopes_eq]

/-- **An index agrees with linear scans**, for every two slices. -/
theorem index_agrees (records : List Record) (scopes : List Scope) :
    AgreesWithScans records scopes (.new records scopes) := by
  obtain ⟨hid, hscope⟩ := ReplayIndex.foldl_indexes records
  refine ⟨indexScopes_eq scopes, fun id => congrFun hid id, fun id => ?_,
    collectOutcomes_eq records scopes⟩
  have hgroup : (ReplayIndex.new records scopes).recordsByScope id = group Record.scope records id :=
    congrFun hscope id
  rw [ReplayIndex.recordsForScope, hgroup, recordsForScope, ← getD_group]
  cases group Record.scope records id with
  | none => rfl
  | some group => exact List.append_nil group

end Eventline
