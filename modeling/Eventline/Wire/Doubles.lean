/-
  Doubles in records.

  The text of a double need not be read back as that double: a reader may be
  off in the last place.  `Record.reread` is the record that the text of a
  record is read as.  Nothing but the doubles in the fields of an event can
  change.

  * `jsonRecord_mapDoubles`: the doubles of a record are those of its JSON value.
  * `Record.reread_of_exact`: a reader that is exact changes nothing.
-/
import Eventline.Wire.Render

namespace Eventline

/-! ## Replacing doubles -/

def Value.mapDoubles (f : FiniteF64 → FiniteF64) : Value → Value
  | .float (.finite x) => .float (.finite (f x))
  | v => v

def Fields.mapDoubles (f : FiniteF64 → FiniteF64) (fields : Fields) : Fields where
  entries := fields.entries.map fun e => (e.1, e.2.mapDoubles f)
  sorted := fields.sorted.map _

def RecordKind.mapDoubles (f : FiniteF64 → FiniteF64) : RecordKind → RecordKind
  | .event kind name fields => .event kind name (fields.mapDoubles f)
  | .scopeExit outcome durationNs => .scopeExit outcome durationNs

def Record.mapDoubles (f : FiniteF64 → FiniteF64) (r : Record) : Record :=
  { r with kind := r.kind.mapDoubles f }

def Value.isDouble : Value → Bool
  | .float (.finite _) => true
  | _ => false

/-- No field of the record is a finite double. -/
def Record.doubleFree (r : Record) : Bool :=
  match r.kind with
  | .event _ _ fields => fields.entries.all fun e => !e.2.isDouble
  | .scopeExit .. => true

/-- The record that the text of a record is read as. -/
def Record.reread (serde : SerdeJson) (r : Record) : Record := r.mapDoubles serde.reread

/-- The record with its zeros unsigned. -/
def Record.unsigned (r : Record) : Record := r.mapDoubles FiniteF64.unsigned

section
variable (f : FiniteF64 → FiniteF64)

@[simp] theorem Record.mapDoubles_id (r : Record) : (r.mapDoubles f).id = r.id := rfl

@[simp] theorem Record.mapDoubles_scope (r : Record) : (r.mapDoubles f).scope = r.scope := rfl

@[simp] theorem Record.mapDoubles_timeNs (r : Record) : (r.mapDoubles f).timeNs = r.timeNs := rfl

/-- Only events are affected. -/
@[simp] theorem RecordKind.mapDoubles_eq_scopeExit {kind : RecordKind} {outcome : Outcome}
    {durationNs : UInt64} :
    kind.mapDoubles f = .scopeExit outcome durationNs ↔ kind = .scopeExit outcome durationNs := by
  cases kind <;> simp [RecordKind.mapDoubles]

theorem Record.mapDoubles_of_exit {r : Record} {outcome : Outcome} {durationNs : UInt64}
    (h : r.kind = .scopeExit outcome durationNs) : r.mapDoubles f = r := by
  obtain ⟨id, scope, timeNs, kind⟩ := r
  obtain rfl : kind = .scopeExit outcome durationNs := h
  rfl

theorem Value.mapDoubles_of_forall (hf : ∀ x, f x = x) (v : Value) : v.mapDoubles f = v := by
  cases v with
  | float x => cases x <;> simp [Value.mapDoubles, hf]
  | _ => rfl

theorem Value.mapDoubles_of_isDouble {v : Value} (h : v.isDouble = false) : v.mapDoubles f = v := by
  cases v with
  | float x =>
    cases x with
    | finite x => cases h
    | _ => rfl
  | _ => rfl

theorem Fields.mapDoubles_of_values {fields : Fields}
    (h : ∀ e ∈ fields.entries, e.2.mapDoubles f = e.2) : fields.mapDoubles f = fields := by
  have hentries : (fields.entries.map fun e => (e.1, e.2.mapDoubles f)) = fields.entries := by
    refine (List.map_congr_left fun e he => ?_).trans (List.map_id _)
    rw [h e he]
    rfl
  obtain ⟨entries, sorted⟩ := fields
  simpa [Fields.mapDoubles] using hentries

theorem Fields.mapDoubles_of_forall (hf : ∀ x, f x = x) (fields : Fields) :
    fields.mapDoubles f = fields :=
  Fields.mapDoubles_of_values f fun e _ => e.2.mapDoubles_of_forall f hf

theorem Record.mapDoubles_of_forall (hf : ∀ x, f x = x) (r : Record) : r.mapDoubles f = r := by
  obtain ⟨id, scope, timeNs, kind⟩ := r
  cases kind with
  | scopeExit outcome durationNs => rfl
  | event kind name fields =>
    rw [Record.mapDoubles, RecordKind.mapDoubles, fields.mapDoubles_of_forall f hf]

theorem Record.mapDoubles_of_doubleFree {r : Record} (h : r.doubleFree = true) :
    r.mapDoubles f = r := by
  obtain ⟨id, scope, timeNs, kind⟩ := r
  cases kind with
  | scopeExit outcome durationNs => rfl
  | event kind name fields =>
    have hfields : fields.mapDoubles f = fields :=
      Fields.mapDoubles_of_values f fun e he =>
        Value.mapDoubles_of_isDouble f (by simpa using List.all_eq_true.1 h e he)
    rw [Record.mapDoubles, RecordKind.mapDoubles, hfields]

/-- The doubles stay where they are. -/
theorem Record.doubleFree_mapDoubles (r : Record) : (r.mapDoubles f).doubleFree = r.doubleFree := by
  obtain ⟨id, scope, timeNs, kind⟩ := r
  cases kind with
  | scopeExit outcome durationNs => rfl
  | event kind name fields =>
    have hvalue : ∀ v : Value, (v.mapDoubles f).isDouble = v.isDouble := by
      intro v
      cases v with
      | float x => cases x <;> rfl
      | _ => rfl
    simp [Record.doubleFree, Record.mapDoubles, RecordKind.mapDoubles, Fields.mapDoubles, hvalue,
      Function.comp_def]

end

@[simp] theorem Record.reread_id (serde : SerdeJson) (r : Record) : (r.reread serde).id = r.id := rfl

@[simp] theorem Record.reread_scope (serde : SerdeJson) (r : Record) :
    (r.reread serde).scope = r.scope := rfl

@[simp] theorem Record.reread_timeNs (serde : SerdeJson) (r : Record) :
    (r.reread serde).timeNs = r.timeNs := rfl

theorem Record.reread_of_exact {serde : SerdeJson} (h : serde.Exact) (r : Record) :
    r.reread serde = r := r.mapDoubles_of_forall _ h

theorem map_reread_of_exact {serde : SerdeJson} (h : serde.Exact) (records : List Record) :
    records.map (Record.reread serde) = records :=
  (List.map_congr_left fun r _ => r.reread_of_exact h).trans (List.map_id _)

theorem Record.reread_of_doubleFree (serde : SerdeJson) {r : Record} (h : r.doubleFree = true) :
    r.reread serde = r := r.mapDoubles_of_doubleFree _ h

/-! ## Doubles of JSON values -/

@[simp] theorem u64Json_mapDoubles (f : FiniteF64 → FiniteF64) (n : UInt64) :
    (u64Json n).mapDoubles f = u64Json n := by
  rw [u64Json, Json.mapDoubles]
  rfl

@[simp] theorem str_mapDoubles (f : FiniteF64 → FiniteF64) (s : String) :
    (Json.str s).mapDoubles f = .str s := by rw [Json.mapDoubles]

theorem scopeIdJson_mapDoubles (f : FiniteF64 → FiniteF64) (o : Option ScopeId) :
    (Json.ofOption scopeIdJson o).mapDoubles f = .ofOption scopeIdJson o := by
  rw [Json.mapDoubles_ofOption]
  simp only [scopeIdJson, u64Json_mapDoubles]
  rfl

theorem valueJson_mapDoubles (f : FiniteF64 → FiniteF64) (v : Value) :
    valueJson (v.mapDoubles f) = (valueJson v).mapDoubles f := by
  cases v with
  | float x =>
    cases x <;> simp [Value.mapDoubles, valueJson, floatJson, Json.mapDoubles, Number.mapDouble]
  | _ => simp [Value.mapDoubles, valueJson, Json.mapDoubles]

theorem jsonScope_mapDoubles (f : FiniteF64 → FiniteF64) (s : Scope) :
    (jsonScope s).mapDoubles f = jsonScope s := by
  have hid : (scopeIdJson s.id).mapDoubles f = scopeIdJson s.id := u64Json_mapDoubles f s.id.n
  have hu64 : ∀ o : Option UInt64, (Json.ofOption u64Json o).mapDoubles f = .ofOption u64Json o := by
    intro o
    simp only [Json.mapDoubles_ofOption, u64Json_mapDoubles]
  have hstr : ∀ o : Option String, (Json.ofOption .str o).mapDoubles f = .ofOption .str o := by
    intro o
    simp only [Json.mapDoubles_ofOption, str_mapDoubles]
  simp [jsonScope, exitMessagesJson, Json.mapDoubles, hid, hu64, hstr, scopeIdJson_mapDoubles]

theorem scopeEntry_mapDoubles (f : FiniteF64 → FiniteF64) (s : Scope) (runId : String) :
    (scopeEntry s runId).mapDoubles f = scopeEntry s runId := by
  simp [scopeEntry, jsonScope_mapDoubles, Json.mapDoubles]

theorem canonical_valueJson (v : Value) : (valueJson v).canonical = valueJson v := by
  have hpair : ∀ a b : Json, (Json.obj [("type", a), ("value", b)]).canonical =
      .obj [("type", a.canonical), ("value", b.canonical)] := fun a b =>
    Json.canonical_obj_of_sorted (by simp only [SortedMap.Sorted, List.pairwise_pair]; decide)
  cases v with
  | null => simp [valueJson, Json.canonical, SortedMap.ofList, SortedMap.insert]
  | float x => cases x <;> simp [valueJson, floatJson, hpair, Json.canonical]
  | _ => simp [valueJson, hpair, Json.canonical, u64Json]

section
variable {serde : SerdeJson} (hs : serde.Lawful)
include hs

/-- Fields are read as an ordered map, in whatever order the hash map yielded
    them. -/
theorem canonical_fieldsJson (fields : Fields) : (fieldsJson serde fields).canonical =
    .obj (fields.entries.map fun e => (e.1, valueJson e.2)) := by
  rw [fieldsJson, Json.canonical, Json.canonicalMembers_eq, List.map_map]
  refine congrArg Json.obj (SortedMap.ofList_of_perm ?_ (fields.sorted.map valueJson))
  have hval : ((fun e : String × Json => (e.1, e.2.canonical)) ∘
      fun e : String × Value => (e.1, valueJson e.2)) = fun e => (e.1, valueJson e.2) := by
    funext e
    simp [canonical_valueJson]
  rw [hval]
  exact (hs.hashOrder_perm fields.entries).map _

theorem canonical_fieldsJson_mapDoubles (f : FiniteF64 → FiniteF64) (fields : Fields) :
    (fieldsJson serde (fields.mapDoubles f)).canonical =
      (fieldsJson serde fields).canonical.mapDoubles f := by
  rw [canonical_fieldsJson hs, canonical_fieldsJson hs, Json.mapDoubles, Json.mapDoublesMembers_eq,
    Fields.mapDoubles, List.map_map, List.map_map]
  congr 2
  funext e
  simp [valueJson_mapDoubles]

/-- **The doubles of a record** are those of its JSON value. -/
theorem jsonRecord_mapDoubles (f : FiniteF64 → FiniteF64) (r : Record) (scope : Option Scope)
    (runId : String) : (jsonRecord serde (r.mapDoubles f) scope runId).canonical =
      (jsonRecord serde r scope runId).canonical.mapDoubles f := by
  have hscope : Json.canonicalMembers (scopeMember scope) =
      (Json.canonicalMembers (scopeMember scope)).map fun e => (e.1, e.2.mapDoubles f) := by
    cases scope with
    | none => rfl
    | some s => simp [scopeMember, ← Json.canonical_mapDoubles, jsonScope_mapDoubles]
  have hkind : Json.canonicalMembers (kindMembers serde (r.kind.mapDoubles f)) =
      (Json.canonicalMembers (kindMembers serde r.kind)).map fun e => (e.1, e.2.mapDoubles f) := by
    cases r.kind with
    | event kind name fields =>
      simp [kindMembers, RecordKind.mapDoubles, canonical_fieldsJson_mapDoubles hs,
        ← Json.canonical_mapDoubles, Json.mapDoubles]
    | scopeExit outcome durationNs =>
      simp [kindMembers, RecordKind.mapDoubles, ← Json.canonical_mapDoubles, Json.mapDoubles]
  rw [jsonRecord, jsonRecord, Json.canonical, Json.canonical, Json.mapDoubles,
    Json.mapDoublesMembers_eq, ← SortedMap.ofList_map]
  simp only [Json.canonicalMembers_eq, List.map_append] at hscope hkind ⊢
  rw [Record.mapDoubles, hkind, ← hscope]
  congr 4
  simp [← Json.canonical_mapDoubles, scopeIdJson_mapDoubles]

end

end Eventline
