/-
  Rendering records and scopes as JSONL (`format.rs` and the JSONL half of
  `render.rs`).

  `serde_json` and the iteration order of hash maps are parameters
  (`SerdeJson`); what the code relies on is `SerdeJson.Lawful`.  A rendered
  line is the list of its UTF-8 bytes.

  * `renderScopeJsonl`, `renderJsonlInRun`: the lines of a scope and of a record.
  * `renderScopeJsonl_eq`, `renderJsonlInRun_eq`: under a lawful `serde_json`
    a line is the text of its value, never the error entry.
-/
import Eventline.Core
import Eventline.Lib.Text

namespace Eventline

open Text

/-- `JSONL_FORMAT_VERSION`. -/
def jsonlFormatVersion : UInt64 := 1

/-- The digits of `{:x}`. -/
def hexDigits (n : UInt64) : List Char := Nat.toDigits 16 n.toNat

/-- `{:016x}`. -/
def hex16 (n : UInt64) : String := .ofList (List.leftpad 16 '0' (hexDigits n))

/-- `new_run_id`: two hashes drawn once by the process, and a counter. -/
def newRunId (process : UInt64 × UInt64) (next : UInt64) : String :=
  hex16 process.1 ++ hex16 process.2 ++ "-" ++ .ofList (hexDigits next)

theorem newRunId_ne (process : UInt64 × UInt64) (next : UInt64) : newRunId process next ≠ "" := by
  intro h
  have hlen := congrArg String.toList h
  simp [newRunId] at hlen

/-- The parts of `serde_json` and of the standard hash map that the code uses. -/
structure SerdeJson where
  /-- `to_string`: the bytes of the text, or the text of the error -/
  toVec : Json → Except String Bytes
  /-- `from_slice` -/
  fromSlice : Bytes → Except String Json
  /-- the text of the error when a value is not an entry -/
  entryError : Json → String
  /-- the order in which a hash map yields its entries -/
  hashOrder : List (String × Value) → List (String × Value)
  /-- the double that the text of a double is read as -/
  reread : FiniteF64 → FiniteF64

/-- What the code relies on: the text of a value is read back as that value
    (with objects as ordered maps, and each double as `reread` has it), unless
    it nests deeper than the reader's recursion limit; it holds no newline; an
    object's text is in braces; and a hash map yields each entry once. -/
structure SerdeJson.Lawful (serde : SerdeJson) : Prop where
  hashOrder_perm : ∀ entries, (serde.hashOrder entries).Perm entries
  toVec_ok : ∀ v, v.depth < 128 → ∃ text, serde.toVec v = .ok text
  fromSlice_toVec : ∀ v text, v.depth < 128 → serde.toVec v = .ok text →
    serde.fromSlice text = .ok (v.canonical.mapDoubles serde.reread)
  newline_notMem : ∀ v text, serde.toVec v = .ok text → newline ∉ text
  obj_braces : ∀ members text, serde.toVec (.obj members) = .ok text →
    text.head? = some 123 ∧ text.getLast? = some 125

/-- Every double is read back exactly. -/
def SerdeJson.Exact (serde : SerdeJson) : Prop := ∀ x, serde.reread x = x

/-! ## Values -/

def u64Json (n : UInt64) : Json := .num (.posInt n)

/-- The double in a `Value::Float`: nonfinite ones are strings (`JsonValue`). -/
def floatJson : F64 → Json
  | .finite x => .num (.float x)
  | .nan => .str "NaN"
  | .infinity => .str "Infinity"
  | .negInfinity => .str "-Infinity"

/-- `JsonValue::serialize`. -/
def valueJson : Value → Json
  | .string s => .obj [("type", .str "String"), ("value", .str s)]
  | .int i => .obj [("type", .str "Int"), ("value", .num (.ofInt64 i))]
  | .uint n => .obj [("type", .str "Uint"), ("value", u64Json n)]
  | .float x => .obj [("type", .str "Float"), ("value", floatJson x)]
  | .bool b => .obj [("type", .str "Bool"), ("value", .bool b)]
  | .durationMs ms => .obj [("type", .str "DurationMs"), ("value", u64Json ms)]
  | .null => .obj [("type", .str "Null")]

/-- `JsonFields::serialize`. -/
def fieldsJson (serde : SerdeJson) (fields : Fields) : Json :=
  .obj ((serde.hashOrder fields.entries).map fun e => (e.1, valueJson e.2))

def exitMessagesJson (m : ExitMessages) : Json :=
  .obj [("success", .ofOption .str m.success), ("failure", .ofOption .str m.failure),
    ("aborted", .ofOption .str m.aborted)]

def scopeIdJson (id : ScopeId) : Json := u64Json id.n

/-- `JsonScope`. -/
def jsonScope (s : Scope) : Json :=
  .obj [("id", scopeIdJson s.id), ("parent", .ofOption scopeIdJson s.parent),
    ("entered_at", u64Json s.enteredAt), ("exited_at", .ofOption u64Json s.exitedAt),
    ("name", .ofOption .str s.name), ("exit_messages", exitMessagesJson s.exitMessages)]

def levelStrLower : EventKind → String
  | .debug => "debug"
  | .info => "info"
  | .warning => "warn"
  | .error => "error"

def outcomeStrLower : Outcome → String
  | .success => "success"
  | .failure => "failure"
  | .aborted => "aborted"

/-! ## Entries -/

/-- The members of the flattened `JsonRecordKind`. -/
def kindMembers (serde : SerdeJson) : RecordKind → List (String × Json)
  | .event kind name fields =>
    [("type", .str "event"), ("level", .str (levelStrLower kind)), ("message", .str name),
      ("fields", fieldsJson serde fields)]
  | .scopeExit outcome durationNs =>
    [("type", .str "scope_exit"), ("outcome", .str (outcomeStrLower outcome)),
      ("duration_ns", u64Json durationNs)]

/-- The member `scope`, skipped when there is none. -/
def scopeMember : Option Scope → List (String × Json)
  | some s => [("scope", jsonScope s)]
  | none => []

/-- `JsonRecord::new`. -/
def jsonRecord (serde : SerdeJson) (record : Record) (scope : Option Scope) (runId : String) :
    Json :=
  .obj ([("format_version", u64Json jsonlFormatVersion), ("run_id", .str runId),
    ("id", u64Json record.id.n), ("time_ns", u64Json record.timeNs),
    ("scope_id", .ofOption scopeIdJson record.scope)] ++
    kindMembers serde record.kind ++ scopeMember scope)

/-- `ScopeEntry`. -/
def scopeEntry (scope : Scope) (runId : String) : Json :=
  .obj [("format_version", u64Json jsonlFormatVersion), ("run_id", .str runId),
    ("type", .str "scope"), ("scope", jsonScope scope)]

/-- `escape_json_error`. -/
def escapeJsonError (e : String) : String :=
  .ofList (e.toList.flatMap fun c => if c = '"' then ['\\', '"'] else [c])

def encodeJsonl (serde : SerdeJson) (value : Json) : Bytes :=
  match serde.toVec value with
  | .ok line => line
  | .error e =>
    utf8 ("\x7b\"type\":\"render_error\",\"error\":\"" ++ escapeJsonError e ++ "\"\x7d")

def renderScopeJsonl (serde : SerdeJson) (scope : Scope) (runId : String) : Bytes :=
  encodeJsonl serde (scopeEntry scope runId)

def renderJsonlInRun (serde : SerdeJson) (record : Record) (scope : Option Scope)
    (runId : String) : Bytes :=
  encodeJsonl serde (jsonRecord serde record scope runId)

/-! ## Lines are texts of values -/

@[simp] theorem depth_u64Json (n : UInt64) : (u64Json n).depth = 0 := rfl

@[simp] theorem depth_str (s : String) : (Json.str s).depth = 0 := rfl

theorem depth_valueJson (v : Value) : (valueJson v).depth ≤ 1 := by
  cases v with
  | float x => cases x <;> simp [valueJson, floatJson, Json.depth, Json.depthMembers]
  | _ => simp [valueJson, Json.depth, Json.depthMembers, u64Json]

theorem depth_fieldsJson (serde : SerdeJson) (fields : Fields) :
    (fieldsJson serde fields).depth ≤ 2 := by
  refine Nat.succ_le_succ (Json.depthMembers_le fun e he => ?_)
  obtain ⟨f, -, rfl⟩ := List.mem_map.1 he
  exact depth_valueJson f.2

theorem depth_optStr (o : Option String) : (Json.ofOption .str o).depth ≤ 0 :=
  Json.depth_ofOption (fun s => (depth_str s).le) o

theorem depth_optU64 (o : Option UInt64) : (Json.ofOption u64Json o).depth ≤ 0 :=
  Json.depth_ofOption (fun n => (depth_u64Json n).le) o

theorem depth_optScopeId (o : Option ScopeId) : (Json.ofOption scopeIdJson o).depth ≤ 0 :=
  Json.depth_ofOption (f := scopeIdJson) (fun id => (depth_u64Json id.n).le) o

theorem depth_jsonScope (s : Scope) : (jsonScope s).depth ≤ 2 := by
  refine Nat.succ_le_succ (Json.depthMembers_le ?_)
  simp only [List.forall_mem_cons]
  refine ⟨by simp [scopeIdJson], (depth_optScopeId _).trans (Nat.zero_le 1), by simp,
    (depth_optU64 _).trans (Nat.zero_le 1), (depth_optStr _).trans (Nat.zero_le 1),
    Nat.succ_le_succ (Json.depthMembers_le ?_), by simp⟩
  simp only [List.forall_mem_cons]
  exact ⟨depth_optStr _, depth_optStr _, depth_optStr _, by simp⟩

theorem depth_kindMembers (serde : SerdeJson) (kind : RecordKind) :
    ∀ e ∈ kindMembers serde kind, e.2.depth ≤ 2 := by
  cases kind with
  | event kind name fields =>
    simp only [kindMembers, List.forall_mem_cons]
    exact ⟨by simp, by simp, by simp, depth_fieldsJson serde fields, by simp⟩
  | scopeExit outcome d =>
    simp only [kindMembers, List.forall_mem_cons]
    exact ⟨by simp, by simp, by simp, by simp⟩

theorem depth_scopeEntry (s : Scope) (runId : String) : (scopeEntry s runId).depth < 128 := by
  refine Nat.lt_of_le_of_lt (Nat.succ_le_succ (Json.depthMembers_le (n := 2) ?_)) (by norm_num)
  simp only [List.forall_mem_cons]
  exact ⟨by simp, by simp, by simp, depth_jsonScope s, by simp⟩

theorem depth_jsonRecord (serde : SerdeJson) (record : Record) (scope : Option Scope)
    (runId : String) : (jsonRecord serde record scope runId).depth < 128 := by
  refine Nat.lt_of_le_of_lt (Nat.succ_le_succ (Json.depthMembers_le (n := 2) ?_)) (by norm_num)
  intro e he
  rw [List.mem_append, List.mem_append] at he
  rcases he with (he | he) | he
  · revert e
    simp only [List.forall_mem_cons]
    exact ⟨by simp, by simp, by simp, by simp, (depth_optScopeId _).trans (Nat.zero_le 2), by simp⟩
  · exact depth_kindMembers serde _ e he
  · cases scope with
    | none => simp [scopeMember] at he
    | some s =>
      obtain rfl : e = ("scope", jsonScope s) := by simpa [scopeMember] using he
      exact depth_jsonScope s

section
variable {serde : SerdeJson} (hs : serde.Lawful)
include hs

theorem encodeJsonl_eq {v : Json} (hv : v.depth < 128) :
    serde.toVec v = .ok (encodeJsonl serde v) := by
  obtain ⟨text, ht⟩ := hs.toVec_ok v hv
  rw [encodeJsonl, ht]

/-- The line of a scope is the text of its entry. -/
theorem renderScopeJsonl_eq (scope : Scope) (runId : String) :
    serde.toVec (scopeEntry scope runId) = .ok (renderScopeJsonl serde scope runId) :=
  encodeJsonl_eq hs (depth_scopeEntry scope runId)

/-- The line of a record is the text of its entry. -/
theorem renderJsonlInRun_eq (record : Record) (scope : Option Scope) (runId : String) :
    serde.toVec (jsonRecord serde record scope runId) =
      .ok (renderJsonlInRun serde record scope runId) :=
  encodeJsonl_eq hs (depth_jsonRecord serde record scope runId)

end

end Eventline
