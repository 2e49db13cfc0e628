/-
  Decoding JSONL entries (`Entry` of `replay/load.rs`, `deserialize_fields` of
  `format.rs`, and the derived `Deserialize` of the types they read).

  A derived struct is read from an object, by member name, or from an array,
  by position; an enumeration's unit variant from its name or from an object
  with that only member.  Unknown members are ignored.

  * `decodeEntry` reads a value as an entry, `Entry.intoParts` splits it into
    the record and the scope it carries, `decodeLine` reads a whole line and
    says why it rejects one.
-/
import Eventline.Wire.Render
import Eventline.Lib.Checked

namespace Eventline

open Text Checked

/-! ## Derived readers -/

/-- The fields of a struct, by name: the members of an object, or the elements
    of an array in field order, those of `defaulted` from the end optional. -/
def structFields (required defaulted : List String) : Json → Option (String → Option Json)
  | .obj ms => some fun k => (Json.obj ms).get k
  | .arr xs =>
    if required.length ≤ xs.length ∧ xs.length ≤ (required ++ defaulted).length then
      some fun k => ((required ++ defaulted).zip xs).lookup k
    else none
  | _ => none

/-- A field of type `Option`: absent and `null` are `None`. -/
def optionField {α : Type} (decode : Json → Option α) : Option Json → Option (Option α)
  | none => some none
  | some .null => some none
  | some v => some <$> decode v

/-- A field marked `#[serde(default)]`. -/
def defaultField {α : Type} (default : α) (decode : Json → Option α) : Option Json → Option α
  | none => some default
  | some v => decode v

/-- The name of a unit variant; `unit` tells what may stand for its content. -/
def unitVariant (unit : Json → Bool) : Json → Option String
  | .str s => some s
  | .obj [(k, v)] => if unit v then some k else none
  | _ => none

def isNull : Json → Bool
  | .null => true
  | _ => false

/-- What buffered content reads as a unit. -/
def isUnitContent : Json → Bool
  | .null => true
  | .obj [] => true
  | _ => false

def asI64 : Json → Option Int64
  | .num (.posInt n) => if n.toNat < 2 ^ 63 then some (Int64.ofNat n.toNat) else none
  | .num (.negInt i _) => some i
  | _ => none

def asF64 : Json → Option FiniteF64
  | .num (.posInt n) => some (.ofUInt64 n)
  | .num (.negInt i _) => some (.ofNeg i)
  | .num (.float x) => some x
  | _ => none

def asBool : Json → Option Bool
  | .bool b => some b
  | _ => none

def asScopeId (v : Json) : Option ScopeId := v.asU64.map ScopeId.mk

def asRecordId (v : Json) : Option RecordId := v.asU64.map RecordId.mk

/-! ## Core types -/

def decodeExitMessages (v : Json) : Option ExitMessages := do
  let field ← structFields ["success", "failure", "aborted"] [] v
  let success ← optionField Json.asStr (field "success")
  let failure ← optionField Json.asStr (field "failure")
  let aborted ← optionField Json.asStr (field "aborted")
  pure ⟨success, failure, aborted⟩

def decodeScope (v : Json) : Option Scope := do
  let field ← structFields ["id", "parent", "entered_at", "name", "exited_at"] ["exit_messages"] v
  let id ← (field "id").bind asScopeId
  let parent ← optionField asScopeId (field "parent")
  let enteredAt ← (field "entered_at").bind Json.asU64
  let name ← optionField Json.asStr (field "name")
  let exitedAt ← optionField Json.asU64 (field "exited_at")
  let exitMessages ← defaultField .none decodeExitMessages (field "exit_messages")
  pure ⟨id, parent, enteredAt, name, exitedAt, exitMessages⟩

/-- The content of a `Value` with the given tag. -/
def decodeValueContent : String → Option Json → Option Value
  | "String", content => (content.bind Json.asStr).map .string
  | "Int", content => (content.bind asI64).map .int
  | "Uint", content => (content.bind Json.asU64).map .uint
  | "Float", content => (content.bind asF64).map fun x => .float (.finite x)
  | "Bool", content => (content.bind asBool).map .bool
  | "DurationMs", content => (content.bind Json.asU64).map .durationMs
  | "Null", content => if content.all isNull then some .null else none
  | _, _ => none

/-- `Value`, adjacently tagged. -/
def decodeValue : Json → Option Value
  | .obj ms => do
    let tag ← ((Json.obj ms).get "type").bind (unitVariant isNull)
    decodeValueContent tag ((Json.obj ms).get "value")
  | .arr [tag, content] => do
    let tag ← unitVariant isNull tag
    decodeValueContent tag (some content)
  | _ => none

/-- The nonfinite doubles, which the wire format spells as strings. -/
def specialFloat (v : Json) : Option Value :=
  if (v.get "type").bind Json.asStr = some "Float" then
    match (v.get "value").bind Json.asStr with
    | some "NaN" => some (.float .nan)
    | some "Infinity" => some (.float .infinity)
    | some "-Infinity" => some (.float .negInfinity)
    | _ => none
  else none

def decodeFieldValue (v : Json) : Option Value :=
  match specialFloat v with
  | some x => some x
  | none => decodeValue v

/-- The fields with the given entries. -/
def Fields.ofEntries (entries : List (String × Value)) : Fields :=
  ⟨SortedMap.ofList entries, SortedMap.ofList_sorted entries⟩

def decodeField (e : String × Json) : Option (String × Value) :=
  (decodeFieldValue e.2).map fun v => (e.1, v)

/-- `deserialize_fields`. -/
def decodeFields : Json → Option Fields
  | .obj ms => (ms.mapM decodeField).map Fields.ofEntries
  | _ => none

/-! ## Entries -/

inductive Level where
  | debug
  | info
  | warn
  | error
  deriving DecidableEq, Repr

def Level.toEventKind : Level → EventKind
  | .debug => .debug
  | .info => .info
  | .warn => .warning
  | .error => .error

def levelOfName : String → Option Level
  | "debug" => some .debug
  | "info" => some .info
  | "warn" => some .warn
  | "warning" => some .warn
  | "error" => some .error
  | _ => none

def decodeLevel (v : Json) : Option Level := (unitVariant isUnitContent v).bind levelOfName

def exitOutcomeOfName : String → Option Outcome
  | "success" => some .success
  | "failure" => some .failure
  | "aborted" => some .aborted
  | _ => none

def decodeExitOutcome (v : Json) : Option Outcome :=
  (unitVariant isUnitContent v).bind exitOutcomeOfName

inductive Entry where
  | scope (scope : Scope)
  | event (id : RecordId) (timeNs : UInt64) (scopeId : Option ScopeId) (scope : Option Scope)
      (level : Level) (message : String) (fields : Fields)
  | scopeExit (id : RecordId) (timeNs : UInt64) (scopeId : ScopeId) (scope : Option Scope)
      (outcome : Outcome) (durationNs : UInt64)

def decodeScopeEntry (content : Json) : Option Entry := do
  let field ← structFields ["scope"] [] content
  let scope ← (field "scope").bind decodeScope
  pure (.scope scope)

def decodeEventEntry (content : Json) : Option Entry := do
  let field ← structFields ["id", "time_ns", "scope_id", "scope", "level", "message"] ["fields"]
    content
  let id ← (field "id").bind asRecordId
  let timeNs ← (field "time_ns").bind Json.asU64
  let scopeId ← optionField asScopeId (field "scope_id")
  let scope ← optionField decodeScope (field "scope")
  let level ← (field "level").bind decodeLevel
  let message ← (field "message").bind Json.asStr
  let fields ← defaultField .new decodeFields (field "fields")
  pure (.event id timeNs scopeId scope level message fields)

def decodeScopeExitEntry (content : Json) : Option Entry := do
  let field ← structFields ["id", "time_ns", "scope_id", "scope", "outcome", "duration_ns"] []
    content
  let id ← (field "id").bind asRecordId
  let timeNs ← (field "time_ns").bind Json.asU64
  let scopeId ← (field "scope_id").bind asScopeId
  let scope ← optionField decodeScope (field "scope")
  let outcome ← (field "outcome").bind decodeExitOutcome
  let durationNs ← (field "duration_ns").bind Json.asU64
  pure (.scopeExit id timeNs scopeId scope outcome durationNs)

/-- The tag of an internally tagged value, and the content it is read from. -/
def taggedContent : Json → Option (String × Json)
  | .obj ms => (((Json.obj ms).get "type").bind Json.asStr).map fun tag => (tag, .obj ms)
  | .arr (tag :: xs) => tag.asStr.map fun tag => (tag, .arr xs)
  | _ => none

def decodeTagged : String × Json → Option Entry
  | ("scope", content) => decodeScopeEntry content
  | ("event", content) => decodeEventEntry content
  | ("scope_exit", content) => decodeScopeExitEntry content
  | _ => none

def decodeEntry (v : Json) : Option Entry := (taggedContent v).bind decodeTagged

/-- The record and the scope that an entry carries. -/
structure Parts where
  record : Option Record
  scope : Option Scope
  deriving DecidableEq

/-- The record of an entry with the scope embedded in it. -/
def embedded (record : Record) : Option Scope → Except String Parts
  | none => .ok ⟨some record, none⟩
  | some scope =>
    if record.scope ≠ some scope.id then
      .error "embedded scope ID does not match the record's scope_id"
    else .ok ⟨some record, some scope⟩

def Entry.intoParts : Entry → Except String Parts
  | .scope s => .ok ⟨none, some s⟩
  | .event id timeNs scopeId s level message fields =>
    embedded ⟨id, scopeId, timeNs, .event level.toEventKind message fields⟩ s
  | .scopeExit id timeNs scopeId s outcome durationNs =>
    embedded ⟨id, some scopeId, timeNs, .scopeExit outcome durationNs⟩ s

/-! ## Lines -/

inductive ReplayIssueKind where
  | invalidLine
  | unsupportedVersion
  | inferredRunBoundary
  | conflictingRecord
  | conflictingScope
  | missingScopeMetadata
  | invalidHierarchy
  deriving DecidableEq, Repr

/-- An accepted line: its run (`none` for a legacy entry) and its parts. -/
structure DecodedLine where
  runId : Option String
  parts : Parts
  deriving DecidableEq

/-- Why a line is rejected. -/
abbrev Rejection := ReplayIssueKind × String

/-- The version of an entry: absent is the legacy version 0. -/
def formatVersion (v : Json) : Except Rejection UInt64 :=
  match v.get "format_version" with
  | none => .ok 0
  | some version =>
    match version.asU64 with
    | some version => .ok version
    | none => .error (.invalidLine, "format_version must be an unsigned integer")

def unsupported (version : UInt64) : Except Rejection Unit :=
  if version > jsonlFormatVersion then
    .error (.unsupportedVersion, "unsupported JSONL format version " ++ toString version)
  else .ok ()

/-- The run of an entry with the given version. -/
def entryRunId (v : Json) (version : UInt64) : Except Rejection (Option String) :=
  if version = 0 then .ok none
  else
    match ((v.get "run_id").bind Json.asStr).filter fun id => id ≠ "" with
    | some id => .ok (some id)
    | none => .error (.invalidLine, "versioned entries require a nonempty run_id")

def invalidLine {α : Type} : Except String α → Except Rejection α
  | .ok a => .ok a
  | .error message => .error (.invalidLine, message)

def decodeParts (serde : SerdeJson) (v : Json) : Except String Parts :=
  match decodeEntry v with
  | some entry => entry.intoParts
  | none => .error (serde.entryError v)

/-- The first half of `Loader::read_line`: decode a line, or say why not. -/
def decodeLine (serde : SerdeJson) (bytes : Bytes) : Except Rejection DecodedLine := do
  let v ← invalidLine (serde.fromSlice bytes)
  let version ← formatVersion v
  unsupported version
  let runId ← entryRunId v version
  let parts ← invalidLine (decodeParts serde v)
  pure ⟨runId, parts⟩

/-! ## What decoding yields -/

/-- The kinds of a rejected line. -/
def ReplayIssueKind.isRejection : ReplayIssueKind → Bool
  | .invalidLine | .unsupportedVersion => true
  | _ => false

theorem invalidLine_error {α : Type} {x : Except String α} {r : Rejection}
    (h : invalidLine x = .error r) : r.1 = .invalidLine := by
  cases x with
  | ok a => cases h
  | error e => cases h; rfl

theorem formatVersion_error {v : Json} {r : Rejection} (h : formatVersion v = .error r) :
    r.1 = .invalidLine := by
  unfold formatVersion at h
  split at h
  · cases h
  · split at h
    · cases h
    · cases h; rfl

theorem unsupported_error {version : UInt64} {r : Rejection}
    (h : unsupported version = .error r) : r.1 = .unsupportedVersion := by
  unfold unsupported at h
  split_ifs at h
  cases h
  rfl

theorem entryRunId_error {v : Json} {version : UInt64} {r : Rejection}
    (h : entryRunId v version = .error r) : r.1 = .invalidLine := by
  unfold entryRunId at h
  split_ifs at h
  split at h
  · cases h
  · cases h; rfl

/-- **A rejected line** is invalid or of an unsupported version. -/
theorem decodeLine_error {serde : SerdeJson} {bytes : Bytes} {r : Rejection}
    (h : decodeLine serde bytes = .error r) : r.1.isRejection = true := by
  rcases bind_eq_error.1 h with h | ⟨v, -, h⟩
  · rw [invalidLine_error h]; rfl
  rcases bind_eq_error.1 h with h | ⟨version, -, h⟩
  · rw [formatVersion_error h]; rfl
  rcases bind_eq_error.1 h with h | ⟨-, -, h⟩
  · rw [unsupported_error h]; rfl
  rcases bind_eq_error.1 h with h | ⟨runId, -, h⟩
  · rw [entryRunId_error h]; rfl
  rcases bind_eq_error.1 h with h | ⟨parts, -, h⟩
  · rw [invalidLine_error h]; rfl
  · cases h

end Eventline
