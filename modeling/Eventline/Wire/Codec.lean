/-
  What is rendered is read back.

  * `decodeScope_jsonScope`, `decodeFields_fieldsJson`: the parts of an entry
    survive rendering and reading, whatever the order of hash-map entries.
  * `decodeLine_scope`, `decodeLine_record`: the line of a scope is read as
    that scope, the line of a record as that record, its doubles as the reader
    has them, with its embedded scope, in the run it was rendered for.
-/
import Eventline.Wire.Entry
import Eventline.Wire.Doubles

namespace Eventline

open Text Checked

/-! ## Reading objects back -/

theorem structFields_canonical {required defaulted : List String} {ms : List (String × Json)}
    (h : (ms.map Prod.fst).Nodup) :
    structFields required defaulted (Json.obj ms).canonical =
      some fun k => (ms.lookup k).map Json.canonical := by
  have hobj : ∃ ns, (Json.obj ms).canonical = .obj ns := ⟨_, by rw [Json.canonical]⟩
  obtain ⟨ns, hns⟩ := hobj
  rw [hns, structFields, ← hns]
  simp only [Json.get_canonical_obj h]

@[simp] theorem canonical_u64Json (n : UInt64) : (u64Json n).canonical = u64Json n := by
  rw [u64Json, Json.canonical]

@[simp] theorem canonical_str (s : String) : (Json.str s).canonical = .str s := by
  rw [Json.canonical]

@[simp] theorem asU64_u64Json (n : UInt64) : (u64Json n).asU64 = some n := rfl

@[simp] theorem asStr_str (s : String) : (Json.str s).asStr = some s := rfl

/-- An optional field is read back. -/
theorem optionField_ofOption {α : Type} {f : α → Json} {decode : Json → Option α}
    (hne : ∀ a, (f a).canonical ≠ .null) (hd : ∀ a, decode (f a).canonical = some a)
    (o : Option α) : optionField decode (some (Json.ofOption f o).canonical) = some o := by
  rw [Json.canonical_ofOption]
  cases o with
  | none => rfl
  | some a =>
    rw [Json.ofOption, optionField]
    · simp [hd]
    · exact hne a

theorem optionField_str (o : Option String) :
    optionField Json.asStr (some (Json.ofOption .str o).canonical) = some o :=
  optionField_ofOption (by simp) (by simp) o

theorem optionField_u64 (o : Option UInt64) :
    optionField Json.asU64 (some (Json.ofOption u64Json o).canonical) = some o :=
  optionField_ofOption (by simp [u64Json, Json.canonical]) (by simp) o

theorem optionField_scopeId (o : Option ScopeId) :
    optionField asScopeId (some (Json.ofOption scopeIdJson o).canonical) = some o :=
  optionField_ofOption (by simp [scopeIdJson, u64Json, Json.canonical])
    (by simp [scopeIdJson, asScopeId]) o

/-! ## Values and fields -/

theorem asI64_ofInt64 (i : Int64) : asI64 (.num (.ofInt64 i)) = some i := by
  unfold Number.ofInt64
  split_ifs with h
  · rfl
  · have h0 : 0 ≤ i.toInt := by
      have : ¬ i.toInt < 0 := by simpa [Int64.lt_iff_toInt_lt] using h
      omega
    have hlt := i.toInt_lt
    have hsmall : i.toInt.toNat < 2 ^ 63 := by omega
    have hn : (UInt64.ofNat i.toInt.toNat).toNat = i.toInt.toNat :=
      UInt64.toNat_ofNat_of_lt' (by simp only [UInt64.size]; omega)
    rw [asI64, hn, if_pos hsmall, Option.some.injEq, ← Int64.toInt_inj,
      Int64.toInt_ofNat_of_lt hsmall]
    exact Int.toNat_of_nonneg h0

theorem decodeFieldValue_valueJson (v : Value) : decodeFieldValue (valueJson v) = some v := by
  cases v with
  | int i =>
    have hc : decodeValueContent "Int" (some (.num (.ofInt64 i))) = some (.int i) := by
      simp [decodeValueContent, asI64_ofInt64]
    exact hc
  | float x => cases x <;> rfl
  | null => rfl
  | _ => rfl

/-- Fields are read back, in whatever order the hash map yielded them. -/
theorem decodeFields_fieldsJson {serde : SerdeJson} (hs : serde.Lawful) (f : Fields) :
    decodeFields (fieldsJson serde f).canonical = some f := by
  have hmap : ∀ l : List (String × Value),
      (l.map fun e => (e.1, valueJson e.2)).mapM decodeField = some l := by
    intro l
    induction l with
    | nil => rfl
    | cons e l ih => simp [List.mapM_cons, decodeField, decodeFieldValue_valueJson, ih]
  rw [canonical_fieldsJson hs, decodeFields, hmap]
  simp only [Option.map_some, Fields.ofEntries, SortedMap.ofList_of_sorted f.sorted]

/-! ## Scopes -/

theorem decodeExitMessages_json (m : ExitMessages) :
    decodeExitMessages (exitMessagesJson m).canonical = some m := by
  rw [exitMessagesJson, decodeExitMessages, structFields_canonical (by simp)]
  simp [List.lookup, optionField_str]

theorem decodeScope_jsonScope (s : Scope) : decodeScope (jsonScope s).canonical = some s := by
  rw [jsonScope, decodeScope, structFields_canonical (by simp)]
  simp [List.lookup, scopeIdJson, asScopeId, optionField_scopeId, optionField_str, optionField_u64,
    defaultField, decodeExitMessages_json]

theorem optionField_scope (s : Scope) :
    optionField decodeScope (some (jsonScope s).canonical) = some (some s) := by
  have hne : (jsonScope s).canonical ≠ .null := by simp [jsonScope, Json.canonical]
  rw [optionField]
  · simp [decodeScope_jsonScope]
  · exact hne

/-! ## Entries -/

theorem taggedContent_canonical (tag : String) {ms : List (String × Json)}
    (h : (ms.map Prod.fst).Nodup) (ht : ms.lookup "type" = some (.str tag)) :
    taggedContent (Json.obj ms).canonical = some (tag, (Json.obj ms).canonical) := by
  have hobj : ∃ ns, (Json.obj ms).canonical = .obj ns := ⟨_, by rw [Json.canonical]⟩
  obtain ⟨ns, hns⟩ := hobj
  have hget : (Json.obj ns).get "type" = some (.str tag) := by
    rw [← hns, Json.get_canonical_obj h, ht]
    simp
  rw [hns, taggedContent, hget]
  rfl

theorem decodeEntry_scopeEntry (s : Scope) (runId : String) :
    decodeEntry (scopeEntry s runId).canonical = some (.scope s) := by
  rw [scopeEntry, decodeEntry, taggedContent_canonical "scope" (by simp) rfl]
  simp only [Option.bind_some, decodeTagged, decodeScopeEntry]
  rw [structFields_canonical (by simp)]
  simp [List.lookup, decodeScope_jsonScope]

/-- The level that is spelled like an event kind. -/
def levelOf : EventKind → Level
  | .debug => .debug
  | .info => .info
  | .warning => .warn
  | .error => .error

@[simp] theorem levelOf_toEventKind (kind : EventKind) : (levelOf kind).toEventKind = kind := by
  cases kind <;> rfl

theorem decodeLevel_str (kind : EventKind) :
    decodeLevel (.str (levelStrLower kind)) = some (levelOf kind) := by cases kind <;> rfl

theorem decodeExitOutcome_str (outcome : Outcome) :
    decodeExitOutcome (.str (outcomeStrLower outcome)) = some outcome := by cases outcome <;> rfl

theorem asRecordId_u64Json (id : RecordId) : asRecordId (u64Json id.n) = some id := rfl

theorem optionField_absent {α : Type} (decode : Json → Option α) :
    optionField decode none = some none := rfl

theorem jsonRecord_nodup (serde : SerdeJson) (record : Record) (scope : Option Scope)
    (runId : String) : (([("format_version", u64Json jsonlFormatVersion), ("run_id", .str runId),
      ("id", u64Json record.id.n), ("time_ns", u64Json record.timeNs),
      ("scope_id", .ofOption scopeIdJson record.scope)] ++
      kindMembers serde record.kind ++ scopeMember scope).map Prod.fst).Nodup := by
  cases record.kind <;> cases scope <;> simp [kindMembers, scopeMember]

/-- A record can be exported with an embedded scope: an exit names a scope,
    and the embedded scope is the one the record names. -/
def Record.Paired (record : Record) (scope : Option Scope) : Prop :=
  ((∃ outcome d, record.kind = .scopeExit outcome d) → record.scope ≠ none) ∧
    ∀ s, scope = some s → record.scope = some s.id

theorem Record.Paired.mapDoubles {record : Record} {scope : Option Scope}
    (h : record.Paired scope) (f : FiniteF64 → FiniteF64) : (record.mapDoubles f).Paired scope := by
  refine ⟨?_, h.2⟩
  rintro ⟨outcome, d, hk⟩
  exact h.1 ⟨outcome, d, (RecordKind.mapDoubles_eq_scopeExit f).1 hk⟩

/-- The entry of a record survives: what it is read as has the record and its
    embedded scope as parts. -/
theorem decodeParts_jsonRecord {serde : SerdeJson} (hs : serde.Lawful) {record : Record}
    {scope : Option Scope} (hp : record.Paired scope) (runId : String) :
    decodeParts serde (jsonRecord serde record scope runId).canonical =
      .ok ⟨some record, scope⟩ := by
  have hnd := jsonRecord_nodup serde record scope runId
  have hembed : embedded record scope = .ok ⟨some record, scope⟩ := by
    cases scope with
    | none => rfl
    | some s => simp [embedded, hp.2 s rfl]
  obtain ⟨id, scopeId, timeNs, kind⟩ := record
  cases kind with
  | event kind name fields =>
    have hentry : decodeEntry (jsonRecord serde ⟨id, scopeId, timeNs, .event kind name fields⟩ scope
        runId).canonical = some (.event id timeNs scopeId scope (levelOf kind) name fields) := by
      rw [jsonRecord, decodeEntry, taggedContent_canonical "event" hnd rfl]
      simp only [Option.bind_some, decodeTagged, decodeEventEntry]
      rw [structFields_canonical hnd]
      cases scope <;>
        simp [kindMembers, scopeMember, List.lookup, asRecordId_u64Json, optionField_scopeId,
          decodeLevel_str, defaultField, decodeFields_fieldsJson hs, optionField_scope,
          optionField_absent]
    rw [decodeParts, hentry]
    simpa [Entry.intoParts] using hembed
  | scopeExit outcome durationNs =>
    obtain ⟨sid, rfl⟩ : ∃ sid, scopeId = some sid :=
      Option.ne_none_iff_exists'.1 (hp.1 ⟨outcome, durationNs, rfl⟩)
    have hentry : decodeEntry (jsonRecord serde ⟨id, some sid, timeNs, .scopeExit outcome durationNs⟩
        scope runId).canonical = some (.scopeExit id timeNs sid scope outcome durationNs) := by
      rw [jsonRecord, decodeEntry, taggedContent_canonical "scope_exit" hnd rfl]
      simp only [Option.bind_some, decodeTagged, decodeScopeExitEntry]
      rw [structFields_canonical hnd]
      cases scope <;>
        simp [kindMembers, scopeMember, List.lookup, asRecordId_u64Json, Json.ofOption, scopeIdJson,
          asScopeId, decodeExitOutcome_str, optionField_scope, optionField_absent]
    rw [decodeParts, hentry]
    simpa [Entry.intoParts] using hembed

/-! ## Lines -/

theorem formatVersion_canonical {ms : List (String × Json)} (h : (ms.map Prod.fst).Nodup)
    (hv : ms.lookup "format_version" = some (u64Json jsonlFormatVersion)) :
    formatVersion (Json.obj ms).canonical = .ok jsonlFormatVersion := by
  rw [formatVersion, Json.get_canonical_obj h, hv]
  simp

theorem entryRunId_canonical {ms : List (String × Json)} {runId : String}
    (h : (ms.map Prod.fst).Nodup) (hr : ms.lookup "run_id" = some (.str runId)) (hne : runId ≠ "") :
    entryRunId (Json.obj ms).canonical jsonlFormatVersion = .ok (some runId) := by
  rw [entryRunId, if_neg (by decide), Json.get_canonical_obj h, hr]
  simp [Option.filter, hne]

/-- A line whose value is a version-1 entry of a run. -/
theorem decodeLine_of_value {serde : SerdeJson} {bytes : Bytes} {ms : List (String × Json)}
    {runId : String} {parts : Parts} (hb : serde.fromSlice bytes = .ok (Json.obj ms).canonical)
    (h : (ms.map Prod.fst).Nodup)
    (hv : ms.lookup "format_version" = some (u64Json jsonlFormatVersion))
    (hr : ms.lookup "run_id" = some (.str runId)) (hne : runId ≠ "")
    (hp : decodeParts serde (Json.obj ms).canonical = .ok parts) :
    decodeLine serde bytes = .ok ⟨some runId, parts⟩ := by
  rw [decodeLine, hb]
  simp only [invalidLine, ok_bind, formatVersion_canonical h hv]
  rw [show unsupported jsonlFormatVersion = .ok () from rfl, ok_bind,
    entryRunId_canonical h hr hne, ok_bind, hp]
  rfl

section
variable {serde : SerdeJson} (hs : serde.Lawful) {runId : String} (hne : runId ≠ "")
include hs hne

/-- **The line of a scope is read as that scope.** -/
theorem decodeLine_scope (s : Scope) :
    decodeLine serde (renderScopeJsonl serde s runId) = .ok ⟨some runId, ⟨none, some s⟩⟩ := by
  have hread := hs.fromSlice_toVec _ _ (depth_scopeEntry s runId) (renderScopeJsonl_eq hs s runId)
  rw [← Json.canonical_mapDoubles, scopeEntry_mapDoubles] at hread
  refine decodeLine_of_value hread (by simp) rfl rfl hne ?_
  have := decodeEntry_scopeEntry s runId
  rw [scopeEntry] at this
  rw [decodeParts, this]
  rfl

/-- **The line of a record is read as that record** with its embedded scope, its
    doubles as the reader has them. -/
theorem decodeLine_record {record : Record} {scope : Option Scope} (hp : record.Paired scope) :
    decodeLine serde (renderJsonlInRun serde record scope runId) =
      .ok ⟨some runId, ⟨some (record.reread serde), scope⟩⟩ := by
  have hread := hs.fromSlice_toVec _ _ (depth_jsonRecord serde record scope runId)
    (renderJsonlInRun_eq hs record scope runId)
  rw [← jsonRecord_mapDoubles hs] at hread
  exact decodeLine_of_value hread (jsonRecord_nodup serde _ scope runId) rfl rfl hne
    (decodeParts_jsonRecord hs (hp.mapDoubles serde.reread) runId)

end

/-! ## Records that are read -/

theorem embedded_paired {record : Record} {scope : Option Scope} {parts : Parts}
    (h : embedded record scope = .ok parts) :
    parts = ⟨some record, scope⟩ ∧ ∀ s, scope = some s → record.scope = some s.id := by
  cases scope with
  | none =>
    cases h
    exact ⟨rfl, by simp⟩
  | some s =>
    unfold embedded at h
    dsimp only at h
    split_ifs at h with hid
    cases h
    refine ⟨rfl, ?_⟩
    intro t ht
    obtain rfl := Option.some.inj ht
    exact of_not_not hid

/-- **A record that is read** can be exported again with the scope read with it. -/
theorem decodeParts_paired {serde : SerdeJson} {v : Json} {parts : Parts} {r : Record}
    (h : decodeParts serde v = .ok parts) (hr : parts.record = some r) : r.Paired parts.scope := by
  unfold decodeParts at h
  split at h
  · rename_i entry _
    cases entry with
    | scope s =>
      cases h
      cases hr
    | event id timeNs scopeId s level message fields =>
      obtain ⟨rfl, hs⟩ := embedded_paired h
      obtain rfl := Option.some.inj hr
      refine ⟨?_, hs⟩
      rintro ⟨outcome, d, hk⟩
      cases hk
    | scopeExit id timeNs scopeId s outcome durationNs =>
      obtain ⟨rfl, hs⟩ := embedded_paired h
      obtain rfl := Option.some.inj hr
      exact ⟨fun _ => by simp, hs⟩
  · cases h

theorem decodeLine_paired {serde : SerdeJson} {bytes : Bytes} {d : DecodedLine} {r : Record}
    (h : decodeLine serde bytes = .ok d) (hr : d.parts.record = some r) :
    r.Paired d.parts.scope := by
  obtain ⟨v, -, h⟩ := bind_eq_ok.1 h
  obtain ⟨version, -, h⟩ := bind_eq_ok.1 h
  obtain ⟨-, -, h⟩ := bind_eq_ok.1 h
  obtain ⟨runId, -, h⟩ := bind_eq_ok.1 h
  obtain ⟨parts, hp, h⟩ := bind_eq_ok.1 h
  obtain rfl := Except.ok.inj h
  cases hv : decodeParts serde v with
  | error e =>
    rw [hv] at hp
    cases hp
  | ok p =>
    rw [hv] at hp
    cases hp
    exact decodeParts_paired hv hr

/-- The parts that an entry with these parts is read as. -/
def Parts.reread (serde : SerdeJson) (p : Parts) : Parts :=
  { p with record := p.record.map (Record.reread serde) }

@[simp] theorem Parts.reread_scope (serde : SerdeJson) (p : Parts) :
    (p.reread serde).scope = p.scope := rfl

@[simp] theorem Parts.reread_record (serde : SerdeJson) (p : Parts) :
    (p.reread serde).record = p.record.map (Record.reread serde) := rfl

theorem Parts.reread_of_exact {serde : SerdeJson} (h : serde.Exact) (p : Parts) :
    p.reread serde = p := by
  obtain ⟨record, scope⟩ := p
  cases record <;> simp [Parts.reread, Record.reread_of_exact h]

theorem Record.Paired.alone {record : Record} {scope : Option Scope} (h : record.Paired scope) :
    record.Paired none := ⟨h.1, by simp⟩

/-- Records that can be exported and have one wire form are equal. -/
theorem eq_of_jsonRecord_eq {serde : SerdeJson} (hs : serde.Lawful) {r r' : Record}
    (h : r.Paired none) (h' : r'.Paired none) {runId : String}
    (he : (jsonRecord serde r none runId).canonical = (jsonRecord serde r' none runId).canonical) :
    r = r' := by
  have hr := decodeParts_jsonRecord hs h runId
  rw [he, decodeParts_jsonRecord hs h' runId] at hr
  cases hr
  rfl

end Eventline
