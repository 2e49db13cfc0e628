/-
  Loading entries with members that are not known.

  A later writer of the same version may add members to entries, scopes,
  messages and values.

  * `SameFile`: the files have the same lines, such members apart.
  * `unknown_members_ignored`: they are loaded as one.
-/
import Eventline.Wire.Shapes
import Eventline.Replay.Reload

namespace Eventline

open Text Checked Json

/-- The line, which is neither blank nor a header, is the text of the value. -/
structure ReadAs (serde : SerdeJson) (raw : Bytes) (v : Json) : Prop where
  filled : (trimAscii raw).isEmpty = false
  noHeader : headerText (trimAscii raw) = none
  value : serde.fromSlice (trimAscii raw) = .ok v

/-- The lines are one, or they are entries that agree on what is looked at. -/
inductive SameLine (serde : SerdeJson) : Bytes → Bytes → Prop
  | refl (raw : Bytes) : SameLine serde raw raw
  | entry {raw raw' : Bytes} {v w : Json} {d : DecodedLine} (read : ReadAs serde raw v)
    (read' : ReadAs serde raw' w) (agree : Agree entryShape v w)
    (accepted : decodeLine serde (trimAscii raw) = .ok d) : SameLine serde raw raw'

/-- The files have the same lines. -/
structure SameFile (serde : SerdeJson) (f f' : InputFile) : Prop where
  source : f'.source = f.source
  lines : List.Forall₂ (SameLine serde) (rawLines f.bytes) (rawLines f'.bytes)

section
variable {serde : SerdeJson}

theorem ReadAs.classify_eq {raw : Bytes} {v : Json} {d : DecodedLine} (h : ReadAs serde raw v)
    (hd : decodeLine serde (trimAscii raw) = .ok d) : classify serde raw = .entry d := by
  rw [classify, h.filled, h.noHeader, hd]
  rfl

/-- **The same line** is classified as one. -/
theorem SameLine.classify_eq {raw raw' : Bytes} (h : SameLine serde raw raw') :
    classify serde raw' = classify serde raw := by
  cases h with
  | refl => rfl
  | entry read read' agree accepted =>
    rw [read.classify_eq accepted,
      read'.classify_eq (decodeLine_agree read.value read'.value agree accepted)]

/-- Lines at one place that are classified as one. -/
structure InputLine.Alike (serde : SerdeJson) (line line' : InputLine) : Prop where
  source : line'.source = line.source
  number : line'.number = line.number
  classify : classify serde line'.raw = classify serde line.raw

theorem InputLine.Alike.readRaw {line line' : InputLine} (h : line.Alike serde line')
    (l : Loader) : l.readRaw serde line' = l.readRaw serde line := by
  rw [Loader.readRaw_eq, Loader.readRaw_eq, h.classify, h.source, h.number]

theorem linesAt_alike {raws raws' : List Bytes} (h : List.Forall₂ (SameLine serde) raws raws')
    (source : Option String) (n : ℕ) :
    List.Forall₂ (InputLine.Alike serde) (linesAt source n raws) (linesAt source n raws') := by
  induction h generalizing n with
  | nil => exact .nil
  | cons hline _ ih =>
    rw [linesAt_cons, linesAt_cons]
    exact .cons ⟨rfl, rfl, hline.classify_eq⟩ (ih (n + 1))

theorem SameFile.alike {f f' : InputFile} (h : SameFile serde f f') :
    List.Forall₂ (InputLine.Alike serde) f.lines f'.lines := by
  have hlines := linesAt_alike h.lines f.source 1
  rw [InputFile.lines, InputFile.lines, h.source]
  exact hlines

theorem inputLines_alike {files files' : List InputFile}
    (h : List.Forall₂ (SameFile serde) files files') :
    List.Forall₂ (InputLine.Alike serde) (inputLines files) (inputLines files') := by
  induction h with
  | nil => exact .nil
  | cons hfile _ ih =>
    rw [inputLines, inputLines, List.flatMap_cons, List.flatMap_cons]
    exact List.rel_append hfile.alike ih

end

/-- **Members that are not known are ignored**: files whose lines are the same,
    apart from members that no reader looks at and from the order of members,
    are loaded as one and the same journal, issues and all. -/
theorem unknown_members_ignored {serde : SerdeJson} (hs : serde.Lawful) {files files' : List InputFile}
    (h : List.Forall₂ (SameFile serde) files files') :
    ∃ saved, load serde files = .ok saved ∧ load serde files' = .ok saved := by
  obtain ⟨saved, log, builders, hloaded⟩ := load_ok hs files
  have hsame := foldlM_of_forall₂ (f := Loader.readRaw serde) (fun l _ _ h => h.readRaw l)
    (inputLines_alike h) .new
  have hload := hloaded.load
  refine ⟨saved, hload, ?_⟩
  rw [load, foldlM_read] at hload ⊢
  rw [hsame]
  exact hload

/-! ## A record with more members -/

section
variable {serde : SerdeJson} (hs : serde.Lawful) {ms : List (String × Json)} {text : Bytes}
  (ht : serde.toVec (.obj ms) = .ok text)
include hs ht

theorem trimAscii_text : trimAscii (text ++ [newline]) = text := by
  obtain ⟨hhead, hlast⟩ := hs.obj_braces ms text ht
  have hframed : trimAscii ([] ++ text ++ []) = text :=
    trimAscii_framed (List.forall_mem_nil _) (List.forall_mem_nil _) hhead hlast rfl rfl
  rw [trimAscii_newline]
  simpa using hframed

theorem readAs_text (hdepth : (Json.obj ms).depth < 128) :
    ReadAs serde (text ++ [newline])
      (Json.obj (ms.map fun e => (e.1, e.2.mapDoubles serde.reread))).canonical := by
  have htrim := trimAscii_text hs ht
  have hhead := (hs.obj_braces ms text ht).1
  constructor
  · rw [htrim]
    cases text with
    | nil => cases hhead
    | cons b text => rfl
  · rw [htrim]
    exact headerText_of_head hhead
  · rw [htrim]
    have hread := hs.fromSlice_toVec _ _ hdepth ht
    rwa [← Json.canonical_mapDoubles, Json.mapDoubles, Json.mapDoublesMembers_eq] at hread

theorem rawLines_text : rawLines (text ++ [newline]) = [text ++ [newline]] := by
  rw [rawLines_line (hs.newline_notMem _ _ ht), rawLines_nil]

end

/-- **The line of a record** and one that has more members are the same. -/
theorem sameLine_extra {serde : SerdeJson} (hs : serde.Lawful) {record : Record}
    {scope : Option Scope} (hp : record.Paired scope) {runId : String} (hne : runId ≠ "")
    {ms extra : List (String × Json)} (hms : jsonRecord serde record scope runId = .obj ms)
    (hkeys : ((ms ++ extra).map Prod.fst).Nodup)
    (hnew : ∀ k ∈ extra.map Prod.fst, k ∉ ["format_version", "run_id", "type", "id", "time_ns",
      "scope_id", "scope", "level", "message", "fields", "outcome", "duration_ns"])
    {text : Bytes} (hdepth : (Json.obj (ms ++ extra)).depth < 128)
    (ht : serde.toVec (.obj (ms ++ extra)) = .ok text) :
    SameLine serde (renderJsonlInRun serde record scope runId ++ [newline]) (text ++ [newline]) := by
  have hline := renderJsonlInRun_eq hs record scope runId
  have hdepth' := depth_jsonRecord serde record scope runId
  have haccepted := decodeLine_record hs hne hp
  rw [hms] at hline hdepth'
  -- the doubles are read alike in both, the keys are the same
  have hagree : Agree entryShape
      (Json.obj (ms.map fun e => (e.1, e.2.mapDoubles serde.reread))).canonical
      (Json.obj ((ms ++ extra).map fun e => (e.1, e.2.mapDoubles serde.reread))).canonical := by
    rw [List.map_append]
    refine .of_extra (by simpa [Function.comp_def] using hkeys) ?_
    intro p hpknown hpextra
    refine hnew _ ?_ (List.mem_map_of_mem (f := Prod.fst) hpknown)
    simpa [Function.comp_def] using hpextra
  rw [← trimAscii_text hs hline] at haccepted
  exact .entry (readAs_text hs hline hdepth') (readAs_text hs ht hdepth) hagree haccepted

/-- A later writer adds the id of a trace. -/
theorem unknown_members_ignored_trace : ∃ ms text saved,
    jsonRecord compactSerde startedRecord none "run" = .obj ms ∧
    compactSerde.toVec (.obj (ms ++ [("trace_id", .str "a1")])) = .ok text ∧
    load compactSerde [⟨none, renderJsonlInRun compactSerde startedRecord none "run" ++ [newline]⟩] =
      .ok saved ∧
    load compactSerde [⟨none, text ++ [newline]⟩] = .ok saved := by
  have hs := compactSerde_lawful
  obtain ⟨ms, hms⟩ : ∃ ms, jsonRecord compactSerde startedRecord none "run" = .obj ms := ⟨_, rfl⟩
  have hline := renderJsonlInRun_eq hs startedRecord none "run"
  rw [hms] at hline
  obtain ⟨text, ht⟩ : ∃ text, compactSerde.toVec (.obj (ms ++ [("trace_id", .str "a1")])) = .ok text :=
    ⟨_, rfl⟩
  have hkeys : ((ms ++ [("trace_id", Json.str "a1")]).map Prod.fst).Nodup := by
    obtain rfl := Json.obj.inj hms
    decide
  have hdepth : (Json.obj (ms ++ [("trace_id", Json.str "a1")])).depth < 128 := by
    obtain rfl := Json.obj.inj hms
    decide
  have hpaired : startedRecord.Paired none := by simp [Record.Paired, startedRecord]
  have hne : "run" ≠ "" := by decide
  have hsame := sameLine_extra hs hpaired hne hms hkeys (by decide) hdepth ht
  have hfiles : List.Forall₂ (SameFile compactSerde)
      [⟨none, renderJsonlInRun compactSerde startedRecord none "run" ++ [newline]⟩]
      [⟨none, text ++ [newline]⟩] := by
    refine .cons ⟨rfl, ?_⟩ .nil
    rw [rawLines_text hs hline, rawLines_text hs ht]
    exact .cons hsame .nil
  obtain ⟨saved, hload, hload'⟩ := unknown_members_ignored hs hfiles
  exact ⟨ms, text, saved, hms, ht, hload, hload'⟩

end Eventline
