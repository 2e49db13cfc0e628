/-
  Runs inferred for entries without a version (`Loader::read_line` of
  `replay/load.rs`).

  A legacy entry goes to the current legacy run; a header and a versioned entry
  close it, and a record id that is there already starts another one.

  * `Opened`: a legacy run is open, by the lines read so far.
  * `selectRun_legacy`: the run that a legacy entry goes to, and the issue raised.
  * `Segmenting`: the invariant; `Segmenting.legacy` is the step for a legacy entry.
  * `legacy_segmented`: no legacy record is lost or merged, and where runs start.
-/
import Eventline.Replay.Conflicts

namespace Eventline

open Text Checked Slots

/-! ## Lines -/

section
variable (serde : SerdeJson)

/-- The line is read as an entry without a version, or with version 0. -/
def InputLine.isLegacy (line : InputLine) : Bool :=
  match classify serde line.raw with
  | .entry d => d.runId.isNone
  | _ => false

/-- The line is a header or is read as a versioned entry. -/
def InputLine.interrupts (line : InputLine) : Bool :=
  match classify serde line.raw with
  | .header _ => true
  | .entry d => d.runId.isSome
  | _ => false

/-- The record of a legacy entry. -/
def InputLine.legacyRecord (line : InputLine) : Option Record :=
  match classify serde line.raw with
  | .entry d => if d.runId = none then d.parts.record else none
  | _ => none

/-- The lines after the last legacy entry. -/
def sinceLegacy (before : List InputLine) : List InputLine :=
  before.rtakeWhile fun line => !line.isLegacy serde

/-- No legacy entry has been read. -/
def FirstLegacy (before : List InputLine) : Prop := ∀ line ∈ before, line.isLegacy serde = false

/-- A header or a versioned entry came after the last legacy entry. -/
def Interrupted (before : List InputLine) : Prop :=
  ∃ line ∈ sinceLegacy serde before, line.interrupts serde = true

/-- A legacy run is open. -/
def Opened (before : List InputLine) : Prop := ¬ FirstLegacy serde before ∧ ¬ Interrupted serde before

end

section
variable {serde : SerdeJson} {before : List InputLine} {line : InputLine}

theorem not_opened_nil : ¬ Opened serde [] := fun h => h.1 (by simp [FirstLegacy])

theorem opened_concat_legacy (h : line.isLegacy serde = true) : Opened serde (before ++ [line]) := by
  constructor
  · intro hfirst
    rw [hfirst line (by simp)] at h
    cases h
  · rintro ⟨x, hx, -⟩
    rw [sinceLegacy, List.rtakeWhile_concat_neg _ _ _ (by simp [h])] at hx
    cases hx

theorem opened_concat (h : line.isLegacy serde = false) :
    Opened serde (before ++ [line]) ↔ Opened serde before ∧ line.interrupts serde = false := by
  have hfirst : FirstLegacy serde (before ++ [line]) ↔ FirstLegacy serde before := by
    simp [FirstLegacy, or_imp, forall_and, h]
  have hinterrupted : Interrupted serde (before ++ [line]) ↔
      Interrupted serde before ∨ line.interrupts serde = true := by
    rw [Interrupted, sinceLegacy, List.rtakeWhile_concat_pos _ _ _ (by simp [h])]
    simp [Interrupted, sinceLegacy, or_and_right, exists_or]
  rw [Opened, Opened, hfirst, hinterrupted, not_or, Bool.not_eq_true, and_assoc]

end

/-! ## The run of a legacy entry -/

namespace Loader

/-- The legacy run that was opened last. -/
def currentLegacy (l : Loader) : Option RunBuilder :=
  (l.runs.filter fun b => b.run.runId = none).getLast?

theorem currentLegacy_of_split {l : Loader} {pre post : List RunBuilder} {b : RunBuilder}
    (hruns : l.runs = pre ++ b :: post) (hb : b.run.runId = none)
    (hpost : ∀ x ∈ post, x.run.runId ≠ none) : l.currentLegacy = some b := by
  have hnil : post.filter (fun b => b.run.runId = none) = [] := by
    rw [List.filter_eq_nil_iff]
    simpa using hpost
  rw [currentLegacy, hruns, List.filter_append, List.filter_cons_of_pos (by simpa using hb), hnil]
  simp

/-- The issue of a repeated legacy record id. -/
def boundary (source : Option String) (line : ℕ) : ReplayIssue :=
  ⟨source, some line, .inferredRunBoundary, repeatedLegacyMessage⟩

theorem mem_records_iff {b : RunBuilder} (h : b.WF) (id : RecordId) :
    (b.records id).isSome = true ↔ ∃ x ∈ b.run.records, x.id = id := by
  rw [h.records]
  simp [List.findIdx?_isSome]

/-- **The run that a legacy entry goes to**: the open one, if the record id is
    new there, or a new one; a repeated id is reported. -/
theorem selectRun_legacy {l : Loader} (h : l.WF) (source : Option String) (line : ℕ)
    {d : DecodedLine} (hd : d.runId = none) :
    (∃ i b, l.legacy = some i ∧ l.runs[i]? = some b ∧
      (∀ r, d.parts.record = some r → ∀ x ∈ b.run.records, x.id ≠ r.id) ∧
      l.selectRun source line d = .ok (l, i)) ∨
    ∃ issues, l.selectRun source line d = .ok ({ l with
        runs := l.runs ++ [.new none source]
        legacy := some l.runs.length
        issues := l.issues ++ issues }, l.runs.length) ∧
      (l.legacy = none ∧ issues = [] ∨
        issues = [boundary source line] ∧ ∃ i b r, l.legacy = some i ∧ l.runs[i]? = some b ∧
          d.parts.record = some r ∧ ∃ x ∈ b.run.records, x.id = r.id) := by
  unfold selectRun
  rw [hd]
  dsimp only
  cases hl : l.legacy with
  | none =>
    refine .inr ⟨[], ?_, .inl ⟨rfl, rfl⟩⟩
    unfold splitLegacy legacyRun
    simp only [hl, pure_eq_ok, ok_bind, openRun, List.append_nil]
  | some i =>
    have hid := h.legacy i hl
    rw [ids, List.getElem?_map, Option.map_eq_some_iff] at hid
    obtain ⟨b, hb, -⟩ := hid
    have hbwf := (h.runs b (List.mem_of_getElem? hb)).1
    have hstays : l.splitLegacy source line d.parts.record = .ok l →
        (do
          let l ← l.splitLegacy source line d.parts.record
          pure (l.legacyRun source) : Checked (Loader × ℕ)) = .ok (l, i) := by
      intro hsplit
      rw [hsplit, ok_bind, legacyRun, hl]
      rfl
    cases hrecord : d.parts.record with
    | none =>
      rw [hrecord] at hstays
      refine .inl ⟨i, b, rfl, hb, fun r hr => (by cases hr), hstays ?_⟩
      unfold splitLegacy
      simp only [hl, pure_eq_ok]
    | some r =>
      rw [hrecord] at hstays
      have hsplit : l.splitLegacy source line (some r) = .ok (if (b.records r.id).isSome then
          { l.issue source line .inferredRunBoundary repeatedLegacyMessage with legacy := none }
          else l) := by
        unfold splitLegacy
        simp only [hl, index_ok hb, ok_bind, pure_eq_ok]
      by_cases hr : (b.records r.id).isSome = true
      · obtain ⟨x, hx, hid⟩ := (mem_records_iff hbwf r.id).1 hr
        refine .inr ⟨[boundary source line], ?_, .inr ⟨rfl, i, b, r, rfl, hb, rfl, x, hx, hid⟩⟩
        rw [hsplit, if_pos hr]
        rfl
      · refine .inl ⟨i, b, rfl, hb, ?_, hstays ?_⟩
        · rintro r' hr' x hx hid
          obtain rfl := Option.some.inj hr'
          exact hr ((mem_records_iff hbwf r.id).2 ⟨x, hx, hid⟩)
        · rw [hsplit, if_neg hr]

/-- A versioned entry closes the legacy run and raises no issue when its run is
    chosen. -/
theorem selectRun_versioned (l : Loader) (source : Option String) (line : ℕ) {d : DecodedLine}
    {runId : String} (hd : d.runId = some runId) : ∃ l' i, l.selectRun source line d = .ok (l', i) ∧
      l'.legacy = none ∧ l'.issues = l.issues := by
  rw [selectRun, hd]
  refine ⟨(l.versionedRun runId source).1, (l.versionedRun runId source).2, rfl, ?_⟩
  unfold versionedRun
  cases l.byId runId with
  | some i => exact ⟨rfl, rfl⟩
  | none => exact ⟨rfl, rfl⟩

end Loader

/-! ## Merging an entry -/

namespace RunBuilder

/-- **The conflicts of an entry**: with another record only if its id is there. -/
theorem merge_kinds {serde : SerdeJson} (hs : serde.Lawful) {b b' : RunBuilder} (h : b.WF)
    {parts : Parts} {conflicts : List (ReplayIssueKind × String)}
    (hm : b.merge serde parts = .ok (b', conflicts)) :
    ∀ c ∈ conflicts, c.1 = .conflictingScope ∨ c.1 = .conflictingRecord ∧
      ∃ r, parts.record = some r ∧ ∃ x ∈ b.run.records, x.id = r.id := by
  obtain ⟨⟨b₁, scopeIssues⟩, hscope, hm⟩ := bind_eq_ok.1 hm
  obtain ⟨⟨b₂, recordIssues⟩, hrecord, hm⟩ := bind_eq_ok.1 hm
  obtain ⟨rfl, rfl⟩ := Prod.mk.inj (Except.ok.inj hm)
  obtain ⟨hwf₁, hsame, hscopeKinds⟩ : b₁.WF ∧ b₁.run.records = b.run.records ∧
      ∀ c ∈ scopeIssues, c.1 = .conflictingScope := by
    cases hpart : parts.scope with
    | none =>
      rw [hpart] at hscope
      obtain ⟨rfl, rfl⟩ := Prod.mk.inj (Except.ok.inj hscope)
      exact ⟨h, rfl, by simp⟩
    | some s =>
      rw [hpart] at hscope
      obtain ⟨⟨b₁', m⟩, hadd, hscope⟩ := bind_eq_ok.1 hscope
      obtain ⟨rfl, rfl⟩ := Prod.mk.inj (Except.ok.inj hscope)
      obtain ⟨b₁'', hok, hwf, hrun, -⟩ := addScope_ok h s
      obtain ⟨rfl, -⟩ := Prod.mk.inj (Except.ok.inj (hok.symm.trans hadd))
      refine ⟨hwf, by rw [hrun], ?_⟩
      intro c hc
      obtain ⟨_, -, rfl⟩ := List.mem_map.1 hc
      rfl
  intro c hc
  rcases List.mem_append.1 hc with hc | hc
  · exact .inl (hscopeKinds c hc)
  cases hpart : parts.record with
  | none =>
    rw [hpart] at hrecord
    obtain ⟨-, rfl⟩ := Prod.mk.inj (Except.ok.inj hrecord)
    cases hc
  | some r =>
    rw [hpart] at hrecord
    obtain ⟨⟨b₂', issue⟩, hadd, hrecord⟩ := bind_eq_ok.1 hrecord
    obtain ⟨-, rfl⟩ := Prod.mk.inj (Except.ok.inj hrecord)
    have hissue : issue = some c := Option.mem_toList.1 hc
    have hreport := addRecord_report hs hwf₁ hadd
    rw [hsame] at hreport
    cases hfind : b.run.records.find? fun x => x.id = r.id with
    | none =>
      rw [hfind] at hreport
      have hx : b₁.exitConflict r = some c := hreport.2.symm.trans hissue
      unfold exitConflict at hx
      split at hx
      · split_ifs at hx
        cases hx
        exact .inl rfl
      · cases hx
    | some first =>
      rw [hfind] at hreport
      dsimp only at hreport
      split_ifs at hreport
      · rw [hissue] at hreport
        cases hreport.2
      · obtain rfl := Option.some.inj (hissue.symm.trans hreport.2)
        exact .inr ⟨rfl, r, rfl, first, List.mem_of_find?_eq_some hfind,
          by simpa using List.find?_some hfind⟩

end RunBuilder

/-- **What an entry does to the run that takes it.** -/
theorem Loader.mergeAt_ok {serde : SerdeJson} (hs : serde.Lawful) {l : Loader} {i : ℕ}
    {b : RunBuilder} (hb : l.runs[i]? = some b) (hwf : b.WF) (source : Option String) (line : ℕ)
    (parts : Parts) : ∃ (b' : RunBuilder) (conflicts : List (ReplayIssueKind × String)),
      l.mergeAt serde i source line parts = .ok { l with
        runs := l.runs.set i b'
        headers := []
        issues := l.issues ++ conflicts.map fun c => ⟨source, some line, c.1, c.2⟩ } ∧
      b'.run.runId = b.run.runId ∧
      b'.run.records = parts.record.elim b.run.records (absorbRecord serde b.run.records) ∧
      ∀ c ∈ conflicts, c.1 = .conflictingScope ∨ c.1 = .conflictingRecord ∧
        ∃ r, parts.record = some r ∧ ∃ x ∈ b.run.records, x.id = r.id := by
  obtain ⟨b', conflicts, hm, -, hrun, -⟩ :=
    RunBuilder.merge_ok hs (hwf.withHeaders (b.run.headers ++ l.headers)) parts
  refine ⟨b', conflicts, ?_, by rw [hrun]; rfl, by rw [hrun]; rfl,
    RunBuilder.merge_kinds hs (hwf.withHeaders (b.run.headers ++ l.headers)) hm⟩
  rw [mergeAt, index_ok hb, ok_bind, hm]
  rfl

/-! ## The segmentation -/

/-- The legacy records of a loader, run by run. -/
def Loader.legacyRecords (l : Loader) : List Record :=
  (l.runs.filter fun b => b.run.runId = none).flatMap (·.run.records)

/-- The loader after the lines: the open legacy run is the last one, the legacy
    records are those of the lines, and none comes twice in a run. -/
structure Segmenting (serde : SerdeJson) (before : List InputLine) (l : Loader) : Prop where
  wf : l.WF
  logged : ∃ log, Loader.Logged serde l log
  opened : l.legacy.isSome = true ↔ Opened serde before
  last : ∀ i, l.legacy = some i → ∀ j b, i < j → l.runs[j]? = some b → b.run.runId ≠ none
  records : l.legacyRecords = before.filterMap (InputLine.legacyRecord serde)
  distinct : ∀ b ∈ l.runs, b.run.runId = none → (b.run.records.map (·.id)).Nodup

theorem new_segmenting (serde : SerdeJson) : Segmenting serde [] .new where
  wf := Loader.new_wf
  logged := ⟨[], Loader.new_logged serde⟩
  opened := by simp [Loader.new, not_opened_nil]
  last i h := by cases h
  records := rfl
  distinct b h := by cases h

section
variable {serde : SerdeJson} {before : List InputLine} {line : InputLine} {l l' : Loader}

/-- The open legacy run, and what is around it. -/
theorem Segmenting.split (h : Segmenting serde before l) {i : ℕ} (hi : l.legacy = some i)
    {b : RunBuilder} (hb : l.runs[i]? = some b) : ∃ pre post, l.runs = pre ++ b :: post ∧
      (∀ b', l.runs.set i b' = pre ++ b' :: post) ∧ b.run.runId = none ∧
      ∀ x ∈ post, x.run.runId ≠ none := by
  obtain ⟨hlt, hget⟩ := List.getElem?_eq_some_iff.1 hb
  refine ⟨l.runs.take i, l.runs.drop (i + 1), ?_, ?_, ?_, ?_⟩
  · rw [← hget, ← List.drop_eq_getElem_cons hlt, List.take_append_drop]
  · intro b'
    rw [List.set_eq_take_append_cons_drop, if_pos hlt]
  · have hid := h.wf.legacy i hi
    rw [Loader.ids, List.getElem?_map, hb] at hid
    exact Option.some.inj hid
  · intro x hx
    obtain ⟨j, hj, rfl⟩ := List.mem_drop_iff_getElem.1 hx
    exact h.last i hi (i + 1 + j) _ (by omega) (List.getElem?_eq_getElem _)

/-- A line that is no entry. -/
theorem Segmenting.skip (h : Segmenting serde before l) (hwf : l'.WF)
    (hlogged : ∃ log, Loader.Logged serde l' log) (hruns : l'.runs = l.runs)
    (hline : ∀ d, classify serde line.raw ≠ .entry d)
    (hlegacy : l'.legacy = if line.interrupts serde then none else l.legacy) :
    Segmenting serde (before ++ [line]) l' := by
  have hno : line.isLegacy serde = false := by
    unfold InputLine.isLegacy
    split
    · rename_i d hd
      exact absurd hd (hline d)
    · rfl
  have hnone : line.legacyRecord serde = none := by
    unfold InputLine.legacyRecord
    split
    · rename_i d hd
      exact absurd hd (hline d)
    · rfl
  refine ⟨hwf, hlogged, ?_, ?_, ?_, by rw [hruns]; exact h.distinct⟩
  · rw [opened_concat hno, hlegacy, ← h.opened]
    cases line.interrupts serde <;> simp
  · intro i hi
    rw [hruns]
    rw [hlegacy] at hi
    split_ifs at hi
    exact h.last i hi
  · rw [Loader.legacyRecords, hruns, List.filterMap_append, List.filterMap_cons, hnone]
    simpa [Loader.legacyRecords] using h.records

/-- The legacy records are not touched by a change of a versioned run. -/
theorem legacyRecords_set {runs : List RunBuilder} {i : ℕ} {b b' : RunBuilder}
    (hb : runs[i]? = some b) (hid : b.run.runId ≠ none) (hid' : b'.run.runId = b.run.runId) :
    (runs.set i b').filter (fun b => b.run.runId = none) =
      runs.filter fun b => b.run.runId = none := by
  obtain ⟨hlt, hget⟩ := List.getElem?_eq_some_iff.1 hb
  have hsplit : runs = runs.take i ++ b :: runs.drop (i + 1) := by
    rw [← hget, ← List.drop_eq_getElem_cons hlt, List.take_append_drop]
  rw [List.set_eq_take_append_cons_drop, if_pos hlt]
  conv_rhs => rw [hsplit]
  rw [List.filter_append, List.filter_append, List.filter_cons_of_neg (by simpa [hid'] using hid),
    List.filter_cons_of_neg (by simpa using hid)]

/-- A versioned entry. -/
theorem Segmenting.versioned (hs : serde.Lawful) (h : Segmenting serde before l)
    {d : DecodedLine} {runId : String} (hclass : classify serde line.raw = .entry d)
    (hd : d.runId = some runId) : ∃ l' added, l.readRaw serde line = .ok l' ∧
      Segmenting serde (before ++ [line]) l' ∧ l'.issues = l.issues ++ added ∧
      ∀ i ∈ added, i.kind ≠ .inferredRunBoundary := by
  obtain ⟨log, hlog⟩ := h.logged
  obtain ⟨l₁, i, l₂, hsel, hmerge, hwf, hlog', -⟩ :=
    Loader.accept_ok hs h.wf hlog line.source line.number d
  obtain ⟨l₁', i', hsel', hlegacy, hissues⟩ :=
    Loader.selectRun_versioned l line.source line.number hd
  obtain ⟨rfl, rfl⟩ := Prod.mk.inj (Except.ok.inj (hsel.symm.trans hsel'))
  obtain ⟨l₁', i', hsel', hselected⟩ := Loader.selectRun_ok h.wf line.source line.number d
  obtain ⟨rfl, rfl⟩ := Prod.mk.inj (Except.ok.inj (hsel.symm.trans hsel'))
  obtain ⟨b, hb, hbid⟩ : ∃ b, l₁.runs[i]? = some b ∧ b.run.runId = d.runId := by
    have hid := hselected.id
    rw [Loader.ids, List.getElem?_map, Option.map_eq_some_iff] at hid
    exact hid
  have hbne : b.run.runId ≠ none := by
    rw [hbid, hd]
    rintro ⟨⟩
  obtain ⟨b', conflicts, hok, hid', -, hkinds⟩ := Loader.mergeAt_ok hs hb
    (hselected.wf.runs b (List.mem_of_getElem? hb)).1 line.source line.number d.parts
  obtain rfl := Except.ok.inj (hmerge.symm.trans hok)
  have hno : line.isLegacy serde = false := by
    rw [InputLine.isLegacy, hclass]
    simp [hd]
  have hinterrupts : line.interrupts serde = true := by
    rw [InputLine.interrupts, hclass]
    simp [hd]
  have hnone : line.legacyRecord serde = none := by
    rw [InputLine.legacyRecord, hclass]
    simp [hd]
  -- a run that is opened here is versioned as well
  have hfilter : (l₁.runs.filter fun b => b.run.runId = none) =
      l.runs.filter fun b => b.run.runId = none := by
    rcases hselected.runs with hr | ⟨hr, -⟩
    · rw [hr]
    · rw [hr, List.filter_append, List.filter_cons_of_neg (by simp [RunBuilder.new, hd])]
      simp
  have hfilter' : ((l₁.runs.set i b').filter fun b => b.run.runId = none) =
      l.runs.filter fun b => b.run.runId = none := by
    rw [legacyRecords_set hb hbne hid', hfilter]
  refine ⟨_, conflicts.map fun c => ⟨line.source, some line.number, c.1, c.2⟩, ?_,
    ⟨hwf, ⟨_, hlog'⟩, ?_, ?_, ?_, ?_⟩, by rw [hissues], ?_⟩
  · rw [Loader.readRaw_eq, hclass]
    simp only [Loader.accept, hsel, ok_bind]
    exact hok
  · rw [opened_concat hno, hinterrupts, hlegacy]
    simp
  · intro j hj
    rw [hlegacy] at hj
    cases hj
  · rw [Loader.legacyRecords, hfilter', List.filterMap_append, List.filterMap_cons, hnone]
    simpa [Loader.legacyRecords] using h.records
  · intro x hx hxid
    have hmem : x ∈ l.runs.filter fun b => b.run.runId = none := by
      rw [← hfilter']
      exact List.mem_filter.2 ⟨hx, by simpa using hxid⟩
    exact h.distinct x (List.mem_filter.1 hmem).1 hxid
  · intro x hx
    obtain ⟨c, hc, rfl⟩ := List.mem_map.1 hx
    rcases hkinds c hc with hk | ⟨hk, -⟩
    · simp [hk]
    · simp [hk]

/-! ## A legacy entry -/

/-- The record id of the entry is in the current legacy run. -/
def Loader.Repeats (l : Loader) (d : DecodedLine) : Prop :=
  ∃ b r, l.currentLegacy = some b ∧ d.parts.record = some r ∧ ∃ x ∈ b.run.records, x.id = r.id

/-- The entry starts a run: it is the first legacy entry, or a header or a versioned
    entry came since the last one, or its record id is in the current run. -/
def StartsRun (serde : SerdeJson) (before : List InputLine) (l : Loader) (d : DecodedLine) : Prop :=
  FirstLegacy serde before ∨ Interrupted serde before ∨ l.Repeats d

/-- The issues of kind `InferredRunBoundary`. -/
def boundaries (issues : List ReplayIssue) : List ReplayIssue :=
  issues.filter fun i => i.kind = .inferredRunBoundary

/-- What a legacy entry does: it starts a run or is added to the current one, no
    conflict with another record is reported at its line, and an inferred boundary
    only if the id is repeated in a run that is open. -/
structure SegmentStep (serde : SerdeJson) (before : List InputLine) (line : InputLine)
    (d : DecodedLine) (l l' : Loader) : Prop where
  starts : StartsRun serde before l d →
    ∃ b, l'.runs = l.runs ++ [b] ∧ b.run.runId = none ∧ b.run.records = d.parts.record.toList
  joins : ¬ StartsRun serde before l d → ∃ pre b b' post,
    l.runs = pre ++ b :: post ∧ l'.runs = pre ++ b' :: post ∧ l.currentLegacy = some b ∧
      l'.currentLegacy = some b' ∧ b'.run.records = b.run.records ++ d.parts.record.toList
  issues : ∃ added, l'.issues = l.issues ++ added ∧
    (∀ i ∈ added, i.source = line.source ∧ i.line = some line.number ∧ i.kind ≠ .conflictingRecord) ∧
    (Opened serde before ∧ l.Repeats d →
      boundaries added = [Loader.boundary line.source line.number]) ∧
    (¬ (Opened serde before ∧ l.Repeats d) → boundaries added = [])

theorem startsRun_of_not_opened {d : DecodedLine} (h : ¬ Opened serde before) :
    StartsRun serde before l d := by
  by_contra hno
  exact h ⟨fun hfirst => hno (.inl hfirst), fun hint => hno (.inr (.inl hint))⟩

/-- Conflicts of scopes are no boundaries. -/
theorem conflicts_located {conflicts : List (ReplayIssueKind × String)}
    (h : ∀ c ∈ conflicts, c.1 = .conflictingScope) (source : Option String) (number : ℕ) :
    boundaries (conflicts.map fun c => ⟨source, some number, c.1, c.2⟩) = [] ∧
      ∀ i ∈ conflicts.map fun c => (⟨source, some number, c.1, c.2⟩ : ReplayIssue),
        i.source = source ∧ i.line = some number ∧ i.kind ≠ .conflictingRecord := by
  constructor
  · rw [boundaries, List.filter_eq_nil_iff]
    intro i hi
    obtain ⟨c, hc, rfl⟩ := List.mem_map.1 hi
    simp [h c hc]
  · intro i hi
    obtain ⟨c, hc, rfl⟩ := List.mem_map.1 hi
    exact ⟨rfl, rfl, by simp [h c hc]⟩

theorem isLegacy_of_entry {d : DecodedLine} (hclass : classify serde line.raw = .entry d)
    (hd : d.runId = none) : line.isLegacy serde = true := by
  rw [InputLine.isLegacy, hclass]
  simp [hd]

theorem legacyRecord_of_entry {d : DecodedLine} (hclass : classify serde line.raw = .entry d)
    (hd : d.runId = none) : line.legacyRecord serde = d.parts.record := by
  rw [InputLine.legacyRecord, hclass]
  simp [hd]

/-- The loader when the open run `i` has taken the record of the line. -/
theorem Segmenting.append (h : Segmenting serde before l) {d : DecodedLine}
    (hclass : classify serde line.raw = .entry d) (hd : d.runId = none) {i : ℕ}
    {b b' : RunBuilder} (hlegacy : l.legacy = some i) (hb : l.runs[i]? = some b)
    (hfresh : ∀ r, d.parts.record = some r → ∀ x ∈ b.run.records, x.id ≠ r.id)
    (hwf : l'.WF) (hlogged : ∃ log, Loader.Logged serde l' log)
    (hruns : l'.runs = l.runs.set i b') (hlegacy' : l'.legacy = some i)
    (hid : b'.run.runId = b.run.runId)
    (happended : b'.run.records = b.run.records ++ d.parts.record.toList) :
    Segmenting serde (before ++ [line]) l' := by
  obtain ⟨pre, post, hsplit, hset, hbid, hpost⟩ := h.split hlegacy hb
  refine ⟨hwf, hlogged, ?_, ?_, ?_, ?_⟩
  · simp only [hlegacy', Option.isSome_some, true_iff]
    exact opened_concat_legacy (isLegacy_of_entry hclass hd)
  · intro k hk j x hkj hx
    obtain rfl := Option.some.inj (hlegacy'.symm.trans hk)
    rw [hruns, List.getElem?_set_ne (by omega)] at hx
    exact h.last i hlegacy j x hkj hx
  · have hold := h.records
    have hnil : post.filter (fun b => b.run.runId = none) = [] := by
      rw [List.filter_eq_nil_iff]
      simpa using hpost
    rw [Loader.legacyRecords, hsplit, List.filter_append,
      List.filter_cons_of_pos (by simpa using hbid), hnil] at hold
    rw [Loader.legacyRecords, hruns, hset, List.filter_append,
      List.filter_cons_of_pos (by simp [hid, hbid]), hnil, List.filterMap_append, ← hold,
      List.filterMap_cons, legacyRecord_of_entry hclass hd]
    cases hr : d.parts.record <;> simp [happended, hr]
  · intro x hx hxid
    rw [hruns] at hx
    rcases List.mem_or_eq_of_mem_set hx with hx | rfl
    · exact h.distinct x hx hxid
    · rw [happended, List.map_append, List.nodup_append]
      refine ⟨h.distinct b (List.mem_of_getElem? hb) hbid, ?_, ?_⟩
      · cases d.parts.record <;> simp
      · intro id hmem id' hmem' heq
        obtain ⟨y, hy, rfl⟩ := List.mem_map.1 hmem
        obtain ⟨r, hr, rfl⟩ := List.mem_map.1 hmem'
        exact hfresh r (Option.mem_toList.1 hr) y hy heq

/-- The loader when a run that the line starts has taken its record. -/
theorem Segmenting.concat (h : Segmenting serde before l) {d : DecodedLine}
    (hclass : classify serde line.raw = .entry d) (hd : d.runId = none) {b : RunBuilder}
    (hwf : l'.WF) (hlogged : ∃ log, Loader.Logged serde l' log)
    (hruns : l'.runs = l.runs ++ [b]) (hlegacy : l'.legacy = some l.runs.length)
    (hid : b.run.runId = none) (hown : b.run.records = d.parts.record.toList) :
    Segmenting serde (before ++ [line]) l' := by
  refine ⟨hwf, hlogged, ?_, ?_, ?_, ?_⟩
  · simp only [hlegacy, Option.isSome_some, true_iff]
    exact opened_concat_legacy (isLegacy_of_entry hclass hd)
  · intro k hk j x hkj hx
    obtain rfl := Option.some.inj (hlegacy.symm.trans hk)
    rw [hruns, List.getElem?_eq_none (by simp; omega)] at hx
    cases hx
  · rw [Loader.legacyRecords, hruns, List.filter_append,
      List.filter_cons_of_pos (by simpa using hid), List.flatMap_append, List.filterMap_append,
      ← h.records, List.filterMap_cons, legacyRecord_of_entry hclass hd]
    cases hr : d.parts.record <;> simp [Loader.legacyRecords, hown, hr]
  · intro x hx hxid
    rw [hruns] at hx
    rcases List.mem_append.1 hx with hx | hx
    · exact h.distinct x hx hxid
    · rw [List.mem_singleton.1 hx, hown]
      cases d.parts.record <;> simp

/-- An id that the open run has is repeated in it. -/
theorem Segmenting.repeats (h : Segmenting serde before l) {d : DecodedLine} {i : ℕ}
    {b : RunBuilder} (hlegacy : l.legacy = some i) (hb : l.runs[i]? = some b) :
    l.Repeats d ↔ ∃ r, d.parts.record = some r ∧ ∃ x ∈ b.run.records, x.id = r.id := by
  obtain ⟨pre, post, hruns, -, hbid, hpost⟩ := h.split hlegacy hb
  have hcurrent := Loader.currentLegacy_of_split hruns hbid hpost
  constructor
  · rintro ⟨b₀, r, hb₀, hr, hx⟩
    obtain rfl := Option.some.inj (hcurrent.symm.trans hb₀)
    exact ⟨r, hr, hx⟩
  · rintro ⟨r, hr, hx⟩
    exact ⟨b, r, hcurrent, hr, hx⟩

section
variable (hs : serde.Lawful)
include hs

/-- The entry goes to a run of `l₁` without a record of its id: no conflict with a
    record is reported. -/
theorem Segmenting.merges (h : Segmenting serde before l) {d : DecodedLine}
    (hclass : classify serde line.raw = .entry d) {l₁ : Loader} {i : ℕ} {b : RunBuilder}
    (hsel : l.selectRun line.source line.number d = .ok (l₁, i)) (hb : l₁.runs[i]? = some b)
    (hbwf : b.WF) (hfresh : ∀ r, d.parts.record = some r → ∀ x ∈ b.run.records, x.id ≠ r.id) :
    ∃ (b' : RunBuilder) (added : List ReplayIssue) (l' : Loader), l.readRaw serde line = .ok l' ∧
      l'.WF ∧ (∃ log, Loader.Logged serde l' log) ∧ l'.runs = l₁.runs.set i b' ∧
      l'.legacy = l₁.legacy ∧ l'.issues = l₁.issues ++ added ∧ b'.run.runId = b.run.runId ∧
      b'.run.records = b.run.records ++ d.parts.record.toList ∧ boundaries added = [] ∧
      ∀ x ∈ added, x.source = line.source ∧ x.line = some line.number ∧
        x.kind ≠ .conflictingRecord := by
  obtain ⟨log, hlog⟩ := h.logged
  obtain ⟨l₁', i', l₂, hsel', hmerge, hwf, hlog', -⟩ :=
    Loader.accept_ok hs h.wf hlog line.source line.number d
  obtain ⟨rfl, rfl⟩ := Prod.mk.inj (Except.ok.inj (hsel.symm.trans hsel'))
  obtain ⟨b', conflicts, hok, hid', hrecords, hkinds⟩ := Loader.mergeAt_ok hs hb hbwf line.source
    line.number d.parts
  obtain rfl := Except.ok.inj (hmerge.symm.trans hok)
  have happended : b'.run.records = b.run.records ++ d.parts.record.toList := by
    rw [hrecords]
    cases hr : d.parts.record with
    | none => simp
    | some r => exact absorbRecord_fresh (hfresh r hr)
  have hscopeKinds : ∀ c ∈ conflicts, c.1 = .conflictingScope := by
    intro c hc
    rcases hkinds c hc with hk | ⟨-, r, hr, x, hx, hxr⟩
    · exact hk
    · exact absurd hxr (hfresh r hr x hx)
  obtain ⟨hnone, hlocated⟩ := conflicts_located hscopeKinds line.source line.number
  refine ⟨b', _, _, ?_, hwf, ⟨_, hlog'⟩, rfl, rfl, rfl, hid', happended, hnone, hlocated⟩
  rw [Loader.readRaw_eq, hclass]
  simp only [Loader.accept, hsel, ok_bind]
  exact hok

/-- The entry is added to the open run. -/
theorem Segmenting.join (h : Segmenting serde before l) {d : DecodedLine}
    (hclass : classify serde line.raw = .entry d) (hd : d.runId = none) {i : ℕ} {b : RunBuilder}
    (hlegacy : l.legacy = some i) (hb : l.runs[i]? = some b)
    (hfresh : ∀ r, d.parts.record = some r → ∀ x ∈ b.run.records, x.id ≠ r.id)
    (hsel : l.selectRun line.source line.number d = .ok (l, i)) :
    ∃ l', l.readRaw serde line = .ok l' ∧ Segmenting serde (before ++ [line]) l' ∧
      SegmentStep serde before line d l l' := by
  obtain ⟨b', added, l', hread, hwf, hlogged, hruns', hlegacy', hissues, hid, happended, hnone,
    hlocated⟩ := h.merges hs hclass hsel hb (h.wf.runs b (List.mem_of_getElem? hb)).1 hfresh
  obtain ⟨pre, post, hruns, hset, hbid, hpost⟩ := h.split hlegacy hb
  have hopened : Opened serde before := h.opened.1 (by rw [hlegacy]; rfl)
  have hnot : ¬ l.Repeats d := by
    rw [h.repeats hlegacy hb]
    rintro ⟨r, hr, x, hx, hxr⟩
    exact hfresh r hr x hx hxr
  refine ⟨l', hread, h.append hclass hd hlegacy hb hfresh hwf hlogged hruns'
    (hlegacy'.trans hlegacy) hid happended, ?_, fun _ => ?_, ?_⟩
  · rintro (hfirst | hint | hrep)
    · exact absurd hfirst hopened.1
    · exact absurd hint hopened.2
    · exact absurd hrep hnot
  · rw [hset] at hruns'
    exact ⟨pre, b, b', post, hruns, hruns', Loader.currentLegacy_of_split hruns hbid hpost,
      Loader.currentLegacy_of_split hruns' (hid.trans hbid) hpost, happended⟩
  · exact ⟨added, hissues, hlocated, fun hrep => absurd hrep.2 hnot, fun _ => hnone⟩

/-- The entry starts a run. -/
theorem Segmenting.start (h : Segmenting serde before l) {d : DecodedLine}
    (hclass : classify serde line.raw = .entry d) (hd : d.runId = none) {issues : List ReplayIssue}
    (hsel : l.selectRun line.source line.number d = .ok ({ l with
      runs := l.runs ++ [.new none line.source]
      legacy := some l.runs.length
      issues := l.issues ++ issues }, l.runs.length))
    (hwhy : l.legacy = none ∧ issues = [] ∨
      issues = [Loader.boundary line.source line.number] ∧ ∃ i b r, l.legacy = some i ∧
        l.runs[i]? = some b ∧ d.parts.record = some r ∧ ∃ x ∈ b.run.records, x.id = r.id) :
    ∃ l', l.readRaw serde line = .ok l' ∧ Segmenting serde (before ++ [line]) l' ∧
      SegmentStep serde before line d l l' := by
  obtain ⟨b, added, l', hread, hwf, hlogged, hruns, hlegacy', hissues, hid, hown, hnone,
    hlocated⟩ := h.merges hs hclass hsel (List.getElem?_concat_length ..)
      (RunBuilder.new_wf none line.source) (fun _ _ _ hx => by cases hx)
  have hconcat : l'.runs = l.runs ++ [b] := by
    rw [hruns]
    simp
  refine ⟨l', hread, h.concat hclass hd hwf hlogged hconcat hlegacy' hid hown,
    fun _ => ⟨b, hconcat, hid, hown⟩, ?_, issues ++ added, ?_, ?_⟩
  · intro hno
    refine absurd ?_ hno
    rcases hwhy with ⟨hlegacy, -⟩ | ⟨-, i, b, r, hlegacy, hb, hrep⟩
    · refine startsRun_of_not_opened fun hopened => ?_
      rw [← h.opened, hlegacy] at hopened
      cases hopened
    · exact .inr (.inr ((h.repeats hlegacy hb).2 ⟨r, hrep⟩))
  · rw [hissues, List.append_assoc]
  · rcases hwhy with ⟨hlegacy, rfl⟩ | ⟨rfl, i, b, r, hlegacy, hb, hrep⟩
    · -- no run is open
      refine ⟨hlocated, fun hopened => ?_, fun _ => hnone⟩
      have hsome := h.opened.2 hopened.1
      rw [hlegacy] at hsome
      cases hsome
    · -- the id is repeated in the run that is open
      refine ⟨?_, fun _ => ?_, fun hno => ?_⟩
      · intro x hx
        rcases List.mem_cons.1 hx with rfl | hx
        · exact ⟨rfl, rfl, by rintro ⟨⟩⟩
        · exact hlocated x hx
      · rw [boundaries, List.filter_append]
        exact congrArg ([Loader.boundary line.source line.number] ++ ·) hnone
      · refine absurd ⟨h.opened.1 ?_, (h.repeats hlegacy hb).2 ⟨r, hrep⟩⟩ hno
        rw [hlegacy]
        rfl

/-- **A legacy entry** goes on with the segmentation. -/
theorem Segmenting.legacy (h : Segmenting serde before l) {d : DecodedLine}
    (hclass : classify serde line.raw = .entry d) (hd : d.runId = none) :
    ∃ l', l.readRaw serde line = .ok l' ∧ Segmenting serde (before ++ [line]) l' ∧
      SegmentStep serde before line d l l' := by
  rcases Loader.selectRun_legacy h.wf line.source line.number hd with
    ⟨i, b, hlegacy, hb, hfresh, hsel⟩ | ⟨issues, hsel, hwhy⟩
  · exact h.join hs hclass hd hlegacy hb hfresh hsel
  · exact h.start hs hclass hd hsel hwhy

end

end

/-! ## Reading the lines -/

/-- A line that is no legacy entry raises no boundary. -/
def RaisesNone (l l' : Loader) : Prop :=
  ∃ added, l'.issues = l.issues ++ added ∧ boundaries added = []

section
variable {serde : SerdeJson} {before : List InputLine} {line : InputLine} {l : Loader}

/-- **One line** goes on with the segmentation, of whatever class it is. -/
theorem Segmenting.read (hs : serde.Lawful) (h : Segmenting serde before l) (line : InputLine) :
    ∃ l', l.readRaw serde line = .ok l' ∧ Segmenting serde (before ++ [line]) l' ∧
      (∀ d, classify serde line.raw = .entry d → d.runId = none →
        SegmentStep serde before line d l l') ∧
      (line.isLegacy serde = false → RaisesNone l l') := by
  obtain ⟨log, hlog⟩ := h.logged
  rw [Loader.readRaw_eq]
  cases hclass : classify serde line.raw with
  | blank =>
    have hno : line.interrupts serde = false := by rw [InputLine.interrupts, hclass]
    exact ⟨l, rfl, h.skip h.wf h.logged rfl (by simp [hclass]) (by simp [hno]), by simp,
      fun _ => ⟨[], by simp, rfl⟩⟩
  | header text =>
    have hyes : line.interrupts serde = true := by rw [InputLine.interrupts, hclass]
    exact ⟨{ l with headers := l.headers ++ [text], legacy := none }, rfl,
      h.skip ⟨h.wf.runs, h.wf.byId, h.wf.distinct, by simp⟩ ⟨log, hlog.mem, hlog.fed⟩ rfl
        (by simp [hclass]) (by simp [hyes]), by simp,
      fun _ => ⟨[], by simp, rfl⟩⟩
  | rejected reason =>
    have hno : line.interrupts serde = false := by rw [InputLine.interrupts, hclass]
    refine ⟨l.issue line.source line.number reason.1 reason.2, rfl,
      h.skip ⟨h.wf.runs, h.wf.byId, h.wf.distinct, h.wf.legacy⟩ ⟨log, hlog.mem, hlog.fed⟩ rfl
        (by simp [hclass]) ?_, by simp, fun _ => ?_⟩
    · rw [hno]
      rfl
    have hrejection := classify_rejected hclass
    refine ⟨[⟨line.source, some line.number, reason.1, reason.2⟩], by rw [Loader.issue], ?_⟩
    rw [boundaries, List.filter_eq_nil_iff]
    intro i hi hkind
    obtain rfl := List.mem_singleton.1 hi
    have hkind : reason.1 = .inferredRunBoundary := of_decide_eq_true hkind
    rw [hkind] at hrejection
    cases hrejection
  | entry d =>
    cases hd : d.runId with
    | none =>
      obtain ⟨l', hread, hseg, hstep⟩ := h.legacy hs hclass hd
      rw [Loader.readRaw_eq, hclass] at hread
      refine ⟨l', hread, hseg, ?_, ?_⟩
      · rintro d' hd' -
        obtain rfl := LineClass.entry.inj hd'
        exact hstep
      · intro hlegacy
        rw [InputLine.isLegacy, hclass] at hlegacy
        simp [hd] at hlegacy
    | some runId =>
      obtain ⟨l', added, hread, hseg, hissues, hkinds⟩ := h.versioned hs hclass hd
      rw [Loader.readRaw_eq, hclass] at hread
      refine ⟨l', hread, hseg, ?_, fun _ => ⟨added, hissues, ?_⟩⟩
      · intro d' hd' hnone
        obtain rfl := LineClass.entry.inj hd'
        rw [hd] at hnone
        cases hnone
      · rw [boundaries, List.filter_eq_nil_iff]
        intro i hi
        simpa using hkinds i hi

/-- **Any lines**: the loader after them segments them. -/
theorem segmenting_ok (hs : serde.Lawful) (before : List InputLine) :
    ∃ l, before.foldlM (Loader.readRaw serde) .new = .ok l ∧ Segmenting serde before l := by
  induction before using List.reverseRecOn with
  | nil => exact ⟨.new, rfl, new_segmenting serde⟩
  | append_singleton before line ih =>
    obtain ⟨l, hl, hseg⟩ := ih
    obtain ⟨l', hread, hseg', -⟩ := hseg.read hs line
    refine ⟨l', ?_, hseg'⟩
    rw [List.foldlM_append, hl, ok_bind, List.foldlM_cons, hread]
    rfl

end

/-! ## The loaded runs -/

/-- The legacy runs of a loaded journal, in order. -/
def SavedJournal.legacyRuns (saved : SavedJournal) : List SavedRun :=
  saved.runs.filter fun run => run.runId = none

theorem legacyRuns_records {builders : List RunBuilder} (h : ∀ b ∈ builders, b.WF)
    {runs : List SavedRun} (hall : List.Forall₂ Finishes builders runs) :
    (runs.filter fun run => run.runId = none).map (·.records) =
      (builders.filter fun b => b.run.runId = none).map (·.run.records) := by
  induction hall with
  | nil => rfl
  | @cons b run builders runs hf hrest ih =>
    have hb := h b (by simp)
    have hid := hf.runId hb
    have hrecords := hf.records hb
    have htail := ih fun b hb => h b (List.mem_cons_of_mem _ hb)
    by_cases hnone : b.run.runId = none
    · rw [List.filter_cons_of_pos (by simp [hid, hnone]), List.filter_cons_of_pos (by simp [hnone]),
        List.map_cons, List.map_cons, hrecords, htail]
    · rw [List.filter_cons_of_neg (by simp [hid, hnone]), List.filter_cons_of_neg (by simp [hnone]),
        htail]

/-- Reading a line does what the two conditions say of a legacy entry and of any
    other line. -/
structure ReadsLine (serde : SerdeJson) (before : List InputLine) (line : InputLine)
    (l l' : Loader) : Prop where
  legacy : ∀ d, classify serde line.raw = .entry d → d.runId = none →
    SegmentStep serde before line d l l'
  others : line.isLegacy serde = false → RaisesNone l l'

/-- A load segments the legacy input: its records are all there, in order, and no
    id comes twice in a run; each line, read after those before it, starts a run
    exactly if it has to; and no other boundary or conflict is added at the end. -/
structure LegacySegmented (serde : SerdeJson) (files : List InputFile) (saved : SavedJournal) :
    Prop where
  records : saved.legacyRuns.flatMap (·.records) =
    (inputLines files).filterMap (InputLine.legacyRecord serde)
  distinct : ∀ run ∈ saved.legacyRuns, (run.records.map (·.id)).Nodup
  lines : ∀ before line later, inputLines files = before ++ line :: later →
    ∃ l l', before.foldlM (Loader.readRaw serde) .new = .ok l ∧ l.readRaw serde line = .ok l' ∧
      ReadsLine serde before line l l'
  reported : ∃ l rest, (inputLines files).foldlM (Loader.readRaw serde) .new = .ok l ∧
    saved.issues = l.issues ++ rest ∧
    ∀ i ∈ rest, i.kind ≠ .inferredRunBoundary ∧ i.kind ≠ .conflictingRecord

/-- **Legacy inputs are segmented without loss.** -/
theorem legacy_segmented {serde : SerdeJson} (hs : serde.Lawful) (files : List InputFile) :
    ∃ saved, load serde files = .ok saved ∧ LegacySegmented serde files saved := by
  obtain ⟨l, hread, hseg⟩ := segmenting_ok hs (inputLines files)
  obtain ⟨log, hlog⟩ := hseg.logged
  have hwf : ∀ b ∈ l.allRuns, b.WF := by
    intro b hb
    obtain ⟨i, hi⟩ := List.mem_iff_getElem?.1 hb
    exact (Loader.allRuns_ok hseg.wf hlog hi).1
  obtain ⟨runs, issues, hfinish, hall, hkinds⟩ := finishRuns_ok hwf ⟨[], l.issues⟩
  have hmap := legacyRuns_records hwf hall
  -- the run of the headers at the end has no records
  have hextra : ∃ extra : List (List Record), (∀ rs ∈ extra, rs = []) ∧
      (l.allRuns.filter fun b => b.run.runId = none).map (·.run.records) =
        (l.runs.filter fun b => b.run.runId = none).map (·.run.records) ++ extra := by
    unfold Loader.allRuns
    split_ifs
    · exact ⟨[], by simp, by simp⟩
    · exact ⟨[[]], by simp, by simp [List.filter_append, RunBuilder.withHeaders, RunBuilder.new]⟩
  obtain ⟨extra, hnil, hextra⟩ := hextra
  rw [hextra] at hmap
  refine ⟨⟨runs, l.issues ++ issues⟩, ?_, ?_, ?_, ?_, ⟨l, issues, hread, rfl, ?_⟩⟩
  · rw [load, foldlM_read, hread, ok_bind, Loader.finish, hfinish]
    rfl
  · rw [← hseg.records, Loader.legacyRecords, List.flatMap, List.flatMap, SavedJournal.legacyRuns,
      hmap, List.flatten_append, List.flatten_eq_nil_iff.2 hnil, List.append_nil]
  · intro run hrun
    have hmem : run.records ∈ (l.runs.filter fun b => b.run.runId = none).map (·.run.records) ++
        extra := by
      rw [← hmap]
      exact List.mem_map_of_mem hrun
    rcases List.mem_append.1 hmem with hmem | hmem
    · obtain ⟨b, hb, heq⟩ := List.mem_map.1 hmem
      obtain ⟨hb, hid⟩ := List.mem_filter.1 hb
      rw [← heq]
      exact hseg.distinct b hb (by simpa using hid)
    · rw [hnil _ hmem]
      exact List.nodup_nil
  · intro before line later _
    obtain ⟨l, hbefore, hseg⟩ := segmenting_ok hs before
    obtain ⟨l', hline, -, hlegacy, hothers⟩ := hseg.read hs line
    exact ⟨l, l', hbefore, hline, hlegacy, hothers⟩
  · intro i hi
    rcases hkinds i hi with hk | hk <;> simp [hk]

/-- An entry without a version. -/
def legacyText : String :=
  "\x7b\"id\":0,\"time_ns\":10,\"type\":\"event\",\"level\":\"info\",\"message\":\"event-0\"\x7d"

/-- A file where a header and a repeated id separate three legacy runs. -/
def legacyFile : InputFile where
  source := some "old.jsonl"
  bytes := unlines [utf8 legacyText, utf8 "== second run ==", utf8 legacyText, utf8 legacyText]

theorem legacy_segmented_repeated : ∃ saved, load compactSerde [legacyFile] = .ok saved ∧
    LegacySegmented compactSerde [legacyFile] saved :=
  legacy_segmented compactSerde_lawful [legacyFile]

end Eventline
