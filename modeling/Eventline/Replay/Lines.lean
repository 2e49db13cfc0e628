/-
  Loading what was rendered.

  * `Rendered`: a line rendered for a run, and the parts it is read as;
    `classify_line` reads it back, also with whitespace around it.
  * `Agrees`: parts that add to a run without contradicting it; `merge_agrees`
    merges them without an issue.
  * `codec_lossless`: the line of a scope or record is read back as just that.
  * `load_entries`: a file of entries of one run whose parts agree loads as that
    run; `finish_below` completes it, without repair if parents have smaller ids.
-/
import Eventline.Replay.Loader
import Eventline.Wire.Reference

namespace Eventline

open Text Checked

/-- A line rendered for a run, of a scope or of a record that can be exported, and
    the parts that it is read as. -/
inductive Rendered (serde : SerdeJson) (runId : String) : Bytes → Parts → Prop
  | scope (s : Scope) : Rendered serde runId (renderScopeJsonl serde s runId) ⟨none, some s⟩
  | record {record : Record} {scope : Option Scope} : record.Paired scope →
      Rendered serde runId (renderJsonlInRun serde record scope runId)
        ⟨some (record.reread serde), scope⟩

/-- A reader that is exact reads the record. -/
theorem Rendered.record_of_exact {serde : SerdeJson} (hexact : serde.Exact) {runId : String}
    {record : Record} {scope : Option Scope} (hp : record.Paired scope) :
    Rendered serde runId (renderJsonlInRun serde record scope runId) ⟨some record, scope⟩ := by
  have h : Rendered serde runId _ _ := .record hp
  rwa [Record.reread_of_exact hexact] at h

theorem headerText_of_head {text : Bytes} (h : text.head? = some 123) : headerText text = none := by
  cases text with
  | nil => cases h
  | cons b text =>
    obtain rfl := Option.some.inj h
    rfl

section
variable {serde : SerdeJson} (hs : serde.Lawful) {runId : String} {line : Bytes} {parts : Parts}
  (h : Rendered serde runId line parts)
include hs h

theorem Rendered.text : ∃ members, serde.toVec (.obj members) = .ok line := by
  cases h with
  | scope s => exact ⟨_, renderScopeJsonl_eq hs s runId⟩
  | record hp => exact ⟨_, renderJsonlInRun_eq hs _ _ runId⟩

theorem Rendered.newline_notMem : newline ∉ line := by
  obtain ⟨members, ht⟩ := h.text hs
  exact hs.newline_notMem _ _ ht

theorem Rendered.decodeLine (hne : runId ≠ "") :
    Eventline.decodeLine serde line = .ok ⟨some runId, parts⟩ := by
  cases h with
  | scope s => exact decodeLine_scope hs hne s
  | record hp => exact decodeLine_record hs hne hp

/-- **A rendered line is read back**, with whitespace around it or not. -/
theorem Rendered.classify_line (hne : runId ≠ "") {pre post : Bytes}
    (hpre : ∀ b ∈ pre, isAsciiWhitespace b = true) (hpost : ∀ b ∈ post, isAsciiWhitespace b = true) :
    classify serde (pre ++ line ++ post) = .entry ⟨some runId, parts⟩ := by
  obtain ⟨members, ht⟩ := h.text hs
  obtain ⟨hhead, hlast⟩ := hs.obj_braces _ _ ht
  have hnil : line.isEmpty = false := by
    cases line with
    | nil => cases hhead
    | cons b line => rfl
  rw [classify, trimAscii_framed hpre hpost hhead hlast rfl rfl, hnil, headerText_of_head hhead,
    h.decodeLine hs hne]
  rfl

end

/-- Rendered lines, ended or separated by newlines, are read as their parts. -/
theorem classify_rendered {serde : SerdeJson} (hs : serde.Lawful) {runId : String}
    (hne : runId ≠ "") {lines : List Bytes} {ps : List Parts}
    (h : List.Forall₂ (Rendered serde runId) lines ps) {bytes : Bytes}
    (hb : bytes = unlines lines ∨ bytes = [newline].intercalate lines) :
    (rawLines bytes).map (classify serde) = ps.map fun parts => .entry ⟨some runId, parts⟩ := by
  have hline : ∀ line ∈ lines, newline ∉ line ∧ line ≠ [] := by
    intro line hl
    obtain ⟨i, hi⟩ := List.mem_iff_getElem?.1 hl
    obtain ⟨hlt, rfl⟩ := List.getElem?_eq_some_iff.1 hi
    have hr : Rendered serde runId lines[i] _ := h.get hlt (by rw [← h.length_eq]; exact hlt)
    refine ⟨hr.newline_notMem hs, ?_⟩
    intro hnil
    obtain ⟨members, ht⟩ := hr.text hs
    have hhead := (hs.obj_braces _ _ ht).1
    rw [hnil] at hhead
    cases hhead
  have hraw := rawLines_framed (fun line hl => (hline line hl).1) (fun line hl => (hline line hl).2) hb
  clear hline hb
  generalize rawLines bytes = raws at hraw
  induction h generalizing raws with
  | nil => cases hraw; rfl
  | cons hr _ ih =>
    cases hraw with
    | cons hframe hraw =>
      rw [List.map_cons, List.map_cons, ih _ hraw]
      congr 1
      rcases hframe with rfl | rfl
      · simpa using hr.classify_line hs hne (List.forall_mem_nil _) (List.forall_mem_nil _)
      · have hpost : ∀ b ∈ [newline], isAsciiWhitespace b = true := by simp [newline]; rfl
        simpa using hr.classify_line hs hne (List.forall_mem_nil _) hpost

/-! ## Parts that agree -/

/-- The outcomes come from retained exits. -/
def RunBuilder.Observed (b : RunBuilder) : Prop :=
  ∀ id, (b.outcomes id).isSome → ∃ r ∈ b.run.records, ∃ o, RunBuilder.exitOf r = some (id, o)

/-- Parts that add to a run without contradicting it: the scope matches the one
    of its id, the record is new, and so is its exit. -/
structure Agrees (scopes : List Scope) (records : List Record) (parts : Parts) : Prop where
  scope : ∀ s, parts.scope = some s → ∀ x ∈ scopes, x.id = s.id → x.conflicts s = false
  record : ∀ r, parts.record = some r → ∀ x ∈ records, x.id ≠ r.id
  exit : ∀ r, parts.record = some r → ∀ id o, RunBuilder.exitOf r = some (id, o) →
    ∀ x ∈ records, ∀ o', RunBuilder.exitOf x ≠ some (id, o')

theorem absorbRecord_fresh {serde : SerdeJson} {records : List Record} {r : Record}
    (h : ∀ x ∈ records, x.id ≠ r.id) : absorbRecord serde records r = records ++ [r] := by
  have hfind : (records.find? fun x => x.id = r.id) = none := by
    rw [List.find?_eq_none]
    intro x hx
    simpa using h x hx
  rw [absorbRecord, hfind]
  rfl

namespace RunBuilder

theorem new_observed (runId source : Option String) : (new runId source).Observed := by
  intro id h
  cases h

theorem addScope_agrees {b : RunBuilder} (h : b.WF) (ho : b.Observed) {s : Scope}
    (hs : ∀ x ∈ b.run.scopes, x.id = s.id → x.conflicts s = false) :
    ∃ b', b.addScope s = .ok (b', none) ∧ b'.WF ∧ b'.Observed ∧
      b'.run = { b.run with scopes := absorbScope b.run.scopes s } ∧ b'.source = b.source := by
  obtain ⟨b', hadd, hwf, hrun, hsrc, hout⟩ := addScope_ok h s
  have hany : b.run.scopes.any (fun x => x.id = s.id && x.conflicts s) = false := by
    rw [List.any_eq_false]
    intro x hx
    by_cases hid : x.id = s.id
    · simp [hs x hx hid]
    · simp [hid]
  rw [hany] at hadd
  refine ⟨b', hadd, hwf, ?_, hrun, hsrc⟩
  intro id hid
  rw [hout] at hid
  rw [hrun]
  exact ho id hid

theorem addRecord_agrees {serde : SerdeJson} (hserde : serde.Lawful) {b : RunBuilder} (h : b.WF)
    (ho : b.Observed) {r : Record} (hr : ∀ x ∈ b.run.records, x.id ≠ r.id)
    (hexit : ∀ id o, exitOf r = some (id, o) → ∀ x ∈ b.run.records, ∀ o', exitOf x ≠ some (id, o')) :
    ∃ b', b.addRecord serde r = .ok (b', none) ∧ b'.WF ∧ b'.Observed ∧
      b'.run = { b.run with records := b.run.records ++ [r] } ∧ b'.source = b.source := by
  have hfresh : b.checkRecord serde r = .ok .fresh := by
    have hnone : b.records r.id = none := by
      rw [h.records, List.findIdx?_eq_none_iff]
      intro x hx
      simpa using hr x hx
    rw [checkRecord, hnone]
    rfl
  have hconflict : b.exitConflict r = none := by
    unfold exitConflict
    cases he : exitOf r with
    | none => rfl
    | some x =>
      obtain ⟨id, o⟩ := x
      cases hout : b.outcomes id with
      | none => simp [hout]
      | some o' =>
        obtain ⟨y, hy, oy, hyo⟩ := ho id (by rw [hout]; rfl)
        exact absurd hyo (hexit id o he y hy oy)
  obtain ⟨b', issue, hadd, hwf, hrun, hsrc, -⟩ := addRecord_ok hserde h r
  rw [absorbRecord_fresh hr] at hrun
  have hpush : b.addRecord serde r =
      .ok ({ b with records := Function.update b.records r.id (some b.run.records.length) }.pushRecord
        r, none) := by
    rw [addRecord, hfresh, ok_bind]
    dsimp only
    rw [hconflict]
    rfl
  rw [hpush] at hadd
  obtain ⟨hb', rfl⟩ := Prod.mk.inj (Except.ok.inj hadd)
  refine ⟨b', hb' ▸ hpush, hwf, ?_, hrun, hsrc⟩
  intro id hid
  rw [hrun]
  have hout : b'.outcomes = b.observe r := by rw [← hb']; rfl
  rw [hout, observe] at hid
  have hold : (b.outcomes id).isSome → ∃ x ∈ b.run.records ++ [r], ∃ o, exitOf x = some (id, o) := by
    intro hid
    obtain ⟨x, hx, o, hxo⟩ := ho id hid
    exact ⟨x, List.mem_append_left _ hx, o, hxo⟩
  cases he : exitOf r with
  | none =>
    rw [he] at hid
    exact hold hid
  | some x =>
    obtain ⟨id', o⟩ := x
    rw [he] at hid
    by_cases hid' : id = id'
    · subst hid'
      exact ⟨r, by simp, o, he⟩
    · dsimp only at hid
      split_ifs at hid
      · exact hold hid
      · rw [Function.update_of_ne hid'] at hid
        exact hold hid

/-- **Merging parts that agree** raises no issue. -/
theorem merge_agrees {serde : SerdeJson} (hserde : serde.Lawful) {b : RunBuilder} (h : b.WF)
    (ho : b.Observed) {parts : Parts} (ha : Agrees b.run.scopes b.run.records parts) :
    ∃ b', b.merge serde parts = .ok (b', []) ∧ b'.WF ∧ b'.Observed ∧
      b'.run = absorbParts serde b.run parts ∧ b'.source = b.source := by
  obtain ⟨record, scope⟩ := parts
  obtain ⟨b₁, h₁, hwf₁, ho₁, hrun₁, hsrc₁⟩ : ∃ b₁, b.mergeScope scope = .ok (b₁, []) ∧ b₁.WF ∧
      b₁.Observed ∧
      b₁.run = { b.run with scopes := scope.elim b.run.scopes (absorbScope b.run.scopes) } ∧
      b₁.source = b.source := by
    cases scope with
    | none => exact ⟨b, rfl, h, ho, rfl, rfl⟩
    | some s =>
      obtain ⟨b₁, hadd, hwf, ho₁, hrun, hsrc⟩ := addScope_agrees h ho (ha.scope s rfl)
      exact ⟨b₁, by rw [mergeScope, hadd]; rfl, hwf, ho₁, hrun, hsrc⟩
  obtain ⟨b₂, h₂, hwf₂, ho₂, hrun₂, hsrc₂⟩ : ∃ b₂, b₁.mergeRecord serde record = .ok (b₂, []) ∧
      b₂.WF ∧ b₂.Observed ∧ b₂.run = { b₁.run with
        records := record.elim b₁.run.records (absorbRecord serde b₁.run.records) } ∧
      b₂.source = b₁.source := by
    cases record with
    | none => exact ⟨b₁, rfl, hwf₁, ho₁, rfl, rfl⟩
    | some r =>
      have hrecords : b₁.run.records = b.run.records := by rw [hrun₁]
      have hr := ha.record r rfl
      obtain ⟨b₂, hadd, hwf, ho₂, hrun, hsrc⟩ := addRecord_agrees hserde hwf₁ ho₁
        (by rw [hrecords]; exact hr) (by rw [hrecords]; exact ha.exit r rfl)
      refine ⟨b₂, by rw [mergeRecord, hadd]; rfl, hwf, ho₂, ?_, hsrc⟩
      rw [hrun, Option.elim_some, absorbRecord_fresh (by rw [hrecords]; exact hr)]
  refine ⟨b₂, by rw [merge, h₁, ok_bind]; simp only [h₂, ok_bind]; rfl, hwf₂, ho₂, ?_,
    hsrc₂.trans hsrc₁⟩
  rw [hrun₂, hrun₁]
  rfl

end RunBuilder

/-! ## A file of entries -/

/-- Parts, each agreeing with the run that those before it make. -/
inductive AgreeAll (serde : SerdeJson) : SavedRun → List Parts → SavedRun → Prop
  | nil (run : SavedRun) : AgreeAll serde run [] run
  | cons {run run' : SavedRun} {parts : Parts} {rest : List Parts} :
      Agrees run.scopes run.records parts → AgreeAll serde (absorbParts serde run parts) rest run' →
      AgreeAll serde run (parts :: rest) run'

/-- A loader with one run, which is versioned. -/
def Loader.single (runId : String) (b : RunBuilder) : Loader where
  runs := [b]
  byId := Function.update (fun _ => none) runId (some 0)
  legacy := none
  headers := []
  issues := []

section
variable {serde : SerdeJson} (hs : serde.Lawful) {runId : String} {source : Option String}

@[simp] theorem withHeaders_self (b : RunBuilder) : b.withHeaders b.run.headers = b := rfl

/-- **Reading an entry** whose parts agree. -/
theorem readRaw_single {line : InputLine} {parts : Parts}
    (h : classify serde line.raw = .entry ⟨some runId, parts⟩) {b b' : RunBuilder}
    (hm : b.merge serde parts = .ok (b', [])) :
    (Loader.single runId b).readRaw serde line = .ok (.single runId b') := by
  rw [Loader.readRaw_eq, h]
  simp [Loader.accept, Loader.selectRun, Loader.versionedRun, Loader.single, Loader.mergeAt,
    index_ok, hm]

/-- The first entry opens the run. -/
theorem readRaw_first {line : InputLine} {parts : Parts}
    (h : classify serde line.raw = .entry ⟨some runId, parts⟩) {b' : RunBuilder}
    (hm : (RunBuilder.new (some runId) line.source).merge serde parts = .ok (b', [])) :
    Loader.new.readRaw serde line = .ok (.single runId b') := by
  have hheaders : (RunBuilder.new (some runId) line.source).withHeaders
      ((RunBuilder.new (some runId) line.source).run.headers ++ []) = .new (some runId) line.source :=
    rfl
  rw [Loader.readRaw_eq, h]
  simp [Loader.accept, Loader.selectRun, Loader.versionedRun, Loader.openRun, Loader.new,
    Loader.single, Loader.mergeAt, index_ok, -List.append_nil, hheaders, hm]

include hs

theorem foldlM_readRaw_single {lines : List InputLine} {ps : List Parts}
    (h : lines.map (fun line => classify serde line.raw) =
      ps.map fun parts => .entry ⟨some runId, parts⟩)
    {b : RunBuilder} {run : SavedRun} (hwf : b.WF) (ho : b.Observed)
    (ha : AgreeAll serde b.run ps run) :
    ∃ b', lines.foldlM (Loader.readRaw serde) (.single runId b) = .ok (.single runId b') ∧ b'.WF ∧
      b'.run = run ∧ b'.source = b.source := by
  induction lines generalizing ps b with
  | nil =>
    cases ps with
    | cons parts ps => cases h
    | nil =>
      cases ha
      exact ⟨b, rfl, hwf, rfl, rfl⟩
  | cons line lines ih =>
    cases ps with
    | nil => cases h
    | cons parts ps =>
      obtain ⟨hline, hlines⟩ := List.cons.inj h
      cases ha with
      | cons hp ha =>
        obtain ⟨b₁, hm, hwf₁, ho₁, hrun₁, hsrc₁⟩ := RunBuilder.merge_agrees hs hwf ho hp
        obtain ⟨b', hfold, hwf', hrun', hsrc'⟩ := ih hlines hwf₁ ho₁ (hrun₁ ▸ ha)
        refine ⟨b', ?_, hwf', hrun', hsrc'.trans hsrc₁⟩
        rw [List.foldlM_cons, readRaw_single hline hm, ok_bind, hfold]

/-- **A file of entries of one run whose parts agree** loads as that run, without
    an issue about a line. -/
theorem load_entries {bytes : Bytes} {ps : List Parts}
    (h : (rawLines bytes).map (classify serde) = ps.map fun parts => .entry ⟨some runId, parts⟩)
    (hps : ps ≠ []) {run : SavedRun}
    (ha : AgreeAll serde (RunBuilder.new (some runId) source).run ps run) :
    ∃ b : RunBuilder, b.WF ∧ b.run = run ∧ b.source = source ∧
      load serde [⟨source, bytes⟩] = (fun r => ⟨[r.1], r.2⟩) <$> b.finish := by
  have hall : ∀ (raws : List Bytes) (n : ℕ), ((raws.zipIdx n).map fun l =>
      (⟨source, l.2, l.1⟩ : InputLine)).map (fun line => classify serde line.raw) =
      raws.map (classify serde) := by
    intro raws
    induction raws with
    | nil => exact fun _ => rfl
    | cons raw raws ih =>
      intro n
      rw [List.zipIdx_cons, List.map_cons, List.map_cons, ih, List.map_cons]
  have hlines : inputLines [⟨source, bytes⟩] =
      ((rawLines bytes).zipIdx 1).map fun l => ⟨source, l.2, l.1⟩ := by
    simp [inputLines, InputFile.lines]
  obtain ⟨parts, ps, rfl⟩ := List.exists_cons_of_ne_nil hps
  cases hraw : rawLines bytes with
  | nil =>
    rw [hraw] at h
    cases h
  | cons raw raws =>
    rw [hraw] at h hlines
    obtain ⟨hfirst, hrest⟩ := List.cons.inj h
    cases ha with
    | cons hp ha =>
      obtain ⟨b₁, hm, hwf₁, ho₁, hrun₁, hsrc₁⟩ := RunBuilder.merge_agrees hs
        (RunBuilder.new_wf (some runId) source) (RunBuilder.new_observed _ _) hp
      obtain ⟨b, hfold, hwf, hrun, hsrc⟩ := foldlM_readRaw_single hs
        ((hall raws 2).trans hrest) hwf₁ ho₁ (hrun₁ ▸ ha)
      refine ⟨b, hwf, hrun, hsrc.trans hsrc₁, ?_⟩
      rw [load, foldlM_read, hlines, List.zipIdx_cons, List.map_cons, List.foldlM_cons,
        readRaw_first hfirst hm, ok_bind, hfold, ok_bind]
      simp only [Loader.finish, Loader.allRuns, Loader.single, List.isEmpty_nil, if_true,
        List.foldlM_cons, List.foldlM_nil, Loader.finishRun]
      cases b.finish <;> rfl

end

/-! ## One entry -/

theorem new_agrees (runId source : Option String) (parts : Parts) :
    Agrees (RunBuilder.new runId source).run.scopes (RunBuilder.new runId source).run.records
      parts where
  scope _ _ _ hx := by cases hx
  record _ _ _ hx := by cases hx
  exit _ _ _ _ _ _ hx := by cases hx

/-- A line is read as the given parts: it decodes to them, every loader takes
    them for the run with the id, and a file of this line is that run. -/
structure ReadBack (serde : SerdeJson) (runId : String) (line : Bytes) (parts : Parts) : Prop where
  decoded : decodeLine serde line = .ok ⟨some runId, parts⟩
  accepted : ∀ (l : Loader) source number, l.readRaw serde ⟨source, number, line⟩ =
    l.accept serde source number ⟨some runId, parts⟩
  read : ∀ source bytes, bytes = line ∨ bytes = line ++ [newline] →
    ∃ l b, Loader.new.read serde ⟨source, bytes⟩ = .ok l ∧ l.issues = [] ∧ l.runs = [b] ∧
      b.run = ⟨some runId, [], parts.record.toList, parts.scope.toList, []⟩

theorem Rendered.readBack {serde : SerdeJson} (hs : serde.Lawful) {runId : String} (hne : runId ≠ "")
    {line : Bytes} {parts : Parts} (h : Rendered serde runId line parts) :
    ReadBack serde runId line parts where
  decoded := h.decodeLine hs hne
  accepted l source number := by
    have hclass := h.classify_line hs hne (List.forall_mem_nil _) (List.forall_mem_nil _)
    rw [List.nil_append, List.append_nil] at hclass
    rw [Loader.readRaw_eq, hclass]
  read source bytes hbytes := by
    have hframe : bytes = unlines [line] ∨ bytes = [newline].intercalate [line] := by
      rcases hbytes with rfl | rfl
      · exact .inr (by simp [List.intercalate])
      · exact .inl (by simp [unlines])
    have hclass := classify_rendered hs hne (.cons h .nil) hframe
    obtain ⟨raw, hraw, hentry⟩ : ∃ raw, rawLines bytes = [raw] ∧
        classify serde raw = .entry ⟨some runId, parts⟩ := by
      obtain ⟨raw, hraw⟩ := List.length_eq_one_iff.1 (by simpa using congrArg List.length hclass)
      exact ⟨raw, hraw, by simpa [hraw] using hclass⟩
    obtain ⟨b, hm, -, -, hrun, -⟩ := RunBuilder.merge_agrees hs
      (RunBuilder.new_wf (some runId) source) (RunBuilder.new_observed _ _) (new_agrees _ _ parts)
    refine ⟨.single runId b, b, ?_, rfl, rfl, ?_⟩
    · have hfirst : Loader.new.readRaw serde ⟨source, 1, raw⟩ = .ok (.single runId b) :=
        readRaw_first hentry hm
      simp [Loader.read, InputFile.lines, hraw, hfirst]
    · obtain ⟨record, scope⟩ := parts
      rw [hrun]
      cases record <;> cases scope <;> rfl

/-- **The codec is lossless** if doubles are read back exactly: the line of a
    scope, and that of a record with no scope or its own one, is read back as
    just that. -/
theorem codec_lossless {serde : SerdeJson} (hs : serde.Lawful) (hexact : serde.Exact)
    {runId : String} (hne : runId ≠ "") :
    (∀ scope, ReadBack serde runId (renderScopeJsonl serde scope runId) ⟨none, some scope⟩) ∧
      ∀ record scope, record.Paired scope →
        ReadBack serde runId (renderJsonlInRun serde record scope runId) ⟨some record, scope⟩ :=
  ⟨fun scope => (Rendered.scope scope).readBack hs hne,
    fun _ _ hp => (Rendered.record_of_exact hexact hp).readBack hs hne⟩

/-- A warning with a field that is not a number, in no scope. -/
theorem codec_lossless_warning :
    ReadBack compactSerde "run" (renderJsonlInRun compactSerde ⟨⟨1⟩, none, 5,
        .event .warning "slow" (Fields.new.insert "ratio" (.float .nan))⟩ none "run")
      ⟨some ⟨⟨1⟩, none, 5, .event .warning "slow" (Fields.new.insert "ratio" (.float .nan))⟩, none⟩ :=
  (codec_lossless compactSerde_lawful compactSerde_exact (by simp)).2 _ _ ⟨by simp, by simp⟩

/-! ## The completed run -/

/-- A run with placeholders for the scopes it names and has not. -/
def completed (run : SavedRun) : SavedRun :=
  RunBuilder.withPlaceholders run
    (missingOf (run.scopes.map (·.id)) (neededScopes run.scopes run.records))

/-- Scopes whose parents have smaller ids. -/
def ParentsBelow (scopes : List Scope) : Prop :=
  ∀ s ∈ scopes, ∀ p, s.parent = some p → p.n < s.id.n

theorem ParentsBelow.rooted {scopes : List Scope} (h : ParentsBelow scopes) (ids : List ScopeId)
    (id : ScopeId) : Links.Rooted (parentOf (scopes ++ ids.map placeholder)) id := by
  refine Links.rooted_of_decreasing (fun id => id.n.toNat) ?_ id
  intro x y hxy
  rw [parentOf, Option.bind_eq_some_iff] at hxy
  obtain ⟨s, hs, hp⟩ := hxy
  have hid : s.id = x := by simpa using List.find?_some hs
  rcases List.mem_append.1 (List.mem_of_find?_eq_some hs) with hm | hm
  · have hlt := h s hm y hp
    rw [hid] at hlt
    exact hlt
  · obtain ⟨k, -, rfl⟩ := List.mem_map.1 hm
    cases hp

/-- A run without cycles only gets its placeholders, with one issue each. -/
theorem finish_below {b : RunBuilder} (h : b.WF) (hbelow : ParentsBelow b.run.scopes) :
    b.finish = .ok (completed b.run, b.missing.map (RunBuilder.missingIssue b.source)) := by
  obtain ⟨run, issues, hok, hid, hheaders, hrecords, hmissing, -, -, -, hkeep⟩ :=
    RunBuilder.finish_ok h
  obtain ⟨hscopes, hissues⟩ := hkeep fun s _ => hbelow.rooted b.missing s.id
  rw [hok, hissues]
  have hrun : run = completed b.run := by
    obtain ⟨_, _, _, _, _⟩ := run
    simp only at hid hheaders hrecords hmissing hscopes
    rw [hid, hheaders, hrecords, hmissing, hscopes]
    rfl
  rw [hrun]

end Eventline
