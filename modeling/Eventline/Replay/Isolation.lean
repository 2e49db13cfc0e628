/-
  Runs are isolated from damaged lines and from each other.

  * `runLines`: the lines of the input that decode to entries of one versioned
    run.  They alone decide the contents of that run (`load_same_run`).
  * `Loader.core`: line numbers and earlier issues do not matter to the runs, so
    a rejected line changes none of them (`load_acceptedOnly`).
-/
import Eventline.Replay.Runs
import Eventline.Replay.Lines
import Eventline.Wire.Reference

namespace Eventline

open Text Checked

section
variable (serde : SerdeJson)

/-- The line decodes to an entry of the versioned run. -/
def belongs (runId : String) (raw : Bytes) : Bool :=
  match classify serde raw with
  | .entry d => d.runId = some runId
  | _ => false

def isRejected (raw : Bytes) : Bool :=
  match classify serde raw with
  | .rejected _ => true
  | _ => false

/-- The lines of a run, each with the file it is in. -/
def runLines (runId : String) (files : List InputFile) : List (Option String × Bytes) :=
  ((inputLines files).filter fun line => belongs serde runId line.raw).map fun line =>
    (line.source, line.raw)

/-- The file with some of its lines. -/
def InputFile.keep (p : Bytes → Bool) (f : InputFile) : InputFile where
  source := f.source
  bytes := ((rawLines f.bytes).filter p).flatten

/-- The input with the lines of one run. -/
def runOnly (runId : String) (files : List InputFile) : List InputFile :=
  files.map (.keep (belongs serde runId))

/-- The input without the lines that are rejected. -/
def acceptedOnly (files : List InputFile) : List InputFile :=
  files.map (.keep fun raw => !isRejected serde raw)

end

/-- Two runs with the same records, scopes and placeholders. -/
def SavedRun.SameContents (run run' : SavedRun) : Prop :=
  run.records = run'.records ∧ run.scopes = run'.scopes ∧
    run.missingScopeMetadata = run'.missingScopeMetadata

/-! ## Lines that are kept -/

theorem lines_zipIdx (f : InputFile) (n : ℕ) (ls : List Bytes) :
    ((ls.zipIdx n).map fun l => (⟨f.source, l.2, l.1⟩ : InputLine)).map
      (fun line => (line.source, line.raw)) = ls.map fun raw => (f.source, raw) := by
  induction ls generalizing n with
  | nil => rfl
  | cons raw ls ih => rw [List.zipIdx_cons, List.map_cons, List.map_cons, ih, List.map_cons]

/-- The lines of an input, without their numbers. -/
theorem map_inputLines (files : List InputFile) :
    (inputLines files).map (fun line => (line.source, line.raw)) =
      files.flatMap fun f => (rawLines f.bytes).map fun raw => (f.source, raw) := by
  rw [inputLines, List.map_flatMap]
  congr 1
  funext f
  exact lines_zipIdx f 1 _

theorem map_inputLines_keep (p : Bytes → Bool) (files : List InputFile) :
    (inputLines (files.map (.keep p))).map (fun line => (line.source, line.raw)) =
      ((inputLines files).filter fun line => p line.raw).map fun line => (line.source, line.raw) := by
  have hfilter : ((inputLines files).filter fun line => p line.raw).map
      (fun line => (line.source, line.raw)) =
      ((inputLines files).map fun line => (line.source, line.raw)).filter fun x => p x.2 := by
    rw [List.filter_map]
    rfl
  rw [hfilter, map_inputLines, map_inputLines, List.flatMap_map, List.filter_flatMap]
  congr 1
  funext f
  rw [InputFile.keep, ((rawLines_isLines f.bytes).filter p).rawLines_flatten, List.filter_map]
  rfl

theorem runLines_eq (serde : SerdeJson) (runId : String) (files : List InputFile) :
    runLines serde runId files = ((inputLines files).map fun line => (line.source, line.raw)).filter
      fun x => belongs serde runId x.2 := by
  rw [List.filter_map]
  rfl

/-- The input with the lines of one run has just these. -/
theorem runLines_runOnly (serde : SerdeJson) (runId : String) (files : List InputFile) :
    runLines serde runId (runOnly serde runId files) = runLines serde runId files := by
  rw [runLines_eq, runOnly, map_inputLines_keep, runLines, List.filter_map, List.filter_filter]
  simp

/-! ## The contents of a run are decided by its lines -/

/-- An accepted entry without the place of its run. -/
def Fed.line (e : Fed) : Option String × DecodedLine := (e.source, e.decoded)

namespace Loader

theorem built_eq (serde : SerdeJson) (runId : Option String) (log : List Fed) :
    built serde runId log = (log.map Fed.line).foldlM (fun b x => b.feed serde x.2.parts)
      (.new runId ((log.map Fed.line).head?.bind (·.1))) := by
  rw [List.foldlM_map, List.head?_map, Option.bind_map]
  rfl

end Loader

/-- The entries of a run in the log are the entries of its lines. -/
theorem entries_of_run (serde : SerdeJson) (runId : String) (lines : List InputLine) :
    (lines.filterMap (InputLine.entry serde)).filter (fun x => x.2.runId = some runId) =
      ((lines.filter fun line => belongs serde runId line.raw).map
        fun line => (line.source, line.raw)).filterMap fun x =>
          InputLine.entry serde ⟨x.1, 0, x.2⟩ := by
  induction lines with
  | nil => rfl
  | cons line lines ih =>
    rw [List.filterMap_cons, List.filter_cons, InputLine.entry, belongs]
    cases hc : classify serde line.raw with
    | blank => exact ih
    | header text => exact ih
    | rejected reason => exact ih
    | entry d =>
      rw [List.filter_cons, ih]
      by_cases hd : d.runId = some runId
      · simp [hd, InputLine.entry, hc]
      · simp [hd]

/-- The only match of a list. -/
theorem filter_eq_singleton {α : Type} {p : α → Bool} {xs : List α} {i : ℕ} {a : α}
    (ha : xs[i]? = some a) (hp : p a = true) (h : ∀ j b, xs[j]? = some b → p b = true → j = i) :
    xs.filter p = [a] := by
  obtain ⟨hlt, rfl⟩ := List.getElem?_eq_some_iff.1 ha
  have hno : ∀ j b, j ≠ i → xs[j]? = some b → p b = false := by
    intro j b hj hb
    by_contra hpb
    exact hj (h j b hb (by simpa using hpb))
  have hpre : (xs.take i).filter p = [] := by
    rw [List.filter_eq_nil_iff]
    intro b hb
    obtain ⟨j, hj, rfl⟩ := List.mem_take_iff_getElem.1 hb
    have := hno j _ (by omega) (List.getElem?_eq_getElem (by omega))
    simpa using this
  have hpost : (xs.drop (i + 1)).filter p = [] := by
    rw [List.filter_eq_nil_iff]
    intro b hb
    obtain ⟨j, hj, rfl⟩ := List.mem_drop_iff_getElem.1 hb
    have := hno (i + 1 + j) _ (by omega) (List.getElem?_eq_getElem (by omega))
    simpa using this
  have hsplit : xs = xs.take i ++ xs[i] :: xs.drop (i + 1) := by
    rw [← List.drop_eq_getElem_cons hlt, List.take_append_drop]
  conv_lhs => rw [hsplit]
  rw [List.filter_append, hpre, List.filter_cons, hp, hpost]
  rfl

section
variable {serde : SerdeJson} {files : List InputFile} {saved : SavedJournal} {log : List Fed}
  {builders : List RunBuilder} (h : Loaded serde files saved log builders) {runId : String}
include h

/-- The entries of a run in the log. -/
theorem Loaded.runEntries :
    (log.filter fun e => e.decoded.runId = some runId).map Fed.line =
      (runLines serde runId files).filterMap fun x => InputLine.entry serde ⟨x.1, 0, x.2⟩ := by
  have hmap : (log.filter fun e => e.decoded.runId = some runId).map Fed.line =
      (log.map Fed.line).filter fun x => x.2.runId = some runId := by
    rw [List.filter_map]
    rfl
  rw [hmap, show log.map Fed.line = _ from h.entries, entries_of_run, runLines]

theorem Loaded.run_ids : saved.runs.map (·.runId) = builders.map (·.run.runId) := by
  have hwf : ∀ b ∈ builders, b.WF := by
    intro b hb
    obtain ⟨i, hi⟩ := List.mem_iff_getElem?.1 hb
    exact (h.built i b hi).1
  have hall := h.runs
  generalize saved.runs = runs at hall
  clear h
  induction hall with
  | nil => rfl
  | cons hf _ ih =>
    obtain ⟨hb, hbs⟩ := List.forall_mem_cons.1 hwf
    rw [List.map_cons, List.map_cons, hf.runId hb, ih hbs]

/-- **The run of an id**: there is one, made of the entries with that id. -/
theorem Loaded.run_of_id (hr : ∃ line ∈ inputLines files, belongs serde runId line.raw = true) :
    ∃ b run, saved.runs.filter (fun run => run.runId = some runId) = [run] ∧ Finishes b run ∧
      Loader.built serde (some runId) (log.filter fun e => e.decoded.runId = some runId) =
        .ok (b.withHeaders []) := by
  obtain ⟨e, he, hid⟩ : ∃ e ∈ log, e.decoded.runId = some runId := by
    obtain ⟨line, hline, hb⟩ := hr
    unfold belongs at hb
    cases hc : classify serde line.raw with
    | entry d =>
      rw [hc] at hb
      have hd : (line.source, d) ∈ log.map fun e => (e.source, e.decoded) := by
        rw [h.entries]
        exact List.mem_filterMap.2 ⟨line, hline, by rw [InputLine.entry, hc]⟩
      obtain ⟨e, he, hed⟩ := List.mem_map.1 hd
      refine ⟨e, he, ?_⟩
      rw [(Prod.mk.inj hed).2]
      simpa using hb
    | blank => rw [hc] at hb; cases hb
    | header text => rw [hc] at hb; cases hb
    | rejected reason => rw [hc] at hb; cases hb
  have hindex := h.mem e he
  rw [hid] at hindex
  obtain ⟨b, hb, hbid⟩ : ∃ b, builders[e.index]? = some b ∧ b.run.runId = some runId := by
    rwa [List.getElem?_map, Option.map_eq_some_iff] at hindex
  have hfed : Loader.fedTo e.index log = log.filter fun e => e.decoded.runId = some runId := by
    refine List.filter_congr fun x hx => ?_
    have hx' := h.mem x hx
    rw [Bool.eq_iff_iff, decide_eq_true_iff, decide_eq_true_iff]
    constructor
    · intro hxi
      rw [hxi, hindex] at hx'
      exact (Option.some.inj hx').symm
    · intro hxr
      rw [hxr] at hx'
      exact h.distinct _ _ _ hx' hindex
  obtain ⟨hlt, rfl⟩ := List.getElem?_eq_some_iff.1 hb
  have hlt' : e.index < saved.runs.length := by rw [← h.runs.length_eq]; exact hlt
  obtain ⟨-, -, hbuilt, -⟩ := h.built _ _ hb
  rw [hfed, hbid] at hbuilt
  have hids := h.run_ids
  have hget : ∀ (j : ℕ) (run : SavedRun), saved.runs[j]? = some run →
      (builders.map (·.run.runId))[j]? = some run.runId := by
    intro j run hrun
    rw [← hids, List.getElem?_map, hrun]
    rfl
  refine ⟨builders[e.index], saved.runs[e.index], ?_, h.runs.get hlt hlt', hbuilt⟩
  refine filter_eq_singleton (List.getElem?_eq_getElem hlt') ?_ ?_
  · have hrun := hget _ _ (List.getElem?_eq_getElem hlt')
    rw [hindex] at hrun
    simpa using (Option.some.inj hrun).symm
  · intro j run hrun hp
    have hj := hget j run hrun
    rw [show SavedRun.runId run = some runId by simpa using hp] at hj
    exact h.distinct _ _ _ hj hindex

end

/-- Builders that differ in headers finish with the same contents. -/
theorem finishes_same {b b' : RunBuilder} {run run' : SavedRun} (hf : Finishes b run)
    (hf' : Finishes b' run') (h : b.withHeaders [] = b'.withHeaders []) : run.SameContents run' := by
  obtain ⟨issues, hf⟩ := hf
  obtain ⟨issues', hf'⟩ := hf'
  have hcore := RunBuilder.finish_withHeaders b []
  rw [h, RunBuilder.finish_withHeaders b' [], hf, hf'] at hcore
  have hrun := congrArg Prod.fst (Except.ok.inj hcore)
  refine ⟨?_, ?_, ?_⟩
  · exact (congrArg SavedRun.records hrun).symm
  · exact (congrArg SavedRun.scopes hrun).symm
  · exact (congrArg SavedRun.missingScopeMetadata hrun).symm

/-- Inputs with the same lines of a run load that run alike. -/
theorem Loaded.same_run {serde : SerdeJson} {files files' : List InputFile}
    {saved saved' : SavedJournal} {log log' : List Fed} {builders builders' : List RunBuilder}
    (h : Loaded serde files saved log builders) (h' : Loaded serde files' saved' log' builders')
    {runId : String} (hr : ∃ line ∈ inputLines files, belongs serde runId line.raw = true)
    (hlines : runLines serde runId files' = runLines serde runId files) :
    ∃ run run', saved.runs.filter (fun run => run.runId = some runId) = [run] ∧
      saved'.runs.filter (fun run => run.runId = some runId) = [run'] ∧ run.SameContents run' := by
  have hr' : ∃ line ∈ inputLines files', belongs serde runId line.raw = true := by
    obtain ⟨line, hline, hb⟩ := hr
    have hm : (line.source, line.raw) ∈ runLines serde runId files' := by
      rw [hlines]
      exact List.mem_map.2 ⟨line, List.mem_filter.2 ⟨hline, hb⟩, rfl⟩
    obtain ⟨line', hline', -⟩ := List.mem_map.1 hm
    exact ⟨line', (List.mem_filter.1 hline').1, (List.mem_filter.1 hline').2⟩
  obtain ⟨b, run, hone, hf, hbuilt⟩ := h.run_of_id hr
  obtain ⟨b', run', hone', hf', hbuilt'⟩ := h'.run_of_id hr'
  refine ⟨run, run', hone, hone', finishes_same hf hf' ?_⟩
  rw [Loader.built_eq, h.runEntries] at hbuilt
  rw [Loader.built_eq, h'.runEntries, hlines] at hbuilt'
  exact Except.ok.inj (hbuilt.symm.trans hbuilt')

/-! ## Rejected lines -/

namespace Loader

/-- A loader without its issues. -/
def core (l : Loader) : Loader := { l with issues := [] }

theorem selectRun_core (l : Loader) (source : Option String) (n : ℕ) (d : DecodedLine) :
    (fun r => (r.1.core, r.2)) <$> l.selectRun source n d =
      (fun r => (r.1.core, r.2)) <$> l.core.selectRun source 0 d := by
  unfold selectRun
  cases d.runId with
  | some runId =>
    simp only [versionedRun, core]
    cases l.byId runId <;> rfl
  | none =>
    simp only [splitLegacy, core]
    cases hl : l.legacy with
    | none => simp [legacyRun, hl, openRun]
    | some i =>
      cases d.parts.record with
      | none => simp [legacyRun, hl]
      | some record =>
        dsimp only
        cases index l.runs i with
        | error e => rfl
        | ok b =>
          by_cases hr : (b.records record.id).isSome
          · simp [hr, legacyRun, openRun, issue]
          · simp [hr, legacyRun, hl]

theorem mergeAt_core (serde : SerdeJson) (l : Loader) (i : ℕ) (source : Option String) (n : ℕ)
    (parts : Parts) : core <$> l.mergeAt serde i source n parts =
      core <$> l.core.mergeAt serde i source 0 parts := by
  unfold mergeAt core
  dsimp only
  cases index l.runs i with
  | error e => rfl
  | ok b =>
    simp only [ok_bind]
    cases (b.withHeaders (b.run.headers ++ l.headers)).merge serde parts <;> rfl

theorem accept_core (serde : SerdeJson) (l : Loader) (source : Option String) (n : ℕ)
    (d : DecodedLine) :
    core <$> l.accept serde source n d = core <$> l.core.accept serde source 0 d := by
  have hsel := selectRun_core l source n d
  unfold accept
  cases h : l.selectRun source n d with
  | error e =>
    rw [h] at hsel
    cases h' : l.core.selectRun source 0 d with
    | error e' =>
      rw [h'] at hsel
      cases hsel
      rfl
    | ok r' =>
      rw [h'] at hsel
      cases hsel
  | ok r =>
    rw [h] at hsel
    cases h' : l.core.selectRun source 0 d with
    | error e' =>
      rw [h'] at hsel
      cases hsel
    | ok r' =>
      rw [h'] at hsel
      obtain ⟨hcore, hidx⟩ := Prod.mk.inj (Except.ok.inj hsel)
      simp only [ok_bind]
      rw [mergeAt_core, hcore, hidx, ← mergeAt_core]

/-- A line read without its number, by a loader without issues. -/
def readCore (serde : SerdeJson) (l : Loader) (x : Option String × Bytes) : Checked Loader :=
  core <$> l.readRaw serde ⟨x.1, 0, x.2⟩

theorem readRaw_core (serde : SerdeJson) (l : Loader) (line : InputLine) :
    core <$> l.readRaw serde line = l.core.readCore serde (line.source, line.raw) := by
  rw [readCore, readRaw_eq, readRaw_eq]
  cases classify serde line.raw with
  | entry d => exact accept_core serde l line.source line.number d
  | _ => rfl

theorem readRaw_rejected {serde : SerdeJson} {line : InputLine}
    (h : isRejected serde line.raw = true) (l : Loader) :
    core <$> l.readRaw serde line = .ok l.core := by
  rw [readRaw_eq]
  unfold isRejected at h
  cases hc : classify serde line.raw with
  | rejected reason => rfl
  | blank => rw [hc] at h; cases h
  | header text => rw [hc] at h; cases h
  | entry d => rw [hc] at h; cases h

/-- **Reading passes over rejected lines**, and does not look at line numbers. -/
theorem foldlM_core (serde : SerdeJson) (lines : List InputLine) (l : Loader) :
    core <$> lines.foldlM (readRaw serde) l =
      ((lines.filter fun line => !isRejected serde line.raw).map
        fun line => (line.source, line.raw)).foldlM (readCore serde) l.core := by
  induction lines generalizing l with
  | nil => rfl
  | cons line lines ih =>
    rw [List.foldlM_cons, List.filter_cons, map_bind]
    simp only [ih]
    cases hr : isRejected serde line.raw with
    | true =>
      have hread := readRaw_rejected hr l
      cases h : l.readRaw serde line with
      | error e => rw [h] at hread; cases hread
      | ok l₁ =>
        rw [h] at hread
        simp only [ok_bind, Except.ok.inj hread]
        rfl
    | false =>
      have hread := readRaw_core serde l line
      simp only [Bool.not_false, if_true, List.map_cons, List.foldlM_cons, ← hread]
      cases l.readRaw serde line <;> rfl

end Loader

theorem finishes_unique {builders : List RunBuilder} {runs runs' : List SavedRun}
    (h : List.Forall₂ Finishes builders runs) (h' : List.Forall₂ Finishes builders runs') :
    runs = runs' := by
  induction h generalizing runs' with
  | nil => cases h'; rfl
  | cons hf _ ih =>
    cases h' with
    | cons hf' h' =>
      obtain ⟨_, hf⟩ := hf
      obtain ⟨_, hf'⟩ := hf'
      rw [hf] at hf'
      rw [(Prod.mk.inj (Except.ok.inj hf')).1, ih h']

/-- **Rejected lines change no run**: inputs that differ in them load the same runs. -/
theorem load_same_runs {serde : SerdeJson} (hs : serde.Lawful) {files files' : List InputFile}
    (h : ((inputLines files).filter fun line => !isRejected serde line.raw).map
        (fun line => (line.source, line.raw)) =
      ((inputLines files').filter fun line => !isRejected serde line.raw).map
        fun line => (line.source, line.raw)) :
    SavedJournal.runs <$> load serde files = SavedJournal.runs <$> load serde files' := by
  obtain ⟨l, log, -, hread, hwf, hlog, -, -⟩ :=
    Loader.trace_ok hs (inputLines files) Loader.new_wf (Loader.new_logged serde)
  obtain ⟨l', log', -, hread', hwf', hlog', -, -⟩ :=
    Loader.trace_ok hs (inputLines files') Loader.new_wf (Loader.new_logged serde)
  have hcore : l.core = l'.core := by
    have hc := Loader.foldlM_core serde (inputLines files) .new
    have hc' := Loader.foldlM_core serde (inputLines files') .new
    rw [hread] at hc
    rw [hread', ← h, ← hc] at hc'
    exact (Except.ok.inj hc').symm
  have hall : l.allRuns = l'.allRuns := by
    have hcongr := congrArg Loader.allRuns hcore
    exact hcongr
  have hbs : ∀ {l : Loader} {log : List Fed}, l.WF → Loader.Logged serde l log →
      ∀ b ∈ l.allRuns, b.WF := by
    intro l log hwf hlog b hb
    obtain ⟨i, hi⟩ := List.mem_iff_getElem?.1 hb
    exact (Loader.allRuns_ok hwf hlog hi).1
  obtain ⟨runs, issues, hfin, hruns, -⟩ := finishRuns_ok (hbs hwf hlog) ⟨[], l.issues⟩
  obtain ⟨runs', issues', hfin', hruns', -⟩ := finishRuns_ok (hbs hwf' hlog') ⟨[], l'.issues⟩
  rw [← hall] at hruns'
  rw [load, load, foldlM_read, foldlM_read, hread, hread', ok_bind, ok_bind, Loader.finish,
    Loader.finish, hfin, hfin', finishes_unique hruns hruns']
  rfl

/-- **Runs are isolated.**  A versioned run is loaded once; what it holds is what
    its own lines alone give, and what any other input with these lines gives.
    Every rejected line adds one issue with its number, and without the rejected
    lines the runs are the same. -/
theorem runs_isolated {serde : SerdeJson} (hs : serde.Lawful) (files : List InputFile) :
    ∃ saved, load serde files = .ok saved ∧
      (∀ runId, (∃ line ∈ inputLines files, belongs serde runId line.raw = true) →
        ∃ run, saved.runs.filter (fun run => run.runId = some runId) = [run] ∧
          (∃ alone run', load serde (runOnly serde runId files) = .ok alone ∧
            alone.runs.filter (fun run => run.runId = some runId) = [run'] ∧
            run.SameContents run') ∧
          ∀ files', runLines serde runId files' = runLines serde runId files →
            ∃ saved' run', load serde files' = .ok saved' ∧
              saved'.runs.filter (fun run => run.runId = some runId) = [run'] ∧
              run.SameContents run') ∧
      Loader.rejections saved.issues = (inputLines files).filterMap (InputLine.rejection serde) ∧
      ∃ kept, load serde (acceptedOnly serde files) = .ok kept ∧ kept.runs = saved.runs := by
  obtain ⟨saved, log, builders, hload⟩ := load_ok hs files
  have hother : ∀ runId, (∃ line ∈ inputLines files, belongs serde runId line.raw = true) →
      ∀ files', runLines serde runId files' = runLines serde runId files →
        ∃ saved' run run', load serde files' = .ok saved' ∧
          saved.runs.filter (fun run => run.runId = some runId) = [run] ∧
          saved'.runs.filter (fun run => run.runId = some runId) = [run'] ∧
          run.SameContents run' := by
    intro runId hr files' hlines
    obtain ⟨saved', log', builders', hload'⟩ := load_ok hs files'
    obtain ⟨run, run', hone, hone', hsame⟩ := hload.same_run hload' hr hlines
    exact ⟨saved', run, run', hload'.load, hone, hone', hsame⟩
  refine ⟨saved, hload.load, ?_, hload.rejections, ?_⟩
  · intro runId hr
    obtain ⟨alone, run, run', hal, hone, hone', hsame⟩ :=
      hother runId hr _ (runLines_runOnly serde runId files)
    refine ⟨run, hone, ⟨alone, run', hal, hone', hsame⟩, ?_⟩
    intro files' hlines
    obtain ⟨saved', run₂, run₂', hload', hone₂, hone₂', hsame₂⟩ := hother runId hr files' hlines
    rw [hone] at hone₂
    obtain rfl := List.singleton_inj.1 hone₂
    exact ⟨saved', run₂', hload', hone₂', hsame₂⟩
  · obtain ⟨kept, keptLog, keptBuilders, hkept⟩ := load_ok hs (acceptedOnly serde files)
    have hruns : SavedJournal.runs <$> load serde (acceptedOnly serde files) =
      SavedJournal.runs <$> load serde files := load_same_runs hs ?_
    · rw [hkept.load, hload.load] at hruns
      exact ⟨kept, hkept.load, Except.ok.inj hruns⟩
    · have hkeep := map_inputLines_keep (fun raw => !isRejected serde raw) files
      have hfilter : ∀ lines : List InputLine,
          (lines.filter fun line => !isRejected serde line.raw).map
            (fun line => (line.source, line.raw)) =
          (lines.map fun line => (line.source, line.raw)).filter fun x => !isRejected serde x.2 := by
        intro lines
        rw [List.filter_map]
        rfl
      rw [hfilter, acceptedOnly, hkeep, hfilter, List.filter_filter]
      simp

/-- A file of two runs, with a truncated line between them. -/
def mixedFile : InputFile where
  source := some "run.jsonl"
  bytes := unlines [renderScopeJsonl compactSerde ⟨⟨1⟩, none, 5, some "a", none, .none⟩ "first",
    utf8 (.ofList ['\x7b']),
    renderScopeJsonl compactSerde ⟨⟨1⟩, none, 7, some "b", none, .none⟩ "second"]

theorem runs_isolated_mixed : ∃ saved run, load compactSerde [mixedFile] = .ok saved ∧
    saved.runs.filter (fun run => run.runId = some "first") = [run] ∧
    Loader.rejections saved.issues =
      (inputLines [mixedFile]).filterMap (InputLine.rejection compactSerde) := by
  have hs := compactSerde_lawful
  have hfirst : Rendered compactSerde "first" _ _ := .scope ⟨⟨1⟩, none, 5, some "a", none, .none⟩
  have hsecond : Rendered compactSerde "second" _ _ := .scope ⟨⟨1⟩, none, 7, some "b", none, .none⟩
  have hlines : (⟨some "run.jsonl", 1, renderScopeJsonl compactSerde
      ⟨⟨1⟩, none, 5, some "a", none, .none⟩ "first" ++ [newline]⟩ : InputLine) ∈
      inputLines [mixedFile] := by
    have hraw : rawLines (unlines [_, utf8 (.ofList ['\x7b']), _] ++ []) = _ := rawLines_unlines
      (List.forall_mem_cons.2 ⟨hfirst.newline_notMem hs, List.forall_mem_cons.2
        ⟨newline_notMem_utf8 (by decide), List.forall_mem_cons.2
          ⟨hsecond.newline_notMem hs, List.forall_mem_nil _⟩⟩⟩) []
    rw [List.append_nil] at hraw
    simp [inputLines, InputFile.lines, mixedFile, hraw]
  have hbelongs : belongs compactSerde "first" (renderScopeJsonl compactSerde
      ⟨⟨1⟩, none, 5, some "a", none, .none⟩ "first" ++ [newline]) = true := by
    have hc : classify compactSerde ([] ++ _ ++ [newline]) = _ :=
      hfirst.classify_line hs (by decide) (by simp) (by simp [newline]; rfl)
    rw [List.nil_append] at hc
    rw [belongs, hc]
    rfl
  obtain ⟨saved, hload, hruns, hrejections, -⟩ := runs_isolated hs [mixedFile]
  obtain ⟨run, hone, -⟩ := hruns "first" ⟨_, hlines, hbelongs⟩
  exact ⟨saved, run, hload, hone, hrejections⟩

end Eventline
