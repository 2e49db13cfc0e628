/-
  What a whole load does.

  Every accepted line goes to one run.  The log of a load (`trace`) says which,
  and the builder of a run is what its entries in the log make of an empty one.

  * `accept_ok`, `trace_ok`: the step and the run lemma for `Loader.WF` and the
    log (`Logged`).
  * `load_ok`: a load returns; its runs are the completed builders, and the
    lines it reports as rejected are those that are, in input order.
  * `scopesOf`, `recordsOf`: the contents of a run, by its entries.
-/
import Eventline.Replay.Loader

namespace Eventline

open Text Checked

/-- An accepted entry, and the run it went to. -/
structure Fed where
  source : Option String
  decoded : DecodedLine
  index : ℕ

/-- The builder after an entry. -/
def RunBuilder.feed (serde : SerdeJson) (b : RunBuilder) (parts : Parts) : Checked RunBuilder :=
  Prod.fst <$> b.merge serde parts

namespace Loader

/-- The run ids of the runs, in order. -/
def ids (l : Loader) : List (Option String) := l.runs.map (·.run.runId)

structure WF (l : Loader) : Prop where
  runs : ∀ b ∈ l.runs, b.WF ∧ b.run.missingScopeMetadata = []
  byId : l.byId = fun r => l.ids.findIdx? fun id => id = some r
  distinct : ∀ (i j : ℕ) r, l.ids[i]? = some (some r) → l.ids[j]? = some (some r) → i = j
  legacy : ∀ i, l.legacy = some i → l.ids[i]? = some none

theorem new_wf : new.WF := ⟨by simp [new], rfl, by simp [new, ids], by simp [new]⟩

/-- The issues about rejected lines. -/
def rejections (issues : List ReplayIssue) : List ReplayIssue :=
  issues.filter fun i => i.kind.isRejection

theorem rejections_append (xs ys : List ReplayIssue) :
    rejections (xs ++ ys) = rejections xs ++ rejections ys := List.filter_append ..

theorem rejections_of_not {issues : List ReplayIssue} (h : ∀ i ∈ issues, i.kind.isRejection = false) :
    rejections issues = [] := by
  rw [rejections, List.filter_eq_nil_iff]
  intro i hi
  simp [h i hi]

/-! ## The run of an entry -/

/-- A run chosen for an entry: one that is there, or a new one at the end. -/
structure Selected (l l' : Loader) (i : ℕ) (runId source : Option String) : Prop where
  wf : l'.WF
  id : l'.ids[i]? = some runId
  runs : l'.runs = l.runs ∨ l'.runs = l.runs ++ [.new runId source] ∧ i = l.runs.length
  headers : l'.headers = l.headers
  issues : rejections l'.issues = rejections l.issues

theorem ids_openRun (l : Loader) (runId source : Option String) :
    (l.openRun runId source).1.ids = l.ids ++ [runId] := by
  simp [ids, openRun, RunBuilder.new]

theorem runs_openRun {l : Loader} (h : l.WF) (runId source : Option String) :
    ∀ b ∈ (l.openRun runId source).1.runs, b.WF ∧ b.run.missingScopeMetadata = [] := by
  intro b hb
  rcases List.mem_append.1 hb with hb | hb
  · exact h.runs b hb
  · rw [List.mem_singleton.1 hb]
    exact ⟨RunBuilder.new_wf runId source, rfl⟩

theorem distinct_concat {ids : List (Option String)} {runId : Option String}
    (h : ∀ (i j : ℕ) r, ids[i]? = some (some r) → ids[j]? = some (some r) → i = j)
    (hnew : ∀ r, runId = some r → some r ∉ ids) :
    ∀ (i j : ℕ) r, (ids ++ [runId])[i]? = some (some r) → (ids ++ [runId])[j]? = some (some r) →
      i = j := by
  have hcases : ∀ (i : ℕ) r, (ids ++ [runId])[i]? = some (some r) →
      ids[i]? = some (some r) ∨ i = ids.length ∧ runId = some r := by
    intro i r hi
    rcases Nat.lt_or_ge i ids.length with hlt | hge
    · rw [List.getElem?_append_left hlt] at hi
      exact .inl hi
    · rw [List.getElem?_append_right hge] at hi
      have hz : i - ids.length = 0 := by
        by_contra hne
        rw [List.getElem?_eq_none (by simp; omega)] at hi
        cases hi
      rw [hz] at hi
      exact .inr ⟨by omega, by simpa using hi⟩
  intro i j r hi hj
  rcases hcases i r hi with hi | ⟨hi, hri⟩ <;> rcases hcases j r hj with hj | ⟨hj, hrj⟩
  · exact h i j r hi hj
  · exact absurd (List.mem_of_getElem? hi) (hnew r hrj)
  · exact absurd (List.mem_of_getElem? hj) (hnew r hri)
  · rw [hi, hj]

theorem ids_appended (l : Loader) (runId source : Option String) (byId : String → Option ℕ)
    (legacy : Option ℕ) :
    ({ l with runs := l.runs ++ [.new runId source], byId, legacy } : Loader).ids =
      l.ids ++ [runId] := ids_openRun l runId source

theorem getElem?_ids_appended (l : Loader) (runId : Option String) :
    (l.ids ++ [runId])[l.runs.length]? = some runId := by
  simp [ids]

theorem versionedRun_ok {l : Loader} (h : l.WF) (runId : String) (source : Option String) :
    Selected l (l.versionedRun runId source).1 (l.versionedRun runId source).2 (some runId) source := by
  have hby : l.byId runId = l.ids.findIdx? fun id => id = some runId := by rw [h.byId]
  cases hi : l.ids.findIdx? fun id => id = some runId with
  | some i =>
    obtain ⟨hlt, hp, -⟩ := List.findIdx?_eq_some_iff_getElem.1 hi
    have hrun : l.versionedRun runId source = ({ l with legacy := none }, i) := by
      rw [versionedRun, hby, hi]
    rw [hrun]
    refine ⟨⟨h.runs, h.byId, h.distinct, by simp⟩, ?_, .inl rfl, rfl, rfl⟩
    show l.ids[i]? = _
    rw [List.getElem?_eq_getElem hlt]
    simpa using hp
  | none =>
    have hno : some runId ∉ l.ids := by
      intro hm
      have := List.findIdx?_eq_none_iff.1 hi _ hm
      simp at this
    have hrun : l.versionedRun runId source =
        ({ l with
            runs := l.runs ++ [.new (some runId) source]
            byId := Function.update l.byId runId (some l.runs.length)
            legacy := none }, l.runs.length) := by
      rw [versionedRun, hby, hi]
      rfl
    rw [hrun]
    refine ⟨⟨runs_openRun h _ source, ?_, ?_, by simp⟩, ?_, .inr ⟨rfl, rfl⟩, rfl, rfl⟩
    · rw [ids_appended]
      show Function.update l.byId runId (some l.runs.length) = _
      rw [h.byId]
      funext r
      by_cases hr : r = runId
      · subst hr
        rw [Function.update_self, List.findIdx?_append, hi]
        simp [ids]
      · simp [List.findIdx?_append, Function.update_of_ne hr, Ne.symm hr]
    · rw [ids_appended]
      refine distinct_concat h.distinct ?_
      rintro r hr
      obtain rfl := Option.some.inj hr
      exact hno
    · rw [ids_appended]
      exact getElem?_ids_appended l _

theorem splitLegacy_ok {l : Loader} (h : l.WF) (source : Option String) (line : ℕ)
    (record : Option Record) :
    ∃ l', l.splitLegacy source line record = .ok l' ∧ l'.WF ∧ l'.runs = l.runs ∧
      l'.headers = l.headers ∧ rejections l'.issues = rejections l.issues := by
  unfold splitLegacy
  cases hl : l.legacy with
  | none => exact ⟨l, rfl, h, rfl, rfl, rfl⟩
  | some i =>
    cases record with
    | none => exact ⟨l, rfl, h, rfl, rfl, rfl⟩
    | some r =>
      have hid := h.legacy i hl
      rw [ids, List.getElem?_map, Option.map_eq_some_iff] at hid
      obtain ⟨b, hb, -⟩ := hid
      simp only [index_ok hb, ok_bind]
      by_cases hr : (b.records r.id).isSome
      · simp only [hr, if_true]
        refine ⟨_, rfl, ⟨h.runs, h.byId, h.distinct, by simp⟩, rfl, rfl, ?_⟩
        simp only [issue, rejections_append]
        have hnone : rejections [⟨source, some line, .inferredRunBoundary, repeatedLegacyMessage⟩] =
            [] := rejections_of_not (by simp [ReplayIssueKind.isRejection])
        rw [hnone, List.append_nil]
      · simp only [hr, Bool.false_eq_true, if_false]
        exact ⟨l, rfl, h, rfl, rfl, rfl⟩

theorem legacyRun_ok {l : Loader} (h : l.WF) (source : Option String) :
    Selected l (l.legacyRun source).1 (l.legacyRun source).2 none source := by
  cases hl : l.legacy with
  | some i =>
    have hrun : l.legacyRun source = (l, i) := by rw [legacyRun, hl]
    rw [hrun]
    exact ⟨h, h.legacy i hl, .inl rfl, rfl, rfl⟩
  | none =>
    have hrun : l.legacyRun source =
        ({ l with
            runs := l.runs ++ [.new none source]
            byId := l.byId
            legacy := some l.runs.length }, l.runs.length) := by
      rw [legacyRun, hl]
      rfl
    rw [hrun]
    refine ⟨⟨runs_openRun h _ source, ?_, ?_, ?_⟩, ?_, .inr ⟨rfl, rfl⟩, rfl, rfl⟩
    · rw [ids_appended]
      show l.byId = _
      rw [h.byId]
      funext r
      simp [List.findIdx?_append]
    · rw [ids_appended]
      exact distinct_concat h.distinct (by simp)
    · intro i hi
      rw [ids_appended, ← Option.some.inj hi]
      exact getElem?_ids_appended l _
    · rw [ids_appended]
      exact getElem?_ids_appended l _

theorem selectRun_ok {l : Loader} (h : l.WF) (source : Option String) (line : ℕ)
    (d : DecodedLine) :
    ∃ l' i, l.selectRun source line d = .ok (l', i) ∧ Selected l l' i d.runId source := by
  unfold selectRun
  cases d.runId with
  | some runId => exact ⟨_, _, rfl, versionedRun_ok h runId source⟩
  | none =>
    obtain ⟨l₁, h₁, hwf, hruns, hhd, hiss⟩ := splitLegacy_ok h source line d.parts.record
    obtain ⟨hwf', hid, hr, hh, hi⟩ := legacyRun_ok hwf source
    refine ⟨_, _, by simp only [h₁, ok_bind]; rfl, hwf', hid, ?_, hh.trans hhd, hi.trans hiss⟩
    rwa [hruns] at hr

/-! ## The log of a load -/

/-- `readRaw`, noting the run that an entry went to. -/
def traceRaw (serde : SerdeJson) (s : Loader × List Fed) (line : InputLine) :
    Checked (Loader × List Fed) :=
  match classify serde line.raw with
  | .entry d => do
    let (l, i) ← s.1.selectRun line.source line.number d
    let l ← l.mergeAt serde i line.source line.number d.parts
    pure (l, s.2 ++ [⟨line.source, d, i⟩])
  | _ => do
    let l ← s.1.readRaw serde line
    pure (l, s.2)

/-- The entries of the run at an index. -/
def fedTo (i : ℕ) (log : List Fed) : List Fed := log.filter fun e => e.index = i

/-- The builder that entries make of an empty run. -/
def built (serde : SerdeJson) (runId : Option String) (log : List Fed) : Checked RunBuilder :=
  log.foldlM (fun b e => b.feed serde e.decoded.parts) (.new runId (log.head?.bind (·.source)))

/-- The log of a loader: its entries are in runs of their id, every run has
    entries, and they make up its builder. -/
structure Logged (serde : SerdeJson) (l : Loader) (log : List Fed) : Prop where
  mem : ∀ e ∈ log, l.ids[e.index]? = some e.decoded.runId
  fed : ∀ i b, l.runs[i]? = some b → fedTo i log ≠ [] ∧
    built serde b.run.runId (fedTo i log) = .ok (b.withHeaders [])

theorem fedTo_concat (i : ℕ) (log : List Fed) (e : Fed) :
    fedTo i (log ++ [e]) = if e.index = i then fedTo i log ++ [e] else fedTo i log := by
  unfold fedTo
  rw [List.filter_append, List.filter_singleton]
  by_cases he : e.index = i <;> simp [he]

theorem built_concat {serde : SerdeJson} {runId : Option String} {log : List Fed} {e : Fed}
    (h : log ≠ []) : built serde runId (log ++ [e]) =
      built serde runId log >>= fun b => b.feed serde e.decoded.parts := by
  obtain ⟨x, xs, rfl⟩ := List.exists_cons_of_ne_nil h
  rw [built, List.foldlM_append, built]
  refine congrArg _ (funext fun b => ?_)
  rw [List.foldlM_cons]
  exact bind_pure _

theorem feed_ok {serde : SerdeJson} {b b' : RunBuilder} {parts : Parts}
    {conflicts : List (ReplayIssueKind × String)} (h : b.merge serde parts = .ok (b', conflicts)) :
    b.feed serde parts = .ok b' := by
  rw [RunBuilder.feed, h]
  rfl

/-- The headers that a run takes do not change what it is fed. -/
theorem feed_withHeaders {serde : SerdeJson} {b b' : RunBuilder} {hs hs' : List String}
    {parts : Parts} {conflicts : List (ReplayIssueKind × String)}
    (h : (b.withHeaders hs).merge serde parts = .ok (b', conflicts)) :
    (b.withHeaders hs').feed serde parts = .ok (b'.withHeaders hs') := by
  rw [RunBuilder.merge_withHeaders] at h
  rw [RunBuilder.feed, RunBuilder.merge_withHeaders]
  cases hm : b.merge serde parts with
  | error e => rw [hm] at h; cases h
  | ok r =>
    rw [hm] at h
    cases h
    rfl

/-- A run replaced by one of the same id. -/
theorem ids_set {l : Loader} {i : ℕ} {b b' : RunBuilder} (hb : l.runs[i]? = some b)
    (hid : b'.run.runId = b.run.runId) : (l.runs.set i b').map (·.run.runId) = l.ids := by
  obtain ⟨hlt, rfl⟩ := List.getElem?_eq_some_iff.1 hb
  rw [List.map_set, ids, hid]
  have hlt' : i < (l.runs.map (·.run.runId)).length := by simpa using hlt
  conv_rhs => rw [← List.set_getElem_self hlt']
  simp

section
variable {serde : SerdeJson} {l l₁ : Loader} {i : ℕ} {runId source : Option String} {log : List Fed}
  (hsel : Selected l l₁ i runId source) (hl : Logged serde l log)
include hsel hl

theorem Selected.mem_log : ∀ e ∈ log, l₁.ids[e.index]? = some e.decoded.runId := by
  intro e he
  have hold := hl.mem e he
  rcases hsel.runs with hr | ⟨hr, -⟩
  · rw [ids, hr]
    exact hold
  · rw [ids, hr, List.map_append]
    exact (List.getElem?_append_left (List.getElem?_eq_some_iff.1 hold).1).trans hold

/-- The runs after choosing one: as logged before, or just opened. -/
theorem Selected.fed {j : ℕ} {b : RunBuilder} (hb : l₁.runs[j]? = some b) :
    (fedTo j log ≠ [] ∧ built serde b.run.runId (fedTo j log) = .ok (b.withHeaders [])) ∨
      j = i ∧ fedTo j log = [] ∧ b = .new runId source := by
  rcases hsel.runs with hr | ⟨hr, hi⟩
  · rw [hr] at hb
    exact .inl (hl.fed j b hb)
  · rw [hr] at hb
    rcases Nat.lt_or_ge j l.runs.length with hlt | hge
    · rw [List.getElem?_append_left hlt] at hb
      exact .inl (hl.fed j b hb)
    · have hj : j = l.runs.length := by
        have := (List.getElem?_eq_some_iff.1 hb).1
        rw [List.length_append, List.length_singleton] at this
        omega
      rw [hj, List.getElem?_concat_length] at hb
      refine .inr ⟨hj.trans hi.symm, ?_, (Option.some.inj hb).symm⟩
      rw [fedTo, List.filter_eq_nil_iff]
      intro e he
      have hlt' := (List.getElem?_eq_some_iff.1 (hl.mem e he)).1
      simp only [ids, List.length_map] at hlt'
      simp only [decide_eq_true_eq]
      omega

end

/-- **Accepting an entry** keeps the invariant, adds the entry to the log, and
    reports no line as rejected. -/
theorem accept_ok {serde : SerdeJson} (hs : serde.Lawful) {l : Loader} {log : List Fed} (h : l.WF)
    (hl : Logged serde l log) (source : Option String) (line : ℕ) (d : DecodedLine) :
    ∃ l₁ i l', l.selectRun source line d = .ok (l₁, i) ∧
      l₁.mergeAt serde i source line d.parts = .ok l' ∧ l'.WF ∧
      Logged serde l' (log ++ [⟨source, d, i⟩]) ∧ rejections l'.issues = rejections l.issues := by
  obtain ⟨l₁, i, hrun, hsel⟩ := selectRun_ok h source line d
  obtain ⟨b, hb, hbid⟩ : ∃ b, l₁.runs[i]? = some b ∧ b.run.runId = d.runId := by
    have hid := hsel.id
    rw [ids, List.getElem?_map, Option.map_eq_some_iff] at hid
    exact hid
  have hlt := (List.getElem?_eq_some_iff.1 hb).1
  obtain ⟨hbwf, hbmiss⟩ := hsel.wf.runs b (List.mem_of_getElem? hb)
  obtain ⟨b', conflicts, hm, hwf', hrun', -, hconf⟩ := RunBuilder.merge_ok hs
    (hbwf.withHeaders (b.run.headers ++ l₁.headers)) d.parts
  have hid' : b'.run.runId = b.run.runId := by
    rw [hrun']
    rfl
  have hids := ids_set hb hid'
  refine ⟨l₁, i, _, hrun, by rw [mergeAt, index_ok hb, ok_bind, hm]; rfl, ⟨?_, ?_, ?_, ?_⟩,
    ⟨?_, ?_⟩, ?_⟩
  · intro x hx
    rcases List.mem_or_eq_of_mem_set hx with hx | rfl
    · exact hsel.wf.runs x hx
    · refine ⟨hwf', ?_⟩
      rw [hrun']
      exact hbmiss
  · simp only [ids, hids]
    exact hsel.wf.byId
  · simp only [ids, hids]
    exact hsel.wf.distinct
  · simp only [ids, hids]
    exact hsel.wf.legacy
  · intro e he
    simp only [ids, hids]
    rcases List.mem_append.1 he with he | he
    · exact hsel.mem_log hl e he
    · rw [List.mem_singleton.1 he]
      exact hsel.id
  · intro j x hx
    simp only at hx
    rw [fedTo_concat]
    by_cases hij : i = j
    · subst hij
      rw [List.getElem?_set_self hlt] at hx
      obtain rfl := Option.some.inj hx
      simp only [if_true]
      refine ⟨by simp, ?_⟩
      rw [hid']
      rcases hsel.fed hl hb with ⟨hne, hbuilt⟩ | ⟨-, hnil, hnew⟩
      · rw [built_concat hne, hbuilt, ok_bind]
        exact feed_withHeaders hm
      · have hbh : b = b.withHeaders [] := by rw [hnew]; rfl
        have hfeed : (b.withHeaders []).feed serde _ = _ := feed_withHeaders hm
        rw [← hbh, hnew] at hfeed
        rw [hnil, hnew]
        exact (bind_pure _).trans hfeed
    · rw [if_neg hij]
      rw [List.getElem?_set_ne hij] at hx
      exact (hsel.fed hl hx).resolve_right fun hnew => hij hnew.1.symm
  · simp only [rejections_append, hsel.issues]
    have hnone : rejections (conflicts.map fun c => ⟨source, some line, c.1, c.2⟩) = [] := by
      refine rejections_of_not ?_
      intro e he
      obtain ⟨c, hc, rfl⟩ := List.mem_map.1 he
      exact hconf c hc
    rw [hnone, List.append_nil]

end Loader

/-! ## Reading all lines -/

/-- The entry that a line is accepted as, and where it was read. -/
def InputLine.entry (serde : SerdeJson) (line : InputLine) : Option (Option String × DecodedLine) :=
  match classify serde line.raw with
  | .entry d => some (line.source, d)
  | _ => none

/-- The issue of a line that is rejected. -/
def InputLine.rejection (serde : SerdeJson) (line : InputLine) : Option ReplayIssue :=
  match classify serde line.raw with
  | .rejected reason => some ⟨line.source, some line.number, reason.1, reason.2⟩
  | _ => none

namespace Loader

/-- **Reading lines** keeps the invariant; the log takes the accepted entries
    and the issues take the rejected lines, in order. -/
theorem trace_ok {serde : SerdeJson} (hs : serde.Lawful) (lines : List InputLine) {l : Loader}
    {log : List Fed} (h : l.WF) (hl : Logged serde l log) :
    ∃ l' log', lines.foldlM (traceRaw serde) (l, log) = .ok (l', log') ∧
      lines.foldlM (readRaw serde) l = .ok l' ∧ l'.WF ∧ Logged serde l' log' ∧
      log'.map (fun e => (e.source, e.decoded)) =
        log.map (fun e => (e.source, e.decoded)) ++ lines.filterMap (InputLine.entry serde) ∧
      rejections l'.issues =
        rejections l.issues ++ lines.filterMap (InputLine.rejection serde) := by
  induction lines generalizing l log with
  | nil => exact ⟨l, log, rfl, rfl, h, hl, by simp, by simp⟩
  | cons line lines ih =>
    rw [List.foldlM_cons, List.foldlM_cons, traceRaw, readRaw_eq, List.filterMap_cons,
      List.filterMap_cons, InputLine.entry, InputLine.rejection]
    cases hc : classify serde line.raw with
    | blank => exact ih h hl
    | header text =>
      exact ih (l := { l with headers := l.headers ++ [text], legacy := none })
        ⟨h.runs, h.byId, h.distinct, by simp⟩ ⟨hl.mem, hl.fed⟩
    | rejected reason =>
      obtain ⟨l', log', ht, hr, hwf, hlog, hacc, hrej⟩ :=
        ih (l := l.issue line.source line.number reason.1 reason.2)
          ⟨h.runs, h.byId, h.distinct, h.legacy⟩ ⟨hl.mem, hl.fed⟩
      refine ⟨l', log', ht, hr, hwf, hlog, hacc, ?_⟩
      rw [hrej, issue, rejections_append]
      simp [rejections, classify_rejected hc]
    | entry d =>
      obtain ⟨l₁, i, l₂, hsel, hmerge, hwf, hlog, hiss⟩ :=
        accept_ok hs h hl line.source line.number d
      obtain ⟨l', log', ht, hr, hwf', hlog', hacc, hrej⟩ := ih hwf hlog
      refine ⟨l', log', ?_, ?_, hwf', hlog', ?_, by rw [hrej, hiss]⟩
      · simp only [hsel, hmerge, ok_bind]
        exact ht
      · simp only [accept, hsel, hmerge, ok_bind]
        exact hr
      · rw [hacc]
        simp

end Loader

/-! ## Completing the runs -/

/-- A run is the completed builder. -/
def Finishes (b : RunBuilder) (run : SavedRun) : Prop := ∃ issues, b.finish = .ok (run, issues)

theorem Finishes.runId {b : RunBuilder} {run : SavedRun} (h : b.WF) (hf : Finishes b run) :
    run.runId = b.run.runId := by
  obtain ⟨issues, hf⟩ := hf
  obtain ⟨run', issues', hok, hid, -⟩ := RunBuilder.finish_ok h
  rw [hok] at hf
  cases hf
  exact hid

/-- **Completing runs** returns one run for each.  Its issues are about missing
    scope metadata and about the hierarchy. -/
theorem finishRuns_ok {builders : List RunBuilder} (h : ∀ b ∈ builders, b.WF)
    (saved : SavedJournal) :
    ∃ runs issues, builders.foldlM Loader.finishRun saved =
        .ok ⟨saved.runs ++ runs, saved.issues ++ issues⟩ ∧
      List.Forall₂ Finishes builders runs ∧
      ∀ i ∈ issues, i.kind = .missingScopeMetadata ∨ i.kind = .invalidHierarchy := by
  induction builders generalizing saved with
  | nil => exact ⟨[], [], by simp, .nil, by simp⟩
  | cons b builders ih =>
    obtain ⟨run, issues, hf, -, -, -, -, -, -, hkinds, -⟩ := RunBuilder.finish_ok (h b (by simp))
    obtain ⟨runs, more, hrest, hall, hmore⟩ :=
      ih (fun b hb => h b (List.mem_cons_of_mem _ hb)) ⟨saved.runs ++ [run], saved.issues ++ issues⟩
    refine ⟨run :: runs, issues ++ more, ?_, .cons ⟨issues, hf⟩ hall, ?_⟩
    · rw [List.foldlM_cons, Loader.finishRun, hf]
      simp only [ok_bind, pure_eq_ok]
      rw [hrest]
      simp
    · intro i hi
      rcases List.mem_append.1 hi with hi | hi
      · exact hkinds i hi
      · exact hmore i hi

namespace Loader

theorem new_logged (serde : SerdeJson) : Logged serde new [] :=
  ⟨by simp, by simp [new]⟩

/-- The runs to complete, each with its entries of the log. -/
theorem allRuns_ok {serde : SerdeJson} {l : Loader} {log : List Fed} (h : l.WF)
    (hl : Logged serde l log) {i : ℕ} {b : RunBuilder} (hb : l.allRuns[i]? = some b) :
    b.WF ∧ b.run.missingScopeMetadata = [] ∧
      built serde b.run.runId (fedTo i log) = .ok (b.withHeaders []) ∧
      (fedTo i log = [] → b.run.runId = none) := by
  have hold : ∀ {b}, l.runs[i]? = some b → b.WF ∧ b.run.missingScopeMetadata = [] ∧
      built serde b.run.runId (fedTo i log) = .ok (b.withHeaders []) ∧
      (fedTo i log = [] → b.run.runId = none) := by
    intro b hb
    obtain ⟨hwf, hmiss⟩ := h.runs b (List.mem_of_getElem? hb)
    obtain ⟨hne, hbuilt⟩ := hl.fed i b hb
    exact ⟨hwf, hmiss, hbuilt, fun hnil => absurd hnil hne⟩
  unfold allRuns at hb
  split_ifs at hb
  · exact hold hb
  · rcases Nat.lt_or_ge i l.runs.length with hlt | hge
    · rw [List.getElem?_append_left hlt] at hb
      exact hold hb
    · -- the run of the headers at the end has no entries
      have hi : i = l.runs.length := by
        have := (List.getElem?_eq_some_iff.1 hb).1
        rw [List.length_append, List.length_singleton] at this
        omega
      rw [hi, List.getElem?_concat_length] at hb
      obtain rfl := Option.some.inj hb
      have hnil : fedTo i log = [] := by
        rw [fedTo, List.filter_eq_nil_iff]
        intro e he
        have hlt := (List.getElem?_eq_some_iff.1 (hl.mem e he)).1
        simp only [ids, List.length_map] at hlt
        simp only [decide_eq_true_eq]
        omega
      refine ⟨(RunBuilder.new_wf none none).withHeaders _, rfl, ?_, fun _ => rfl⟩
      rw [hnil]
      rfl

end Loader

/-- The log of a load. -/
def traceOf (serde : SerdeJson) (files : List InputFile) : Checked (List Fed) :=
  Prod.snd <$> (inputLines files).foldlM (Loader.traceRaw serde) (.new, [])

/-- What a load does: its log has the accepted entries in input order, its runs
    are completed builders of their entries in the log, versioned run ids are
    distinct, and the issues about rejected lines are those of the lines that are
    rejected. -/
structure Loaded (serde : SerdeJson) (files : List InputFile) (saved : SavedJournal)
    (log : List Fed) (builders : List RunBuilder) : Prop where
  load : load serde files = .ok saved
  trace : traceOf serde files = .ok log
  runs : List.Forall₂ Finishes builders saved.runs
  entries : log.map (fun e => (e.source, e.decoded)) =
    (inputLines files).filterMap (InputLine.entry serde)
  mem : ∀ e ∈ log, (builders.map (·.run.runId))[e.index]? = some e.decoded.runId
  built : ∀ i b, builders[i]? = some b → b.WF ∧ b.run.missingScopeMetadata = [] ∧
    Loader.built serde b.run.runId (Loader.fedTo i log) = .ok (b.withHeaders []) ∧
    (Loader.fedTo i log = [] → b.run.runId = none)
  distinct : ∀ (i j : ℕ) r, (builders.map (·.run.runId))[i]? = some (some r) →
    (builders.map (·.run.runId))[j]? = some (some r) → i = j
  rejections : Loader.rejections saved.issues =
    (inputLines files).filterMap (InputLine.rejection serde)

/-- **Every load returns.** -/
theorem load_ok {serde : SerdeJson} (hs : serde.Lawful) (files : List InputFile) :
    ∃ saved log builders, Loaded serde files saved log builders := by
  obtain ⟨l, log, htrace, hread, hwf, hlog, hacc, hrej⟩ :=
    Loader.trace_ok hs (inputLines files) Loader.new_wf (Loader.new_logged serde)
  have hall := fun i b => Loader.allRuns_ok (i := i) (b := b) hwf hlog
  have hmem : ∀ b ∈ l.allRuns, b.WF := by
    intro b hb
    obtain ⟨i, hi⟩ := List.mem_iff_getElem?.1 hb
    exact (hall i b hi).1
  obtain ⟨runs, issues, hfin, hruns, hkinds⟩ := finishRuns_ok hmem ⟨[], l.issues⟩
  have hnone : Loader.rejections issues = [] := by
    apply Loader.rejections_of_not
    intro i hi
    rcases hkinds i hi with hk | hk <;> rw [hk] <;> rfl
  have hids : l.allRuns.map (·.run.runId) = l.ids ∨
      l.allRuns.map (·.run.runId) = l.ids ++ [none] := by
    unfold Loader.allRuns
    split_ifs
    · exact .inl rfl
    · exact .inr (by simp [Loader.ids, RunBuilder.withHeaders, RunBuilder.new])
  refine ⟨⟨runs, l.issues ++ issues⟩, log, l.allRuns, ?_, ?_, hruns, by simpa using hacc, ?_, hall,
    ?_, ?_⟩
  · rw [Eventline.load, foldlM_read, hread, ok_bind, Loader.finish, hfin]
    rfl
  · rw [traceOf, htrace]
    rfl
  · intro e he
    have hid := hlog.mem e he
    rcases hids with h | h
    · rw [h]
      exact hid
    · rw [h]
      exact (List.getElem?_append_left (List.getElem?_eq_some_iff.1 hid).1).trans hid
  · rcases hids with h | h
    · rw [h]
      exact hwf.distinct
    · rw [h]
      exact Loader.distinct_concat hwf.distinct (by simp)
  · rw [Loader.rejections_append, hnone, List.append_nil, hrej]
    simp [Loader.new, Loader.rejections]

/-! ## The contents of a run -/

/-- The scopes that entries make, before placeholders and repair. -/
def scopesOf (entries : List Fed) : List Scope :=
  entries.foldl (fun l e => e.decoded.parts.scope.elim l (absorbScope l)) []

/-- The records that entries make. -/
def recordsOf (serde : SerdeJson) (entries : List Fed) : List Record :=
  entries.foldl (fun l e => e.decoded.parts.record.elim l (absorbRecord serde l)) []

/-- The builder of a run has the scopes and records that its entries make. -/
theorem built_contents {serde : SerdeJson} (hs : serde.Lawful) {runId : Option String}
    {entries : List Fed} {b : RunBuilder} (h : Loader.built serde runId entries = .ok b) :
    b.run.scopes = scopesOf entries ∧ b.run.records = recordsOf serde entries := by
  have hfold : ∀ (entries : List Fed) (b b' : RunBuilder), b.WF →
      entries.foldlM (fun b e => b.feed serde e.decoded.parts) b = .ok b' →
      b'.run.scopes = entries.foldl (fun l e => e.decoded.parts.scope.elim l (absorbScope l))
        b.run.scopes ∧
      b'.run.records = entries.foldl
        (fun l e => e.decoded.parts.record.elim l (absorbRecord serde l)) b.run.records := by
    intro entries
    induction entries with
    | nil =>
      intro b b' _ h
      obtain rfl := Except.ok.inj h
      exact ⟨rfl, rfl⟩
    | cons e entries ih =>
      intro b b' hwf h
      obtain ⟨b₁, conflicts, hm, hwf₁, hrun, -⟩ := RunBuilder.merge_ok hs hwf e.decoded.parts
      rw [List.foldlM_cons, Loader.feed_ok hm, ok_bind] at h
      obtain ⟨hscopes, hrecords⟩ := ih b₁ b' hwf₁ h
      rw [hscopes, hrecords, hrun]
      exact ⟨rfl, rfl⟩
  exact hfold entries _ b (RunBuilder.new_wf _ _) h

/-- The ids of the scopes that entries make are those that an entry carries. -/
theorem mem_scopesOf_ids {entries : List Fed} {id : ScopeId} :
    id ∈ (scopesOf entries).map (·.id) ↔
      ∃ e ∈ entries, ∃ s, e.decoded.parts.scope = some s ∧ s.id = id := by
  have hfold : ∀ (entries : List Fed) (l : List Scope),
      id ∈ (entries.foldl (fun l e => e.decoded.parts.scope.elim l (absorbScope l)) l).map (·.id) ↔
        id ∈ l.map (·.id) ∨ ∃ e ∈ entries, ∃ s, e.decoded.parts.scope = some s ∧ s.id = id := by
    intro entries
    induction entries with
    | nil => simp
    | cons e entries ih =>
      intro l
      rw [List.foldl_cons, ih]
      cases hp : e.decoded.parts.scope with
      | none => simp [hp]
      | some s =>
        rw [Option.elim_some, RunBuilder.mem_absorbScope_ids, List.exists_mem_cons_iff, hp, or_assoc]
        simp [eq_comm]
  rw [scopesOf, hfold]
  simp

end Eventline
