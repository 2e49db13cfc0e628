/-
  Loading a log again after it has grown.

  A reader that follows a file loads it while it is being written, perhaps in the
  middle of a line, and loads it again later.

  * `Complete.extends`: a run of more entries has what the run had, and no more
    unfinished scopes among them.
  * `traceRaw_log`: reading on only adds to the log of entries and to the issues.
  * `reload_extends`: the later load extends the earlier one, run by run; this
    holds for any input, damaged and legacy input included.
-/
import Eventline.Replay.Cycles
import Eventline.Replay.Outcomes
import Eventline.Replay.Report

namespace Eventline

open Text Checked Slots

/-! ## More entries -/

/-- A fold that only appends. -/
theorem foldl_isPrefix {α β γ : Type} {f : β → α → β} {g : β → List γ}
    (h : ∀ b a, g b <+: g (f b a)) (as : List α) (b : β) : g b <+: g (as.foldl f b) := by
  induction as generalizing b with
  | nil => exact List.prefix_refl _
  | cons a as ih => exact (h b a).trans (ih _)

/-- A fold that cannot tell related elements apart. -/
theorem foldlM_of_forall₂ {α σ : Type} {R : α → α → Prop} {f : σ → α → Checked σ}
    (h : ∀ s a b, R a b → f s b = f s a) {as bs : List α} (hab : List.Forall₂ R as bs) (s : σ) :
    bs.foldlM f s = as.foldlM f s := by
  induction hab generalizing s with
  | nil => rfl
  | cons ha _ ih =>
    rw [List.foldlM_cons, List.foldlM_cons, h s _ _ ha]
    exact congrArg _ (funext ih)

theorem absorbRecord_isPrefix (serde : SerdeJson) (l : List Record) (r : Record) :
    l <+: absorbRecord serde l r := by
  unfold absorbRecord
  split_ifs
  · exact List.prefix_refl _
  · exact List.prefix_append _ _

theorem absorbScope_ids_isPrefix (l : List Scope) (s : Scope) :
    l.map (·.id) <+: (absorbScope l s).map (·.id) := by
  unfold absorbScope
  split_ifs
  · have hids := map_updateFirst_of_eq (p := fun x : Scope => x.id = s.id)
      (f := fun x => if x.conflicts s then x else x.merge s) (e := Scope.id)
      (by intro x; split_ifs <;> rfl) l
    rw [hids]
  · rw [List.map_append]
    exact List.prefix_append _ _

theorem recordsOf_isPrefix (serde : SerdeJson) (es more : List Fed) :
    recordsOf serde es <+: recordsOf serde (es ++ more) := by
  rw [recordsOf, recordsOf, List.foldl_append]
  refine foldl_isPrefix (g := id) ?_ more _
  intro l e
  cases e.decoded.parts.record with
  | none => exact List.prefix_refl _
  | some r => exact absorbRecord_isPrefix serde l r

theorem scopesOf_ids_isPrefix (es more : List Fed) :
    (scopesOf es).map (·.id) <+: (scopesOf (es ++ more)).map (·.id) := by
  rw [scopesOf, scopesOf, List.foldl_append]
  refine foldl_isPrefix (g := List.map Scope.id) ?_ more _
  intro l e
  cases e.decoded.parts.scope with
  | none => exact List.prefix_refl _
  | some s => exact absorbScope_ids_isPrefix l s

/-- A scope keeps its identity and its exit. -/
theorem scopesOf_keeps (es more : List Fed) {x : Scope} (hx : x ∈ scopesOf es) :
    ∃ y ∈ scopesOf (es ++ more), y.Extends x := by
  induction more using List.reverseRecOn with
  | nil =>
    rw [List.append_nil]
    exact ⟨x, hx, .refl x⟩
  | append_singleton more e ih =>
    obtain ⟨y, hy, hyx⟩ := ih
    rw [← List.append_assoc, scopesOf, List.foldl_append]
    show ∃ y ∈ e.decoded.parts.scope.elim (scopesOf (es ++ more)) (absorbScope _), y.Extends x
    cases e.decoded.parts.scope with
    | none => exact ⟨y, hy, hyx⟩
    | some s =>
      obtain ⟨z, hz, hzy⟩ := absorbScope_keeps hy s
      exact ⟨z, hz, hzy.trans hyx⟩

/-! ## A run of more entries -/

/-- The scopes whose metadata has survived, in the order of the run. -/
def SavedRun.knownIds (run : SavedRun) : List ScopeId :=
  (run.scopes.map (·.id)).filter fun id => id ∉ run.missingScopeMetadata

/-- What the exit records of a run say. -/
def SavedRun.outcomes (run : SavedRun) : List (ScopeId × Outcome × UInt64) :=
  (scopeOutcomes run.records run.scopes).map fun o => (o.scope.id, o.outcome, o.durationNs)

/-- The later run has what the run has: records and known scopes go on, scopes
    keep their identity and their exit, and what was finished is finished.  Before
    cycles were cut, a scope had the same parent in both. -/
structure SavedRun.Extends (later run : SavedRun) : Prop where
  runId : later.runId = run.runId
  records : run.records <+: later.records
  outcomes : run.outcomes <+: later.outcomes
  known : run.knownIds <+: later.knownIds
  scopes : ∀ x ∈ run.scopes, ∃ y ∈ later.scopes, y.id = x.id ∧
    (x.id ∉ run.missingScopeMetadata → y.enteredAt = x.enteredAt ∧ y.name = x.name ∧
      (y.parent = x.parent ∨ x.parent = none ∨ y.parent = none) ∧
      ∀ t, x.exitedAt = some t → y.exitedAt = some t)
  links : ∃ gathered gathered', run.MendedFrom gathered ∧ later.MendedFrom gathered' ∧
    ∀ x ∈ gathered, x.id ∉ run.missingScopeMetadata → ∃ y ∈ gathered', y.id = x.id ∧
      y.parent = x.parent
  finished : ∀ x ∈ run.scopes, ∀ y ∈ later.unfinishedScopes, y.id = x.id → x ∈ run.unfinishedScopes

section
variable {serde : SerdeJson} {es more : List Fed} {run later : SavedRun}

/-- The outcomes are what the exit records observed. -/
theorem Complete.outcomes_eq (h : Complete serde es run) :
    run.outcomes = run.records.filterMap RunBuilder.exitOf := by
  have hfound : ∀ r ∈ run.records, ∀ id, r.scope = some id →
      ∃ x, indexScopes run.scopes id = some x ∧ x.id = id := by
    intro r hr id hid
    obtain ⟨x, hx⟩ : ∃ x, (run.scopes.find? fun s => s.id = id) = some x := by
      rw [← Option.isSome_iff_exists, List.find?_isSome]
      obtain ⟨s, hs, hsid⟩ := List.mem_map.1 (h.records r hr id hid)
      exact ⟨s, hs, by simpa using hsid⟩
    exact ⟨x, by rw [indexScopes_eq, hx], by simpa using List.find?_some hx⟩
  rw [SavedRun.outcomes, scopeOutcomes, collectOutcomes, List.map_filterMap]
  refine List.filterMap_congr ?_
  intro r hr
  obtain ⟨id, scope, timeNs, kind⟩ := r
  cases kind with
  | event kind message fields => rfl
  | scopeExit outcome d =>
    cases scope with
    | none => rfl
    | some sid =>
      obtain ⟨x, hx, hxid⟩ := hfound _ hr sid rfl
      simp [hx, hxid, RunBuilder.exitOf]

/-- The known scopes are those of the entries. -/
theorem Complete.knownIds_eq (h : Complete serde es run) :
    run.knownIds = (scopesOf es).map (·.id) := by
  have hknown : ∀ id ∈ (scopesOf es).map (·.id), id ∉ run.missingScopeMetadata := by
    intro id hid hmissing
    exact ((h.missing id).1 hmissing).2 (mem_scopesOf_ids.1 hid)
  have hids : (run.missingScopeMetadata.map placeholder).map (·.id) = run.missingScopeMetadata := by
    rw [List.map_map]
    exact List.map_id _
  rw [SavedRun.knownIds, h.retainedScopes.ids, List.map_append, hids, List.filter_append,
    List.filter_eq_self.2 (by simpa using hknown)]
  simp

/-- A scope that has exited is known. -/
theorem Complete.known_of_exited (h : Complete serde es run) {x : Scope} (hx : x ∈ run.scopes)
    (hexited : x.exitedAt ≠ none) : x.id ∉ run.missingScopeMetadata := by
  intro hmissing
  obtain ⟨o, ho, hox⟩ := h.retainedScopes.mem hx
  rcases List.mem_append.1 ho with ho | ho
  · refine ((h.missing x.id).1 hmissing).2 (mem_scopesOf_ids.1 ?_)
    rw [hox.id_eq]
    exact List.mem_map_of_mem ho
  · obtain ⟨id, -, rfl⟩ := List.mem_map.1 ho
    rcases hox with rfl | rfl <;> exact hexited rfl

/-- A run with anything in it has entries. -/
theorem Complete.entries_ne (h : Complete serde es run)
    (hcontent : run.records ≠ [] ∨ run.scopes ≠ []) : es ≠ [] := by
  rintro rfl
  have hrecords : run.records = [] := h.retainedRecords
  have hmissing : run.missingScopeMetadata = [] := by
    rw [List.eq_nil_iff_forall_not_mem]
    intro id hid
    have hneeded := ((h.missing id).1 hid).1
    rw [hrecords] at hneeded
    cases hneeded
  have hscopes := h.retainedScopes
  rw [hmissing] at hscopes
  have hnil : run.scopes = [] := List.forall₂_nil_left_iff.1 hscopes
  exact hcontent.elim (fun hne => hne hrecords) fun hne => hne hnil

/-- What is gathered from the entries of a run, mended, is the run. -/
def SavedRun.MendedOf (run : SavedRun) (es : List Fed) : Prop :=
  run.MendedFrom (scopesOf es ++ run.missingScopeMetadata.map placeholder)

/-- **More entries** extend a run. -/
theorem Complete.extends (h : Complete serde es run) (h' : Complete serde (es ++ more) later)
    (hmended : run.MendedOf es) (hmended' : later.MendedOf (es ++ more))
    (hid : later.runId = run.runId) : later.Extends run := by
  have hrecords : run.records <+: later.records := by
    rw [h.retainedRecords, h'.retainedRecords]
    exact recordsOf_isPrefix serde es more
  have hneeded : ∀ id, id ∈ run.missingScopeMetadata → id ∈ later.scopes.map (·.id) := by
    intro id hmissing
    rcases List.mem_append.1 ((h.missing id).1 hmissing).1 with hparent | hrecord
    · -- the parent of a scope that is still there
      obtain ⟨x, hx, hxp⟩ := List.mem_filterMap.1 hparent
      obtain ⟨y, hy, -, hyp, -⟩ := scopesOf_keeps es more hx
      by_cases hcarried : ∃ e ∈ es ++ more, ∃ s, e.decoded.parts.scope = some s ∧ s.id = id
      · rw [h'.retainedScopes.ids, List.map_append]
        exact List.mem_append_left _ (mem_scopesOf_ids.2 hcarried)
      · have hmem : id ∈ later.missingScopeMetadata := (h'.missing id).2
          ⟨List.mem_append_left _ (List.mem_filterMap.2 ⟨y, hy, hyp.trans hxp⟩), hcarried⟩
        rw [h'.retainedScopes.ids, List.map_append]
        exact List.mem_append_right _ (List.mem_map.2 ⟨_, List.mem_map_of_mem hmem, rfl⟩)
    · obtain ⟨r, hr, hrid⟩ := List.mem_filterMap.1 hrecord
      exact h'.records r (hrecords.subset hr) id hrid
  have hknown : ∀ x ∈ run.scopes, x.id ∉ run.missingScopeMetadata → ∃ y ∈ later.scopes,
      y.id = x.id ∧ y.enteredAt = x.enteredAt ∧ y.name = x.name ∧
      (y.parent = x.parent ∨ x.parent = none ∨ y.parent = none) ∧
      ∀ t, x.exitedAt = some t → y.exitedAt = some t := by
    intro x hx hxknown
    obtain ⟨o, ho, hox⟩ := h.retainedScopes.mem hx
    have ho : o ∈ scopesOf es := by
      rcases List.mem_append.1 ho with ho | ho
      · exact ho
      · obtain ⟨id, hid, rfl⟩ := List.mem_map.1 ho
        exact absurd (hox.id_eq ▸ hid) hxknown
    obtain ⟨o', ho', hid, hparent, hentered, hname, hexit⟩ := scopesOf_keeps es more ho
    obtain ⟨y, hy, hoy⟩ := forall₂_mem_right h'.retainedScopes.flip (List.mem_append_left _ ho')
    have hoy : CutFrom o' y := hoy
    refine ⟨y, hy, hoy.id_eq.trans (hid.trans hox.id_eq.symm), ?_⟩
    -- only parent links may be cut
    rcases hox with rfl | rfl
    · rcases hoy with rfl | rfl
      · exact ⟨hentered, hname, .inl hparent, hexit⟩
      · exact ⟨hentered, hname, .inr (.inr rfl), hexit⟩
    · rcases hoy with rfl | rfl
      · exact ⟨hentered, hname, .inr (.inl rfl), hexit⟩
      · exact ⟨hentered, hname, .inl rfl, hexit⟩
  constructor
  · exact hid
  · exact hrecords
  · rw [h.outcomes_eq, h'.outcomes_eq]
    exact hrecords.filterMap _
  · rw [h.knownIds_eq, h'.knownIds_eq]
    exact scopesOf_ids_isPrefix es more
  · intro x hx
    by_cases hmissing : x.id ∈ run.missingScopeMetadata
    · obtain ⟨y, hy, hyx⟩ := List.mem_map.1 (hneeded x.id hmissing)
      exact ⟨y, hy, hyx, fun hno => absurd hmissing hno⟩
    · obtain ⟨y, hy, hyx, hrest⟩ := hknown x hx hmissing
      exact ⟨y, hy, hyx, fun _ => hrest⟩
  · refine ⟨_, _, hmended, hmended', ?_⟩
    intro x hx hxknown
    rcases List.mem_append.1 hx with hx | hx
    · obtain ⟨y, hy, hyx, hparent, -⟩ := scopesOf_keeps es more hx
      exact ⟨y, List.mem_append_left _ hy, hyx, hparent⟩
    · obtain ⟨id, hmissing, rfl⟩ := List.mem_map.1 hx
      exact absurd hmissing hxknown
  · intro x hx y hy hyx
    obtain ⟨hylater, hyopen, hynone⟩ := SavedRun.mem_unfinishedScopes.1 hy
    refine SavedRun.mem_unfinishedScopes.2 ⟨hx, ?_, ?_⟩
    · by_contra hexited
      obtain ⟨t, ht⟩ := Option.ne_none_iff_exists'.1 hexited
      obtain ⟨z, hz, hzx, -, -, -, hkeeps⟩ := hknown x hx (h.known_of_exited hx hexited)
      obtain rfl := List.inj_on_of_nodup_map h'.distinct hz hylater (hzx.trans hyx.symm)
      rw [hkeeps t ht] at hyopen
      cases hyopen
    · intro r hr hexit hrx
      exact hynone r (hrecords.subset hr) hexit (by rw [hrx, hyx])

end

/-! ## Reading on -/

/-- The line is blank or rejected. -/
def Idle (serde : SerdeJson) (raw : Bytes) : Prop :=
  classify serde raw = .blank ∨ ∃ reason, classify serde raw = .rejected reason

/-- The lines are at one place, and are read as one text. -/
structure InputLine.SameText (line line' : InputLine) : Prop where
  source : line'.source = line.source
  number : line'.number = line.number
  text : trimAscii line'.raw = trimAscii line.raw

theorem InputLine.SameText.refl (line : InputLine) : line.SameText line := ⟨rfl, rfl, rfl⟩

section
variable {serde : SerdeJson}

theorem InputLine.SameText.classify_eq {line line' : InputLine} (h : line.SameText line') :
    classify serde line'.raw = classify serde line.raw := by
  rw [classify, classify, h.text]

theorem InputLine.SameText.traceRaw {line line' : InputLine} (h : line.SameText line')
    (s : Loader × List Fed) : Loader.traceRaw serde s line' = Loader.traceRaw serde s line := by
  rw [Loader.traceRaw, Loader.traceRaw, Loader.readRaw_eq, Loader.readRaw_eq, h.classify_eq,
    h.source, h.number]

/-- **Reading a line** adds to the log and to the issues. -/
theorem traceRaw_adds {s s' : Loader × List Fed} {line : InputLine}
    (h : Loader.traceRaw serde s line = .ok s') : s.2 <+: s'.2 ∧ s.1.issues <+: s'.1.issues := by
  rw [Loader.traceRaw, Loader.readRaw_eq] at h
  cases hc : classify serde line.raw with
  | blank =>
    rw [hc] at h
    obtain rfl := Except.ok.inj h
    exact ⟨List.prefix_refl _, List.prefix_refl _⟩
  | header text =>
    rw [hc] at h
    obtain rfl := Except.ok.inj h
    exact ⟨List.prefix_refl _, List.prefix_refl _⟩
  | rejected reason =>
    rw [hc] at h
    obtain rfl := Except.ok.inj h
    exact ⟨List.prefix_refl _, List.prefix_append _ _⟩
  | entry d =>
    rw [hc] at h
    obtain ⟨⟨l₁, i⟩, hsel, h⟩ := bind_eq_ok.1 h
    obtain ⟨l₂, hmerge, h⟩ := bind_eq_ok.1 h
    obtain rfl := Except.ok.inj h
    refine ⟨List.prefix_append _ _, ?_⟩
    obtain ⟨added, hadded, -⟩ := Loader.selectRun_issues hsel
    obtain ⟨b, -, hmerge⟩ := bind_eq_ok.1 hmerge
    obtain ⟨⟨b', conflicts⟩, -, hmerge⟩ := bind_eq_ok.1 hmerge
    obtain rfl := Except.ok.inj hmerge
    show s.1.issues <+: l₁.issues ++ _
    rw [hadded, List.append_assoc]
    exact List.prefix_append _ _

theorem foldlM_adds {lines : List InputLine} {s s' : Loader × List Fed}
    (h : lines.foldlM (Loader.traceRaw serde) s = .ok s') :
    s.2 <+: s'.2 ∧ s.1.issues <+: s'.1.issues := by
  induction lines generalizing s with
  | nil =>
    obtain rfl := Except.ok.inj h
    exact ⟨List.prefix_refl _, List.prefix_refl _⟩
  | cons line lines ih =>
    rw [List.foldlM_cons] at h
    obtain ⟨s₁, hline, h⟩ := bind_eq_ok.1 h
    obtain ⟨hlog, hissues⟩ := traceRaw_adds hline
    obtain ⟨hlog', hissues'⟩ := ih h
    exact ⟨hlog.trans hlog', hissues.trans hissues'⟩

/-- **Idle lines** add no entry, and are reported if they are rejected. -/
theorem foldlM_idle {lines : List InputLine} (hidle : ∀ line ∈ lines, Idle serde line.raw)
    (s : Loader × List Fed) :
    ∃ l, lines.foldlM (Loader.traceRaw serde) s = .ok (l, s.2) ∧
      l.issues = s.1.issues ++ lines.filterMap (InputLine.rejection serde) := by
  induction lines generalizing s with
  | nil => exact ⟨s.1, rfl, by simp⟩
  | cons line lines ih =>
    obtain ⟨hline, hlines⟩ := List.forall_mem_cons.1 hidle
    rw [List.foldlM_cons, Loader.traceRaw, Loader.readRaw_eq, List.filterMap_cons,
      InputLine.rejection]
    rcases hline with hc | ⟨reason, hc⟩
    · obtain ⟨l, hfold, hissues⟩ := ih hlines s
      rw [hc]
      exact ⟨l, hfold, hissues⟩
    · obtain ⟨l, hfold, hissues⟩ := ih hlines
        (s.1.issue line.source line.number reason.1 reason.2, s.2)
      rw [hc]
      refine ⟨l, hfold, ?_⟩
      rw [hissues]
      simp [Loader.issue]

end

/-! ## Loading -/

/-- Lines of a file, numbered from `n`. -/
def linesAt (source : Option String) (n : ℕ) (raws : List Bytes) : List InputLine :=
  (raws.zipIdx n).map fun l => ⟨source, l.2, l.1⟩

theorem linesAt_nil (source : Option String) (n : ℕ) : linesAt source n [] = [] := rfl

theorem linesAt_cons (source : Option String) (n : ℕ) (raw : Bytes) (raws : List Bytes) :
    linesAt source n (raw :: raws) = ⟨source, n, raw⟩ :: linesAt source (n + 1) raws := rfl

theorem inputLines_nil : inputLines [] = [] := rfl

/-- The later load has all that the load has: the runs with anything in them, and
    the issues, apart from those of completing runs and of the given lines. -/
structure SavedJournal.Extends (later saved : SavedJournal) (serde : SerdeJson)
    (torn : List InputLine) : Prop where
  runs : ∀ (i : ℕ) run, saved.runs[i]? = some run → run.records ≠ [] ∨ run.scopes ≠ [] →
    ∃ run', later.runs[i]? = some run' ∧ run'.Extends run
  issues : ∀ x ∈ saved.issues, x ∈ later.issues ∨ x.kind = .missingScopeMetadata ∨
    x.kind = .invalidHierarchy ∨ x ∈ torn.filterMap (InputLine.rejection serde)

section
variable {serde : SerdeJson} (hs : serde.Lawful)
include hs

/-- A load, with the loader that has read the input. -/
theorem load_reads (files : List InputFile) : ∃ saved l log builders,
    Loaded serde files saved log builders ∧
    (inputLines files).foldlM (Loader.traceRaw serde) (.new, []) = .ok (l, log) ∧
    ∃ completed, saved.issues = l.issues ++ completed ∧
      ∀ x ∈ completed, x.kind = .missingScopeMetadata ∨ x.kind = .invalidHierarchy := by
  obtain ⟨saved, log, builders, hloaded⟩ := load_ok hs files
  obtain ⟨l, log', htrace, hread, hwf, hlogged, -⟩ := Loader.trace_ok hs (inputLines files)
    Loader.new_wf (Loader.new_logged serde)
  obtain rfl : log' = log := by
    have hlog := hloaded.trace
    rw [traceOf, htrace] at hlog
    exact Except.ok.inj hlog
  have hall : ∀ b ∈ l.allRuns, b.WF := by
    intro b hb
    obtain ⟨i, hi⟩ := List.mem_iff_getElem?.1 hb
    exact (Loader.allRuns_ok hwf hlogged hi).1
  obtain ⟨runs, completed, hfinish, -, hkinds⟩ := finishRuns_ok hall ⟨[], l.issues⟩
  refine ⟨saved, l, log', builders, hloaded, htrace, completed, ?_, hkinds⟩
  have hload := hloaded.load
  rw [load, foldlM_read, hread, ok_bind, Loader.finish, hfinish] at hload
  rw [← Except.ok.inj hload]

omit hs in
theorem Loaded.builder {files : List InputFile} {saved : SavedJournal} {log : List Fed}
    {builders : List RunBuilder} (h : Loaded serde files saved log builders) {i : ℕ} {run : SavedRun}
    (hrun : saved.runs[i]? = some run) : ∃ b, builders[i]? = some b ∧ Finishes b run := by
  obtain ⟨hlt, rfl⟩ := List.getElem?_eq_some_iff.1 hrun
  have hlt' : i < builders.length := by rw [h.runs.length_eq]; exact hlt
  exact ⟨builders[i], List.getElem?_eq_getElem hlt', h.runs.get hlt' hlt⟩

/-- The runs of a load are complete. -/
theorem Loaded.complete {files : List InputFile} {saved : SavedJournal} {log : List Fed}
    {builders : List RunBuilder} (h : Loaded serde files saved log builders) {i : ℕ} {run : SavedRun}
    (hrun : saved.runs[i]? = some run) : Complete serde (Loader.fedTo i log) run ∧
      run.MendedOf (Loader.fedTo i log) ∧
      (builders.map (·.run.runId))[i]? = some run.runId := by
  obtain ⟨b, hb, hf⟩ := h.builder hrun
  obtain ⟨hwf, hmissing, hbuilt, -⟩ := h.built i b hb
  obtain ⟨hscopes, hrecords⟩ := built_contents hs hbuilt
  have hscopes : b.run.scopes = scopesOf (Loader.fedTo i log) := hscopes
  refine ⟨finishes_complete hwf hmissing hscopes hrecords hf, ?_, ?_⟩
  · rw [SavedRun.MendedOf, ← hscopes]
    exact finishes_mended hwf hmissing hf
  · rw [List.getElem?_map, hb, hf.runId hwf]
    rfl

/-- **The later load extends the earlier one**, when it reads the same lines
    first and what the earlier one read beyond them was idle. -/
theorem load_extends {files files' : List InputFile} {read read' torn more : List InputLine}
    (hfiles : inputLines files = read ++ torn) (hfiles' : inputLines files' = read' ++ more)
    (hsame : List.Forall₂ InputLine.SameText read read')
    (hidle : ∀ line ∈ torn, Idle serde line.raw) : ∃ saved later,
      load serde files = .ok saved ∧ load serde files' = .ok later ∧
      later.Extends saved serde torn := by
  obtain ⟨saved, l, log, builders, hloaded, htrace, completed, hissues, hkinds⟩ :=
    load_reads hs files
  obtain ⟨later, l', log', builders', hloaded', htrace', completed', hissues', -⟩ :=
    load_reads hs files'
  refine ⟨saved, later, hloaded.load, hloaded'.load, ?_⟩
  -- both loads go through the state after the lines they share
  rw [hfiles, List.foldlM_append] at htrace
  obtain ⟨s, hread, htorn⟩ := bind_eq_ok.1 htrace
  obtain ⟨l₁, htorn', htornIssues⟩ := foldlM_idle hidle s
  obtain ⟨rfl, rfl⟩ := Prod.mk.inj (Except.ok.inj (htorn.symm.trans htorn'))
  rw [hfiles', List.foldlM_append, foldlM_of_forall₂ (fun s _ _ h => h.traceRaw s) hsame, hread,
    ok_bind] at htrace'
  obtain ⟨⟨extra, rfl⟩, hmoreIssues⟩ := foldlM_adds htrace'
  constructor
  · intro i run hrun hcontent
    obtain ⟨hcomplete, hmended, hid⟩ := hloaded.complete hs hrun
    obtain ⟨e, he⟩ := List.exists_mem_of_ne_nil _ (hcomplete.entries_ne hcontent)
    obtain ⟨hmem, hindex⟩ := List.mem_filter.1 he
    obtain rfl : e.index = i := by simpa using hindex
    -- the entry is in the run of the index, before and after
    have hold := (hloaded.mem e hmem).symm.trans hid
    have hnew := hloaded'.mem e (List.mem_append_left _ hmem)
    obtain ⟨run', hrun'⟩ : ∃ run', later.runs[e.index]? = some run' := by
      obtain ⟨hlt, -⟩ := List.getElem?_eq_some_iff.1 hnew
      rw [List.length_map, hloaded'.runs.length_eq] at hlt
      exact ⟨_, List.getElem?_eq_getElem hlt⟩
    obtain ⟨hcomplete', hmended', hid'⟩ := hloaded'.complete hs hrun'
    rw [Loader.fedTo, List.filter_append] at hcomplete' hmended'
    refine ⟨run', hrun', hcomplete.extends hcomplete' hmended hmended' ?_⟩
    exact (Option.some.inj (hid'.symm.trans hnew)).trans (Option.some.inj hold)
  · intro x hx
    rw [hissues, htornIssues] at hx
    rcases List.mem_append.1 hx with hx | hx
    · rcases List.mem_append.1 hx with hx | hx
      · left
        rw [hissues']
        exact List.mem_append_left _ (hmoreIssues.subset hx)
      · exact .inr (.inr (.inr hx))
    · rcases hkinds x hx with hx | hx
      · exact .inr (.inl hx)
      · exact .inr (.inr (.inl hx))

omit hs in
theorem lines_append {source : Option String} {complete : Bytes}
    (hcomplete : complete = [] ∨ complete.getLast? = some newline) (rest : Bytes) :
    InputFile.lines ⟨source, complete ++ rest⟩ = InputFile.lines ⟨source, complete⟩ ++
      linesAt source ((rawLines complete).length + 1) (rawLines rest) := by
  rw [InputFile.lines, InputFile.lines, rawLines_append hcomplete, List.zipIdx_append,
    List.map_append, Nat.add_comm, linesAt]

/-- **A log that has grown** is loaded with all that was there before.  The first
    load sees a file of the input up to any byte, and nothing of the files after it;
    `tail` is what it sees of the last line, which it cannot read unless all that
    is missing is its end.  The second load sees any input that starts like this:
    every run goes on, what was shown stays, what was finished is finished, and
    what was reported is reported, the unreadable end and scopes that were still
    missing apart. -/
theorem reload_extends (before after : List InputFile) (source : Option String)
    (complete tail more : Bytes) (hcomplete : complete = [] ∨ complete.getLast? = some newline)
    (htail : newline ∉ tail) (hcut : Idle serde tail ∨ more.head? = some newline) :
    ∃ saved later, load serde (before ++ [⟨source, complete ++ tail⟩]) = .ok saved ∧
      load serde (before ++ ⟨source, complete ++ (tail ++ more)⟩ :: after) = .ok later ∧
      later.Extends saved serde [⟨source, (rawLines complete).length + 1, tail⟩] := by
  have hfiles : ∀ last rest, inputLines (before ++ ⟨source, complete ++ last⟩ :: rest) =
      (inputLines before ++ InputFile.lines ⟨source, complete⟩) ++
        (linesAt source ((rawLines complete).length + 1) (rawLines last) ++ inputLines rest) := by
    intro last rest
    rw [inputLines, List.flatMap_append, List.flatMap_cons, lines_append hcomplete]
    simp [inputLines]
  have hsame : List.Forall₂ InputLine.SameText
      (inputLines before ++ InputFile.lines ⟨source, complete⟩)
      (inputLines before ++ InputFile.lines ⟨source, complete⟩) :=
    List.forall₂_same.2 fun line _ => .refl line
  have hfirst := hfiles tail []
  rw [inputLines_nil, List.append_nil] at hfirst
  by_cases hidle : Idle serde tail
  · have htorn : ∀ line ∈ linesAt source ((rawLines complete).length + 1) (rawLines tail),
        line = ⟨source, (rawLines complete).length + 1, tail⟩ := by
      intro line hline
      cases tail with
      | nil => cases hline
      | cons b tail =>
        rw [rawLines_last htail (List.cons_ne_nil b tail)] at hline
        exact List.mem_singleton.1 hline
    obtain ⟨saved, later, hload, hload', hextends⟩ := load_extends hs hfirst
      (hfiles (tail ++ more) after) hsame (fun line hline => by rw [htorn line hline]; exact hidle)
    refine ⟨saved, later, hload, hload', hextends.runs, ?_⟩
    intro x hx
    refine (hextends.issues x hx).imp_right (Or.imp_right (Or.imp_right ?_))
    intro h
    obtain ⟨line, hline, hx⟩ := List.mem_filterMap.1 h
    rw [htorn line hline] at hx
    exact List.mem_filterMap.2 ⟨_, List.mem_singleton_self _, hx⟩
  · -- the line is there but for its end
    obtain ⟨rest, rfl⟩ : ∃ rest, more = newline :: rest := by
      cases more with
      | nil => exact absurd (hcut.resolve_left hidle) (by simp)
      | cons b rest => exact ⟨rest, by rw [Option.some.inj (hcut.resolve_left hidle)]⟩
    have hne : tail ≠ [] := by
      rintro rfl
      exact hidle (.inl rfl)
    have hended : InputLine.SameText ⟨source, (rawLines complete).length + 1, tail⟩
        ⟨source, (rawLines complete).length + 1, tail ++ [newline]⟩ :=
      ⟨rfl, rfl, trimAscii_newline tail⟩
    have hmore : inputLines (before ++ ⟨source, complete ++ (tail ++ newline :: rest)⟩ :: after) =
        ((inputLines before ++ InputFile.lines ⟨source, complete⟩) ++
          [⟨source, (rawLines complete).length + 1, tail ++ [newline]⟩]) ++
        (linesAt source ((rawLines complete).length + 2) (rawLines rest) ++ inputLines after) := by
      rw [hfiles, rawLines_line htail, linesAt_cons, List.append_assoc _ [_]]
      rfl
    rw [rawLines_last htail hne, linesAt_cons, linesAt_nil] at hfirst
    obtain ⟨saved, later, hload, hload', hextends⟩ := load_extends hs
      (hfirst.trans (List.append_nil _).symm) hmore
      (List.rel_append hsame (.cons hended .nil)) (List.forall_mem_nil _)
    refine ⟨saved, later, hload, hload', hextends.runs, ?_⟩
    intro x hx
    refine (hextends.issues x hx).imp_right (Or.imp_right (Or.imp_right ?_))
    intro h
    cases h

end

/-- A reader that comes in the middle of a line, and again when there are more. -/
theorem reload_extends_torn : ∃ saved later,
    load compactSerde [⟨some "run.jsonl", renderJsonlInRun compactSerde startedRecord none "run" ++
      [newline] ++ [123]⟩] = .ok saved ∧
    load compactSerde [⟨some "run.jsonl", renderJsonlInRun compactSerde startedRecord none "run" ++
      [newline] ++ ([123] ++ [125, newline])⟩] = .ok later ∧
    ∀ (i : ℕ) run, saved.runs[i]? = some run → run.records ≠ [] →
      ∃ run', later.runs[i]? = some run' ∧ run.records <+: run'.records := by
  have htorn : Idle compactSerde [123] := .inr ⟨_, rfl⟩
  obtain ⟨saved, later, hload, hload', hextends⟩ := reload_extends compactSerde_lawful [] []
    (some "run.jsonl") (renderJsonlInRun compactSerde startedRecord none "run" ++ [newline]) [123]
    [125, newline] (.inr (by simp)) (by decide) (.inl htorn)
  refine ⟨saved, later, hload, hload', ?_⟩
  intro i run hrun hrecords
  obtain ⟨run', hrun', hmore⟩ := hextends.runs i run hrun (.inl hrecords)
  exact ⟨run', hrun', hmore.records⟩

end Eventline
