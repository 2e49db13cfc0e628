/-
  Outcomes of a loaded run (`scope_outcomes` of `replay.rs`,
  `SavedRun::unfinished_scopes` of `replay/load.rs`).

  * `scopeOutcomes_summarize`: one summary for each exit record, in record order,
    if every exit names a scope that is there.
  * `closedIn_scopesOf`: a scope is closed after a merge exactly when an accepted
    snapshot of it is.
  * `load_truthful`: no outcome of a load is made up, and none is hidden.
-/
import Eventline.Replay.Snapshot
import Eventline.Replay.Conflicts
import Eventline.Replay.Contents

namespace Eventline

open Text Checked

structure ScopeOutcome where
  scope : Scope
  outcome : Outcome
  durationNs : UInt64

def collectOutcomes (records : List Record) (scopes : ScopeId → Option Scope) :
    List ScopeOutcome :=
  records.filterMap fun record =>
    match record.kind with
    | .scopeExit outcome durationNs => do
      let scopeId ← record.scope
      let scope ← scopes scopeId
      some ⟨scope, outcome, durationNs⟩
    | .event .. => none

def scopeOutcomes (records : List Record) (scopes : List Scope) : List ScopeOutcome :=
  collectOutcomes records (indexScopes scopes)

/-- `matches!(record.kind, RecordKind::ScopeExit { .. })`. -/
def Record.isExit (record : Record) : Bool :=
  match record.kind with
  | .scopeExit .. => true
  | .event .. => false

/-- The scopes of the exit records. -/
def SavedRun.exited (run : SavedRun) : List ScopeId :=
  run.records.filterMap fun record => if record.isExit then record.scope else none

def SavedRun.unfinishedScopes (run : SavedRun) : List Scope :=
  run.scopes.filter fun scope => scope.exitedAt.isNone && scope.id ∉ run.exited

/-! ## Summaries -/

/-- A summary says what an exit record observed of its scope. -/
structure Summarizes (scopes : List Scope) (record : Record) (summary : ScopeOutcome) : Prop where
  kind : record.kind = .scopeExit summary.outcome summary.durationNs
  scope : record.scope = some summary.scope.id
  retained : summary.scope ∈ scopes

/-- **One summary for each exit record**, in record order. -/
theorem scopeOutcomes_summarize {records : List Record} {scopes : List Scope}
    (h : ∀ r ∈ records, r.isExit = true → ∃ id ∈ scopes.map (·.id), r.scope = some id) :
    List.Forall₂ (Summarizes scopes) (records.filter Record.isExit)
      (scopeOutcomes records scopes) := by
  unfold scopeOutcomes collectOutcomes
  induction records with
  | nil => exact .nil
  | cons r records ih =>
    obtain ⟨hr, hrest⟩ := List.forall_mem_cons.1 h
    rw [List.filter_cons, List.filterMap_cons]
    unfold Record.isExit at hr ⊢
    cases hkind : r.kind with
    | event kind name fields => exact ih hrest
    | scopeExit outcome durationNs =>
      rw [hkind] at hr
      obtain ⟨id, hid, hscope⟩ := hr rfl
      -- the index has the first scope of the id
      obtain ⟨s, hs⟩ : ∃ s, indexScopes scopes id = some s := by
        rw [indexScopes_eq, ← Option.isSome_iff_exists, List.find?_isSome]
        obtain ⟨s, hs, rfl⟩ := List.mem_map.1 hid
        exact ⟨s, hs, by simp⟩
      have hfind := hs
      rw [indexScopes_eq] at hfind
      have hsid : s.id = id := by simpa using List.find?_some hfind
      simp only [hscope, hs, Option.bind_eq_bind, Option.bind_some, if_true]
      exact .cons ⟨hkind, by rw [hscope, hsid], List.mem_of_find?_eq_some hfind⟩ (ih hrest)

theorem SavedRun.mem_unfinishedScopes {run : SavedRun} {s : Scope} :
    s ∈ run.unfinishedScopes ↔ s ∈ run.scopes ∧ s.exitedAt = none ∧
      ∀ r ∈ run.records, r.isExit = true → r.scope ≠ some s.id := by
  have hexited : s.id ∈ run.exited ↔ ∃ r ∈ run.records, r.isExit = true ∧ r.scope = some s.id := by
    simp [SavedRun.exited]
  simp only [unfinishedScopes, List.mem_filter, Bool.and_eq_true, Option.isNone_iff_eq_none,
    decide_eq_true_eq, hexited]
  grind

/-! ## Closed scopes -/

/-- A scope of the id is closed. -/
def ClosedIn (scopes : List Scope) (id : ScopeId) : Prop :=
  ∃ s ∈ scopes, s.id = id ∧ s.exitedAt ≠ none

/-- A snapshot closes a scope exactly when it was closed, or the snapshot is
    closed and does not conflict. -/
theorem closedIn_absorbScope {l : List Scope} (hnd : (l.map (·.id)).Nodup) {s : Scope}
    {id : ScopeId} : ClosedIn (absorbScope l s) id ↔ ClosedIn l id ∨
      (l.any fun x => x.id = s.id && x.conflicts s) = false ∧ s.id = id ∧ s.exitedAt ≠ none := by
  constructor
  · rintro ⟨x, hx, hid, hclosed⟩
    unfold absorbScope at hx
    split_ifs at hx with hany
    · rcases Slots.mem_updateFirst hx with hx | ⟨y, hy, hyid, rfl⟩
      · exact .inl ⟨x, hx, hid, hclosed⟩
      · have hyid : y.id = s.id := by simpa using hyid
        split_ifs at hid hclosed with hconf
        · exact .inl ⟨y, hy, hid, hclosed⟩
        · by_cases hyclosed : y.exitedAt = none
          · refine .inr ⟨?_, hyid.symm.trans hid, ?_⟩
            · -- ids are distinct, so the scope that does not conflict is the only one
              rw [List.any_eq_false]
              intro z hz hconf'
              obtain ⟨hzid, hzconf⟩ : z.id = s.id ∧ z.conflicts s = true := by simpa using hconf'
              obtain rfl := eq_of_id hnd hz hy (hzid.trans hyid.symm)
              exact hconf hzconf
            · simpa [Scope.merge, hyclosed] using hclosed
          · exact .inl ⟨y, hy, hid, hyclosed⟩
    · rcases List.mem_append.1 hx with hx | hx
      · exact .inl ⟨x, hx, hid, hclosed⟩
      · obtain rfl := List.mem_singleton.1 hx
        refine .inr ⟨?_, hid, hclosed⟩
        rw [List.any_eq_false]
        intro z hz hconf
        exact hany (List.any_eq_true.2 ⟨z, hz, (Bool.and_eq_true_iff.1 hconf).1⟩)
  · have hkept : ∀ {x y : Scope}, y.Extends x → x.id = id → x.exitedAt ≠ none →
        y.id = id ∧ y.exitedAt ≠ none := by
      intro x y hyx hid hclosed
      obtain ⟨t, ht⟩ := Option.ne_none_iff_exists'.1 hclosed
      exact ⟨hyx.1.trans hid, by simp [hyx.2.2.2.2 t ht]⟩
    rintro (⟨x, hx, hid, hclosed⟩ | ⟨hfree, hid, hclosed⟩)
    · obtain ⟨y, hy, hyx⟩ := absorbScope_keeps hx s
      exact ⟨y, hy, hkept hyx hid hclosed⟩
    · obtain ⟨y, hy, hys⟩ := absorbScope_adds hfree
      exact ⟨y, hy, hkept hys hid hclosed⟩

/-- The merge takes the snapshot without a conflict. -/
theorem accepts_iff {b : RunBuilder} (h : b.WF) (s : Scope) :
    (∃ b', b.addScope s = .ok (b', none)) ↔
      (b.run.scopes.any fun x => x.id = s.id && x.conflicts s) = false := by
  obtain ⟨b', hok, -⟩ := RunBuilder.addScope_ok h s
  rw [hok]
  constructor
  · rintro ⟨b'', heq⟩
    obtain ⟨-, hnone⟩ := Prod.mk.inj (Except.ok.inj heq)
    split_ifs at hnone with hany
    simpa using hany
  · intro hany
    rw [hany]
    exact ⟨b', rfl⟩

section
variable (serde : SerdeJson) (runId : Option String)

/-- The merge accepted the snapshot: an entry brought it, and the builder of the
    entries before took it without a conflict. -/
def AcceptedSnapshot (entries : List Fed) (s : Scope) : Prop :=
  ∃ pre e post b b', entries = pre ++ e :: post ∧ e.decoded.parts.scope = some s ∧
    Loader.built serde runId pre = .ok b ∧ b.addScope s = .ok (b', none)

end

section
variable {serde : SerdeJson} (hs : serde.Lawful) (runId : Option String)
include hs

theorem built_ok (entries : List Fed) : ∃ b, Loader.built serde runId entries = .ok b ∧ b.WF := by
  have hfold : ∀ (entries : List Fed) (b : RunBuilder), b.WF →
      ∃ b', entries.foldlM (fun b e => b.feed serde e.decoded.parts) b = .ok b' ∧ b'.WF := by
    intro entries
    induction entries with
    | nil => exact fun b h => ⟨b, rfl, h⟩
    | cons e entries ih =>
      intro b h
      obtain ⟨b₁, conflicts, hm, hwf, -⟩ := RunBuilder.merge_ok hs h e.decoded.parts
      rw [List.foldlM_cons, Loader.feed_ok hm, ok_bind]
      exact ih b₁ hwf
  exact hfold entries _ (RunBuilder.new_wf _ _)

theorem acceptedSnapshot_concat (entries : List Fed) (e : Fed) (s : Scope) :
    AcceptedSnapshot serde runId (entries ++ [e]) s ↔ AcceptedSnapshot serde runId entries s ∨
      e.decoded.parts.scope = some s ∧
        ((scopesOf entries).any fun x => x.id = s.id && x.conflicts s) = false := by
  constructor
  · rintro ⟨pre, e', post, b, b', hsplit, hscope, hbuilt, hadd⟩
    rcases List.eq_nil_or_concat post with rfl | ⟨post, x, rfl⟩
    · obtain ⟨rfl, hlast⟩ := List.append_inj' hsplit rfl
      obtain rfl := List.singleton_inj.1 hlast
      obtain ⟨b₁, hb₁, hwf⟩ := built_ok hs runId entries
      obtain rfl := Except.ok.inj (hb₁.symm.trans hbuilt)
      have hfree := (accepts_iff hwf s).1 ⟨b', hadd⟩
      rw [(built_contents hs hbuilt).1] at hfree
      exact .inr ⟨hscope, hfree⟩
    · rw [List.concat_eq_append, ← List.cons_append, ← List.append_assoc] at hsplit
      obtain ⟨rfl, -⟩ := List.append_inj' hsplit rfl
      exact .inl ⟨pre, e', post, b, b', rfl, hscope, hbuilt, hadd⟩
  · rintro (⟨pre, e', post, b, b', rfl, hscope, hbuilt, hadd⟩ | ⟨hscope, hfree⟩)
    · exact ⟨pre, e', post ++ [e], b, b', by simp, hscope, hbuilt, hadd⟩
    · obtain ⟨b, hbuilt, hwf⟩ := built_ok hs runId entries
      rw [← (built_contents hs hbuilt).1] at hfree
      obtain ⟨b', hadd⟩ := (accepts_iff hwf s).2 hfree
      exact ⟨entries, e, [], b, b', rfl, hscope, hbuilt, hadd⟩

theorem scopesOf_nodup (entries : List Fed) : ((scopesOf entries).map (·.id)).Nodup := by
  obtain ⟨b, hbuilt, hwf⟩ := built_ok hs none entries
  rw [← (built_contents hs hbuilt).1]
  exact hwf.nodup

/-- **A scope is closed by the merge** exactly when an accepted snapshot of it is
    closed. -/
theorem closedIn_scopesOf {entries : List Fed} {id : ScopeId} : ClosedIn (scopesOf entries) id ↔
    ∃ s, AcceptedSnapshot serde runId entries s ∧ s.id = id ∧ s.exitedAt ≠ none := by
  induction entries using List.reverseRecOn with
  | nil =>
    constructor
    · rintro ⟨s, hmem, -⟩
      cases hmem
    · rintro ⟨s, ⟨pre, e, post, b, b', hsplit, -⟩, -⟩
      simp at hsplit
  | append_singleton entries e ih =>
    have hconcat : scopesOf (entries ++ [e]) =
        e.decoded.parts.scope.elim (scopesOf entries) (absorbScope (scopesOf entries)) := by
      rw [scopesOf, List.foldl_append]
      rfl
    simp only [acceptedSnapshot_concat hs]
    rw [hconcat]
    cases hscope : e.decoded.parts.scope with
    | none => simpa using ih
    | some t =>
      rw [Option.elim_some, closedIn_absorbScope (scopesOf_nodup hs entries), ih]
      constructor
      · rintro (⟨s, hacc, hclosed⟩ | ⟨hfree, hclosed⟩)
        · exact ⟨s, .inl hacc, hclosed⟩
        · exact ⟨t, .inr ⟨rfl, hfree⟩, hclosed⟩
      · rintro ⟨s, hacc | ⟨heq, hfree⟩, hclosed⟩
        · exact .inl ⟨s, hacc, hclosed⟩
        · obtain rfl := Option.some.inj heq
          exact .inr ⟨hfree, hclosed⟩

end

/-! ## Loading -/

/-- What a run says about outcomes: there is one summary for each exit record, in
    record order, every record is decoded from a line of the run, and a scope is
    unfinished exactly when no exit record and no accepted snapshot closes it. -/
structure Truthful (serde : SerdeJson) (files : List InputFile) (entries : List Fed)
    (run : SavedRun) : Prop where
  distinct : (run.scopes.map (·.id)).Nodup
  outcomes : List.Forall₂ (Summarizes run.scopes) (run.records.filter Record.isExit)
    (scopeOutcomes run.records run.scopes)
  decoded : ∀ r ∈ run.records, ∃ e ∈ entries, e.decoded.runId = run.runId ∧
    e.decoded.parts.record = some r ∧
    ∃ line ∈ inputLines files, classify serde line.raw = .entry e.decoded
  unfinished : ∀ s, s ∈ run.unfinishedScopes ↔ s ∈ run.scopes ∧
    (∀ r ∈ run.records, r.isExit = true → r.scope ≠ some s.id) ∧
    ∀ t, AcceptedSnapshot serde run.runId entries t → t.id = s.id → t.exitedAt = none

/-- A cut link closes no scope. -/
theorem CutList.closedIn {old new : List Scope} (h : CutList old new) (id : ScopeId) :
    ClosedIn new id ↔ ClosedIn old id := by
  induction h with
  | nil => rfl
  | cons hc _ ih =>
    unfold ClosedIn at ih ⊢
    rw [List.exists_mem_cons_iff, List.exists_mem_cons_iff, ih]
    rcases hc with rfl | rfl <;> rfl

/-- A scope of a completed run is closed exactly when the merge closed it:
    placeholders are open, and the repair of cycles leaves exits alone. -/
theorem Complete.closed_iff {serde : SerdeJson} {entries : List Fed} {run : SavedRun}
    (h : Complete serde entries run) {s : Scope} (hmem : s ∈ run.scopes) :
    s.exitedAt ≠ none ↔ ClosedIn (scopesOf entries) s.id := by
  have hself : s.exitedAt ≠ none ↔ ClosedIn run.scopes s.id := by
    constructor
    · exact fun hclosed => ⟨s, hmem, rfl, hclosed⟩
    · rintro ⟨t, ht, hid, hclosed⟩
      rwa [eq_of_id h.distinct ht hmem hid] at hclosed
  rw [hself, h.retainedScopes.closedIn]
  constructor
  · rintro ⟨t, ht, hid, hclosed⟩
    rcases List.mem_append.1 ht with ht | ht
    · exact ⟨t, ht, hid, hclosed⟩
    · obtain ⟨id, -, rfl⟩ := List.mem_map.1 ht
      exact absurd rfl hclosed
  · rintro ⟨t, ht, hid, hclosed⟩
    exact ⟨t, List.mem_append_left _ ht, hid, hclosed⟩

section
variable {serde : SerdeJson} (hs : serde.Lawful)
include hs

/-- **No load makes up an outcome, and none hides one.** -/
theorem load_truthful (files : List InputFile) : ∃ saved log, load serde files = .ok saved ∧
    traceOf serde files = .ok log ∧ ∀ i run, saved.runs[i]? = some run →
      Truthful serde files (Loader.fedTo i log) run := by
  obtain ⟨saved, log, builders, hl⟩ := load_ok hs files
  obtain ⟨saved', log', hload', htrace', hcomplete⟩ := load_complete hs files
  obtain rfl := Except.ok.inj (hl.load.symm.trans hload')
  obtain rfl := Except.ok.inj (hl.trace.symm.trans htrace')
  refine ⟨saved, log, hload', htrace', ?_⟩
  intro i run hrun
  have hc := hcomplete i run hrun
  -- the entries of the run have its id, and are lines of the input
  have hentry : ∀ e ∈ Loader.fedTo i log, e.decoded.runId = run.runId ∧
      ∃ line ∈ inputLines files, classify serde line.raw = .entry e.decoded := by
    intro e he
    obtain ⟨hlog, hi⟩ := List.mem_filter.1 he
    have hindex := hl.mem e hlog
    rw [← hl.run_ids, List.getElem?_map, of_decide_eq_true hi, hrun] at hindex
    exact ⟨(Option.some.inj hindex).symm, (hl.mem_log_iff _).1 ⟨e, hlog, rfl⟩⟩
  have hdecoded : ∀ r ∈ run.records, ∃ e ∈ Loader.fedTo i log, e.decoded.runId = run.runId ∧
      e.decoded.parts.record = some r ∧
      ∃ line ∈ inputLines files, classify serde line.raw = .entry e.decoded := by
    intro r hr
    rw [hc.retainedRecords] at hr
    obtain ⟨e, he, hcarries⟩ := exists_of_mem_recordsOf hr
    obtain ⟨hid, hline⟩ := hentry e he
    exact ⟨e, he, hid, hcarries, hline⟩
  refine ⟨hc.distinct, scopeOutcomes_summarize ?_, hdecoded, ?_⟩
  · -- an exit names a scope, and placeholders stand for the missing ones
    intro r hr hexit
    obtain ⟨e, -, -, hcarries, line, -, hclass⟩ := hdecoded r hr
    have hpaired := decodeLine_paired (classify_entry hclass) hcarries
    have hkind : ∃ outcome d, r.kind = .scopeExit outcome d := by
      unfold Record.isExit at hexit
      split at hexit
      · rename_i outcome d hk
        exact ⟨outcome, d, hk⟩
      · cases hexit
    obtain ⟨id, hid⟩ := Option.ne_none_iff_exists'.1 (hpaired.1 hkind)
    exact ⟨id, hc.records r hr id hid, hid⟩
  · intro s
    rw [SavedRun.mem_unfinishedScopes, and_congr_right_iff]
    intro hmem
    rw [and_comm, and_congr_right_iff]
    intro _
    rw [← not_iff_not, ← ne_eq, hc.closed_iff hmem, closedIn_scopesOf hs run.runId]
    push Not
    rfl

end

/-- A file where a scope exits, and a late snapshot of it is still open. -/
def lateFile : InputFile where
  source := some "run.jsonl"
  bytes := renderJsonlInRun compactSerde ⟨⟨0⟩, some ⟨1⟩, 9, .scopeExit .failure 4⟩ none "run" ++
    newline :: renderScopeJsonl compactSerde ⟨⟨1⟩, none, 5, some "job", none, .none⟩ "run"

theorem load_truthful_late : ∃ saved log, load compactSerde [lateFile] = .ok saved ∧
    traceOf compactSerde [lateFile] = .ok log ∧ ∀ i run, saved.runs[i]? = some run →
      Truthful compactSerde [lateFile] (Loader.fedTo i log) run :=
  load_truthful compactSerde_lawful [lateFile]

end Eventline
