/-
  What the queries of `replay.rs` say about a live run when entries are lost.

  * `PostMortem`: no outcome is made up, no scope has two, and a scope is
    unfinished exactly if nothing that is left says that it ended.
  * `post_mortem_truthful`: this holds of what is left of the entries of a run,
    and of a complete input exactly the open scopes are unfinished.
-/
import Eventline.Lib.TopK
import Eventline.Runtime.Recovery

namespace Eventline

open Text Checked Slots

def failedScopes (records : List Record) (scopes : List Scope) : List ScopeOutcome :=
  (scopeOutcomes records scopes).filter fun summary => summary.outcome = .failure

def slowestScopes (records : List Record) (scopes : List Scope) (limit : ℕ) : List ScopeOutcome :=
  TopK.largest (fun summary => summary.durationNs.toNat) limit (scopeOutcomes records scopes)

/-! ## Exits -/

theorem isExit_eq_true {r : Record} :
    r.isExit = true ↔ ∃ outcome durationNs, r.kind = .scopeExit outcome durationNs := by
  unfold Record.isExit
  cases r.kind <;> simp

theorem isExit_iff {r : Record} {id : ScopeId} : r.isExit = true ∧ r.scope = some id ↔
    ∃ o, RunBuilder.exitOf r = some (id, o) := by
  unfold Record.isExit RunBuilder.exitOf
  cases r.kind with
  | event kind name fields => simp
  | scopeExit outcome durationNs => cases r.scope <;> simp

theorem Summarizes.exitOf {scopes : List Scope} {r : Record} {o : ScopeOutcome}
    (h : Summarizes scopes r o) : RunBuilder.exitOf r = some (o.scope.id, o.outcome, o.durationNs) := by
  rw [RunBuilder.exitOf, h.kind, h.scope]

/-- Related elements are as different. -/
theorem forall₂_pairwise {α β : Type} {R : α → β → Prop} {P : α → α → Prop} {Q : β → β → Prop}
    (hPQ : ∀ a b a' b', R a a' → R b b' → P a b → Q a' b') {l : List α} {l' : List β}
    (h : List.Forall₂ R l l') (hl : l.Pairwise P) : l'.Pairwise Q := by
  induction h with
  | nil => exact .nil
  | cons hab hrest ih =>
    obtain ⟨ha, hl⟩ := List.pairwise_cons.1 hl
    refine List.pairwise_cons.2 ⟨?_, ih hl⟩
    intro b' hb'
    obtain ⟨b, hb, hbb'⟩ := forall₂_mem_right hrest hb'
    exact hPQ _ _ _ _ hab hbb' (ha b hb)

/-! ## The queries -/

/-- What the queries say about a run, of which the lines are left. -/
structure PostMortem (r : Runtime) (lines : List RunLine) (run : SavedRun) : Prop where
  /-- an outcome is that of an exit of the process -/
  outcomes : ∀ o ∈ scopeOutcomes run.records run.scopes, ∃ x ∈ r.pushed,
    x ∈ run.records ∧ Summarizes run.scopes x o ∧ ∃ l ∈ r.lives, l.exited.isSome ∧
      l.scope.id = o.scope.id ∧ (l.Shows o.scope ∨ o.scope = placeholder o.scope.id)
  /-- no scope has two -/
  once : ((scopeOutcomes run.records run.scopes).map (·.scope.id)).Nodup
  /-- the failures that are left are reported -/
  failed : ∀ id, (∃ o ∈ failedScopes run.records run.scopes, o.scope.id = id) ↔
    ∃ x ∈ run.records, (∃ durationNs, x.kind = .scopeExit .failure durationNs) ∧ x.scope = some id
  slowest : ∀ limit, TopK.Selects (fun o => o.durationNs.toNat) limit
    (scopeOutcomes run.records run.scopes) (slowestScopes run.records run.scopes limit)
  /-- a scope is unfinished if nothing that is left says that it ended -/
  unfinished : ∀ x ∈ run.scopes, x ∈ run.unfinishedScopes ↔
    (∀ y ∈ recordsIn lines, y.isExit = true → y.scope ≠ some x.id) ∧
      ∀ y ∈ scopesIn lines, y.id = x.id → y.exitedAt = none
  /-- and so is every scope that is open -/
  opened : ∀ l ∈ r.lives, l.exited = none → ∀ x ∈ run.scopes, x.id = l.scope.id →
    x ∈ run.unfinishedScopes

section
variable {s : Process} (h : Chronicle s) {serde : SerdeJson} {lines : List RunLine}
  (hwritten : ∀ line ∈ lines, line.parts ∈ s.runtime.asRead serde) {run : SavedRun}
  (hrun : Recovered s.runtime.lives lines run)
include h hwritten hrun

/-- The records of the run are those of the process, as they are read. -/
theorem Chronicle.recovered_record {x : Record} (hx : x ∈ run.records) :
    x ∈ s.runtime.pushed.map (Record.reread serde) := by
  have ht : AllTold s.runtime.lives (s.runtime.pushed.map (Record.reread serde)) lines :=
    fun line hline => h.told serde (hwritten line hline)
  exact ht.recordsIn (hrun.mem_records.1 hx)

/-- An exit has no doubles. -/
theorem Chronicle.recovered_pushed {x : Record} (hx : x ∈ run.records) (hexit : x.isExit = true) :
    x ∈ s.runtime.pushed := by
  obtain ⟨r, hr, rfl⟩ := List.mem_map.1 (h.recovered_record hwritten hrun hx)
  obtain ⟨outcome, durationNs, hkind⟩ := isExit_eq_true.1 hexit
  have hkind : r.kind = .scopeExit outcome durationNs := (RecordKind.mapDoubles_eq_scopeExit _).1 hkind
  have hsame : r.reread serde = r := Record.mapDoubles_of_exit serde.reread hkind
  rwa [hsame]

/-- An exit names a scope of the run. -/
theorem Chronicle.recovered_exit {x : Record} (hx : x ∈ run.records) (hexit : x.isExit = true) :
    ∃ id ∈ run.scopes.map (·.id), x.scope = some id := by
  have hin := hrun.mem_records.1 hx
  obtain ⟨line, hline, hrecord⟩ := List.mem_filterMap.1 hin
  obtain ⟨p, hp, hparts⟩ := List.mem_map.1 (hwritten line hline)
  rw [← hparts] at hrecord
  obtain ⟨r, hr, rfl⟩ := Option.map_eq_some_iff.1 hrecord
  have hpaired := (h.handed.paired p r (.inl hp) hr).mapDoubles serde.reread
  obtain ⟨id, hid⟩ : ∃ id, r.scope = some id :=
    Option.ne_none_iff_exists'.1 (hpaired.1 (isExit_eq_true.1 hexit))
  refine ⟨id, ?_, hid⟩
  rw [hrun.ids, List.mem_append, List.mem_eraseDups]
  by_cases hscope : id ∈ (scopesIn lines).map (·.id)
  · exact .inl hscope
  · exact .inr ((hrun.missing id).2 ⟨hscope, .inr ⟨_, hin, hid⟩⟩)

/-- The scope of an exit has ended. -/
theorem Chronicle.exited_of_exit {x : Record} (hx : x ∈ run.records) {id : ScopeId}
    (hexit : x.isExit = true) (hid : x.scope = some id) :
    ∃ l ∈ s.runtime.lives, l.scope.id = id ∧ l.exited.isSome := by
  obtain ⟨o, ho⟩ := isExit_iff.1 ⟨hexit, hid⟩
  exact h.numbered.exited x (h.recovered_pushed hwritten hrun hx hexit) id o ho

theorem Chronicle.summaries : List.Forall₂ (Summarizes run.scopes)
    (run.records.filter Record.isExit) (scopeOutcomes run.records run.scopes) :=
  scopeOutcomes_summarize fun _ hx hexit => h.recovered_exit hwritten hrun hx hexit

omit h hwritten in
/-- A scope that is unfinished: nothing that is left says that it ended. -/
theorem Recovered.unfinished_iff {x : Scope} (hx : x ∈ run.scopes) : x ∈ run.unfinishedScopes ↔
    (∀ y ∈ recordsIn lines, y.isExit = true → y.scope ≠ some x.id) ∧
      ∀ y ∈ scopesIn lines, y.id = x.id → y.exitedAt = none := by
  have hclosed := hrun.closed x hx
  simp only [SavedRun.mem_unfinishedScopes, hx, true_and, hrun.mem_records]
  rw [and_comm]
  refine and_congr_right fun _ => ?_
  constructor
  · intro hopen y hy hid
    by_contra hne
    exact hclosed.2 ⟨y, hy, hid, hne⟩ hopen
  · intro hall
    by_contra hne
    obtain ⟨y, hy, hid, hyne⟩ := hclosed.1 hne
    exact hyne (hall y hy hid)

/-- **A scope that is open is unfinished**, whatever is left. -/
theorem Chronicle.unfinished_of_open {l : Life} (hl : l ∈ s.runtime.lives) (hopen : l.exited = none)
    {x : Scope} (hx : x ∈ run.scopes) (hid : x.id = l.scope.id) : x ∈ run.unfinishedScopes := by
  have hlife : ∀ l' ∈ s.runtime.lives, l'.scope.id = x.id → l'.exited = none := by
    intro l' hl' hid'
    obtain rfl := h.tracked.life_unique hl' hl (hid'.trans hid)
    exact hopen
  rw [hrun.unfinished_iff hx]
  constructor
  · intro y hy hexit hscope
    obtain ⟨l', hl', hid', hexited⟩ := h.exited_of_exit hwritten hrun (hrun.mem_records.2 hy) hexit
      hscope
    rw [hlife l' hl' hid'] at hexited
    cases hexited
  · intro y hy hyid
    obtain ⟨line, hline, hscope⟩ := List.mem_filterMap.1 hy
    obtain ⟨l', hl', hshows⟩ := (h.told serde (hwritten line hline)).scope y hscope
    exact hshows.exitedAt_none (hlife l' hl' (hshows.id.symm.trans hyid))

theorem Chronicle.postMortem : PostMortem s.runtime lines run := by
  have hsummaries := h.summaries hwritten hrun
  constructor
  · intro o ho
    obtain ⟨x, hx, hsum⟩ := forall₂_mem_right hsummaries ho
    obtain ⟨hx, hexit⟩ := List.mem_filter.1 hx
    obtain ⟨l, hl, hid, hexited⟩ := h.exited_of_exit hwritten hrun hx hexit hsum.scope
    refine ⟨x, h.recovered_pushed hwritten hrun hx hexit, hx, hsum, l, hl, hexited, hid, ?_⟩
    by_cases hmissing : o.scope.id ∈ run.missingScopeMetadata
    · exact .inr (hrun.placeholders _ hsum.retained hmissing)
    · obtain ⟨l', hl', hshows⟩ := hrun.shows _ hsum.retained hmissing
      obtain rfl := h.tracked.life_unique hl' hl (hshows.id.symm.trans hid.symm)
      exact .inl hshows
  · -- two exits of one scope are one record
    have hnodup : (run.records.filter Record.isExit).Nodup := by
      rw [hrun.records]
      exact (nodup_eraseDups _).filter _
    rw [List.Nodup, List.pairwise_map]
    refine forall₂_pairwise (P := fun x y => x ∈ run.records ∧ y ∈ run.records ∧ x ≠ y) ?_
      hsummaries ?_
    · rintro x y o o' hxo hyo ⟨hx, hy, hne⟩ hid
      have hsame := hyo.exitOf
      rw [← hid] at hsame
      exact hne ((h.oneEach serde).exits x (h.recovered_record hwritten hrun hx) y
        (h.recovered_record hwritten hrun hy) o.scope.id _ _ hxo.exitOf hsame)
    · refine hnodup.imp_of_mem ?_
      intro x y hx hy hne
      exact ⟨(List.mem_filter.1 hx).1, (List.mem_filter.1 hy).1, hne⟩
  · intro id
    constructor
    · rintro ⟨o, ho, rfl⟩
      obtain ⟨ho, hfailed⟩ := List.mem_filter.1 ho
      obtain ⟨x, hx, hsum⟩ := forall₂_mem_right hsummaries ho
      refine ⟨x, (List.mem_filter.1 hx).1, ⟨o.durationNs, ?_⟩, hsum.scope⟩
      rw [hsum.kind, show o.outcome = .failure by simpa using hfailed]
    · rintro ⟨x, hx, ⟨durationNs, hkind⟩, hscope⟩
      have hexit : x.isExit = true := by rw [Record.isExit, hkind]
      obtain ⟨o, ho, hsum⟩ := forall₂_mem_right hsummaries.flip (List.mem_filter.2 ⟨hx, hexit⟩)
      have hfailed : o.outcome = .failure := by
        have hkinds := hkind.symm.trans hsum.kind
        injection hkinds with houtcome
        exact houtcome.symm
      refine ⟨o, List.mem_filter.2 ⟨ho, by simpa using hfailed⟩, ?_⟩
      exact Option.some.inj (hsum.scope.symm.trans hscope)
  · exact fun limit => TopK.largest_selects _ _ limit
  · exact fun x hx => hrun.unfinished_iff hx
  · exact fun l hl hopen x hx hid => h.unfinished_of_open hwritten hrun hl hopen hx hid

/-- **Of a complete input** exactly the open scopes are unfinished. -/
theorem Chronicle.complete (hidle : ∀ t, (s.threads t).pc = .user)
    (hall : ∀ p ∈ s.runtime.asRead serde, ∃ line ∈ lines, line.parts = p) {l : Life}
    (hl : l ∈ s.runtime.lives) :
    ∃ x ∈ run.scopes, x.id = l.scope.id ∧ (x ∈ run.unfinishedScopes ↔ l.exited = none) := by
  have hin : ∀ y ∈ s.runtime.written.filterMap (·.scope), y ∈ scopesIn lines := by
    intro y hy
    rw [← Runtime.asRead_scopes serde] at hy
    obtain ⟨p, hp, hscope⟩ := List.mem_filterMap.1 hy
    obtain ⟨line, hline, rfl⟩ := hall p hp
    exact List.mem_filterMap.2 ⟨line, hline, hscope⟩
  obtain ⟨y, hy, hid⟩ := h.entered_written hidle hl
  obtain ⟨x, hx, hxid⟩ : ∃ x ∈ run.scopes, x.id = l.scope.id := by
    have hmem : l.scope.id ∈ run.scopes.map (·.id) := by
      rw [hrun.ids, List.mem_append, List.mem_eraseDups, ← hid]
      exact .inl (List.mem_map_of_mem (hin y hy))
    obtain ⟨x, hx, hxid⟩ := List.mem_map.1 hmem
    exact ⟨x, hx, hxid⟩
  refine ⟨x, hx, hxid, ?_, fun hopen => h.unfinished_of_open hwritten hrun hl hopen hx hxid⟩
  intro hunfinished
  by_contra hne
  obtain ⟨z, hz, hzid, hclosed⟩ := h.closed_written hidle hl (Option.isSome_iff_ne_none.2 hne)
  have hnone := ((hrun.unfinished_iff hx).1 hunfinished).2 z (hin z hz)
    (hzid.trans hxid.symm)
  rw [hnone] at hclosed
  cases hclosed

end

/-- **The queries tell the truth** about a live run, for every interleaving and
    every moment of it, and for any input whose entries of the run are among those
    written: what they say happened did happen.  Of an input with all entries,
    taken when no call is under way, they say what is open. -/
theorem post_mortem_truthful {serde : SerdeJson} (hs : serde.Lawful) (process : UInt64 × UInt64)
    (next : UInt64) (max : ℕ) (actions : List Action) (s : Process) (files : List InputFile)
    (hrun : Machine.run Process.step (.new (newRunId process next) true max) actions = some s)
    (hlive : Machine.Meets Process.step Process.Live (.new (newRunId process next) true max) actions)
    (hscopes : s.runtime.lives.length ≤ 2 ^ 64) (hrecords : s.runtime.recordIds ≤ 2 ^ 64)
    (hwritten : ∀ line ∈ linesOf serde (newRunId process next) files,
      line.parts ∈ s.runtime.asRead serde)
    (hsome : linesOf serde (newRunId process next) files ≠ []) :
    ∃ saved run, load serde files = .ok saved ∧
      saved.runs.filter (fun run => run.runId = some (newRunId process next)) = [run] ∧
      PostMortem s.runtime (linesOf serde (newRunId process next) files) run ∧
      ((∀ t, (s.threads t).pc = .user) →
        (∀ p ∈ s.runtime.asRead serde, ∃ line ∈ linesOf serde (newRunId process next) files,
          line.parts = p) →
        ∀ l ∈ s.runtime.lives, ∃ x ∈ run.scopes, x.id = l.scope.id ∧
          (x ∈ run.unfinishedScopes ↔ l.exited = none)) := by
  have h := Chronicle.of_run hrun hlive hscopes hrecords
  obtain ⟨saved, run, hload, htells⟩ := h.tells hs hwritten hsome
  refine ⟨saved, run, hload, htells.once, h.postMortem hwritten htells.recovered, ?_⟩
  intro hidle hall l hl
  exact h.complete hwritten htells.recovered hidle hall hl

theorem post_mortem_truthful_twice : ∃ s file saved run,
    Machine.run Process.step (.new (newRunId (1, 2) 0) true 500) tickBesideExit = some s ∧
    load compactSerde [file] = .ok saved ∧
    saved.runs.filter (fun run => run.runId = some (newRunId (1, 2) 0)) = [run] ∧
    PostMortem s.runtime (linesOf compactSerde (newRunId (1, 2) 0) [file]) run := by
  obtain ⟨s, tick, file, hs, hlives, hids, hparts, hwritten⟩ := tickBesideExit_file
  obtain ⟨saved, run, hload, honce, hpost, -⟩ := post_mortem_truthful compactSerde_lawful (1, 2) 0
    500 _ s [file] hs tickBesideExit_live hlives hids hwritten
    (fun hnil => by rw [hnil] at hparts; cases hparts)
  exact ⟨s, file, saved, run, hs, hload, honce, hpost⟩

end Eventline
