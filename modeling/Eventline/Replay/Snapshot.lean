/-
  Exporting a journal and loading the export (`Journal::records_jsonl`).

  * `snapshot_agrees`: the entries of an export agree with each other.
  * `snapshot_round_trip`: for every reachable journal the export is loaded as
    the journal, with placeholders for what it names and no longer retains.
  * `snapshot_repeated_id`: not so once the record ids have wrapped.
-/
import Eventline.History
import Eventline.Lib.HashIndex
import Eventline.Replay.Forest
import Eventline.Replay.Isolation

namespace Eventline

open Text Checked

/-- `index_scopes`: the first scope of each id. -/
def indexScopes (scopes : List Scope) : ScopeId → Option Scope :=
  scopes.foldl (fun index scope =>
    if (index scope.id).isSome then index else Function.update index scope.id (some scope))
    fun _ => none

/-- `Journal::records_jsonl`. -/
def Journal.recordsJsonl (serde : SerdeJson) (j : Journal) : List Bytes :=
  j.scopes.map (fun scope => renderScopeJsonl serde scope j.runId) ++
    j.records.map fun record =>
      renderJsonlInRun serde record (record.scope.bind (indexScopes j.scopes)) j.runId

theorem indexScopes_eq (scopes : List Scope) (id : ScopeId) :
    indexScopes scopes id = scopes.find? fun s => s.id = id := by
  have hfold : scopes.foldl (HashIndex.orInsert Scope.id) (fun _ => none) =
      HashIndex.first Scope.id scopes := HashIndex.foldl_orInsert scopes
  exact congrFun hfold id

/-- The parts of an export: the scopes, then the records with their scopes. -/
def snapshotParts (scopes : List Scope) (records : List Record) : List Parts :=
  scopes.map (fun s => ⟨none, some s⟩) ++
    records.map fun r => ⟨some r, r.scope.bind fun id => scopes.find? fun s => s.id = id⟩

/-! ## The entries agree -/

theorem Scope.conflicts_self (s : Scope) : s.conflicts s = false := by
  unfold Scope.conflicts
  cases s.exitedAt <;> simp

theorem Scope.merge_self (s : Scope) : s.merge s = s := by
  obtain ⟨id, parent, enteredAt, name, exitedAt, ⟨m₁, m₂, m₃⟩⟩ := s
  simp [Scope.merge, ExitMessages.overlay]

/-- A scope that is there is absorbed without a change. -/
theorem absorbScope_self {scopes : List Scope} (hnd : (scopes.map (·.id)).Nodup) {s : Scope}
    (hs : s ∈ scopes) : absorbScope scopes s = scopes := by
  obtain ⟨pre, post, rfl⟩ := List.append_of_mem hs
  have hpre : ∀ x ∈ pre, decide (x.id = s.id) = false := by
    intro x hx
    rw [List.map_append, List.map_cons, List.nodup_middle, List.nodup_cons] at hnd
    have hne : x.id ≠ s.id := fun hid =>
      hnd.1 (List.mem_append_left _ (List.mem_map.2 ⟨x, hx, hid⟩))
    simpa using hne
  rw [absorbScope, if_pos (by simp), Slots.updateFirst_split (by simp) hpre, Scope.conflicts_self,
    Scope.merge_self]
  rfl

section
variable {serde : SerdeJson} (run : SavedRun)

theorem agreeAll_scopes (pre scopes : List Scope) (rest : List Parts) {final : SavedRun}
    (hnd : ((pre ++ scopes).map (·.id)).Nodup)
    (h : AgreeAll serde { run with scopes := pre ++ scopes } rest final) :
    AgreeAll serde { run with scopes := pre } (scopes.map (fun s => ⟨none, some s⟩) ++ rest) final := by
  induction scopes generalizing pre with
  | nil => simpa using h
  | cons s scopes ih =>
    have hno : ∀ x ∈ pre, x.id ≠ s.id := by
      intro x hx hid
      rw [List.map_append, List.map_cons, List.nodup_middle, List.nodup_cons] at hnd
      exact hnd.1 (List.mem_append_left _ (List.mem_map.2 ⟨x, hx, hid⟩))
    have habs : absorbScope pre s = pre ++ [s] := by
      rw [absorbScope, if_neg]
      simpa using hno
    refine .cons ⟨?_, by simp, by simp⟩ ?_
    · rintro t ht x hx hid
      obtain rfl := Option.some.inj ht
      exact absurd hid (hno x hx)
    · have hrun : absorbParts serde { run with scopes := pre } ⟨none, some s⟩ =
          { run with scopes := pre ++ [s] } := by simp [absorbParts, habs]
      rw [hrun]
      exact ih (pre ++ [s]) (by simpa using hnd) (by simpa using h)

theorem agreeAll_records {scopes : List Scope} (hnd : (scopes.map (·.id)).Nodup)
    (pre records : List Record) (hids : (pre ++ records).Pairwise fun r t => r.id ≠ t.id)
    (hexits : (pre ++ records).Pairwise fun r t => ∀ id o o',
      Journal.exitOf r = some (id, o) → Journal.exitOf t ≠ some (id, o')) :
    AgreeAll serde { run with scopes, records := pre }
      (records.map fun r => ⟨some r, r.scope.bind fun id => scopes.find? fun s => s.id = id⟩)
      { run with scopes, records := pre ++ records } := by
  induction records generalizing pre with
  | nil =>
    rw [List.append_nil]
    exact .nil _
  | cons r records ih =>
    have hfresh : ∀ x ∈ pre, x.id ≠ r.id := fun x hx =>
      (List.pairwise_append.1 hids).2.2 x hx r (by simp)
    have hmem : ∀ s, (r.scope.bind fun id => scopes.find? fun s => s.id = id) = some s →
        s ∈ scopes := by
      intro s hs
      obtain ⟨id, -, hfind⟩ := Option.bind_eq_some_iff.1 hs
      exact List.mem_of_find?_eq_some hfind
    refine .cons ⟨?_, ?_, ?_⟩ ?_
    · intro s hs x hx hid
      obtain rfl := eq_of_id hnd hx (hmem s hs) hid
      exact Scope.conflicts_self x
    · rintro t ht x hx
      obtain rfl := Option.some.inj ht
      exact hfresh x hx
    · rintro t ht id o hex x hx o' hxo
      obtain rfl := Option.some.inj ht
      exact (List.pairwise_append.1 hexits).2.2 x hx r (by simp) id o' o hxo hex
    · have hrun : absorbParts serde { run with scopes, records := pre }
          ⟨some r, r.scope.bind fun id => scopes.find? fun s => s.id = id⟩ =
          { run with scopes, records := pre ++ [r] } := by
        have hscopes : (r.scope.bind fun id => scopes.find? fun s => s.id = id).elim scopes
            (absorbScope scopes) = scopes := by
          cases hs : r.scope.bind fun id => scopes.find? fun s => s.id = id with
          | none => rfl
          | some s => exact absorbScope_self hnd (hmem s hs)
        simp only [absorbParts, hscopes, Option.elim_some, absorbRecord_fresh hfresh]
      rw [hrun]
      have hih := ih (pre ++ [r]) (by simpa using hids) (by simpa using hexits)
      rwa [List.append_assoc, List.singleton_append] at hih

end

/-- The records that the export of a journal is read as. -/
def Journal.rereadRecords (serde : SerdeJson) (j : Journal) : List Record :=
  j.records.map (Record.reread serde)

theorem Journal.rereadRecords_of_exact {serde : SerdeJson} (h : serde.Exact) (j : Journal) :
    j.rereadRecords serde = j.records := map_reread_of_exact h j.records

/-- The scopes that they name are those of the journal. -/
theorem neededScopes_reread (serde : SerdeJson) (scopes : List Scope) (j : Journal) :
    neededScopes scopes (j.rereadRecords serde) = neededScopes scopes j.records := by
  rw [neededScopes, neededScopes, Journal.rereadRecords, List.filterMap_map]
  rfl

/-- **The entries of an export agree**, and make the scopes and records of the journal. -/
theorem snapshot_agrees {serde : SerdeJson} {j : Journal} {n m : ℕ} (h : j.Issued n m)
    (runId source : Option String) :
    AgreeAll serde (RunBuilder.new runId source).run
      (snapshotParts j.scopes (j.rereadRecords serde))
      { (RunBuilder.new runId source).run with
        scopes := j.scopes, records := j.rereadRecords serde } := by
  have hids : (j.rereadRecords serde).Pairwise fun r t => r.id ≠ t.id := by
    refine List.pairwise_map.2 (h.recordIds.imp ?_)
    intro r t hlt heq
    rw [show r.id = t.id from heq] at hlt
    exact absurd hlt (UInt64.lt_irrefl _)
  have hexits : (j.rereadRecords serde).Pairwise fun r t => ∀ id o o',
      Journal.exitOf r = some (id, o) → Journal.exitOf t ≠ some (id, o') := by
    refine List.pairwise_map.2 (h.exits.imp ?_)
    intro r t hrt id o o' hr ht
    rw [Journal.exitOf, Record.reread, RunBuilder.exitOf_mapDoubles] at hr ht
    exact hrt id o o' hr ht
  exact agreeAll_scopes (RunBuilder.new runId source).run [] j.scopes _ h.scope_nodup
    (agreeAll_records (RunBuilder.new runId source).run h.scope_nodup [] _ hids hexits)

/-- The lines of an export are rendered from its parts. -/
theorem snapshot_rendered (serde : SerdeJson) {j : Journal} {n m : ℕ} (h : j.Issued n m) :
    List.Forall₂ (Rendered serde j.runId) (j.recordsJsonl serde)
      (snapshotParts j.scopes (j.rereadRecords serde)) := by
  refine List.rel_append ?_ ?_
  · rw [List.forall₂_map_left_iff, List.forall₂_map_right_iff]
    exact List.forall₂_same.2 fun s _ => .scope s
  · rw [Journal.rereadRecords, List.map_map, List.forall₂_map_left_iff, List.forall₂_map_right_iff]
    refine List.forall₂_same.2 fun r hr => ?_
    have hindex : r.scope.bind (indexScopes j.scopes) =
        r.scope.bind fun id => j.scopes.find? fun s => s.id = id := by
      congr 1
      funext id
      exact indexScopes_eq j.scopes id
    rw [hindex]
    refine .record ⟨h.exitScoped r hr, ?_⟩
    intro s hs
    obtain ⟨id, hid, hfind⟩ := Option.bind_eq_some_iff.1 hs
    have hsid : s.id = id := by simpa using List.find?_some hfind
    rw [hid, hsid]

/-! ## The round trip -/

/-- The ids that a journal names and does not retain. -/
def Journal.missing (j : Journal) : List ScopeId :=
  missingOf (j.scopes.map (·.id)) (neededScopes j.scopes j.records)

/-- What loading the export of a journal yields. -/
def Journal.reloaded (j : Journal) (source : Option String) : SavedJournal :=
  if j.scopes = [] ∧ j.records = [] then ⟨[], []⟩
  else
    ⟨[⟨some j.runId, [], j.records, j.scopes ++ j.missing.map placeholder, j.missing⟩],
      j.missing.map (RunBuilder.missingIssue source)⟩

/-- **Export and load are inverse** on every reachable journal whose counters
    have not wrapped, if doubles are read back exactly: one run with the records
    and scopes of the journal, and a placeholder and an issue for each id that it
    names and does not retain. -/
theorem snapshot_round_trip {serde : SerdeJson} (hs : serde.Lawful) (hexact : serde.Exact) {process : UInt64 × UInt64}
    {next : UInt64} {h : History} (hr : History.Reachable (newRunId process next) h)
    (hn : h.entered ≤ 2 ^ 64) (hm : h.recorded ≤ 2 ^ 64) {bytes : Bytes}
    (hb : bytes = unlines (h.journal.recordsJsonl serde) ∨
      bytes = [newline].intercalate (h.journal.recordsJsonl serde)) (source : Option String) :
    load serde [⟨source, bytes⟩] = .ok (h.journal.reloaded source) ∧
      h.journal.runId = newRunId process next ∧ h.journal.missing.Nodup ∧
      ∀ id, id ∈ h.journal.missing ↔
        id ∈ neededScopes h.journal.scopes h.journal.records ∧
          id ∉ h.journal.scopes.map (·.id) := by
  have hinv := hr.inv hn hm
  refine ⟨?_, hinv.runId, nodup_missingOf _ _, fun id => mem_missingOf⟩
  have hne : h.journal.runId ≠ "" := by
    rw [hinv.runId]
    exact newRunId_ne process next
  have hrendered := snapshot_rendered serde hinv.issued
  have hagrees : AgreeAll serde _ _ _ :=
    snapshot_agrees hinv.issued (some h.journal.runId) source
  rw [Journal.rereadRecords_of_exact hexact] at hrendered hagrees
  have hclass := classify_rendered hs hne hrendered hb
  unfold Journal.reloaded
  split_ifs with hempty
  · have hraw : rawLines bytes = [] := by
      rw [hempty.1, hempty.2] at hclass
      exact List.map_eq_nil_iff.1 hclass
    have hlines : inputLines [⟨source, bytes⟩] = [] := by
      simp [inputLines, InputFile.lines, hraw]
    rw [load, foldlM_read, hlines]
    rfl
  · have hps : snapshotParts h.journal.scopes h.journal.records ≠ [] := by
      intro hnil
      obtain ⟨h₁, h₂⟩ := List.append_eq_nil_iff.1 hnil
      exact hempty ⟨List.map_eq_nil_iff.1 h₁, List.map_eq_nil_iff.1 h₂⟩
    obtain ⟨b, hwf, hrun, hsrc, hload⟩ := load_entries hs hclass hps hagrees
    have hbelow : ParentsBelow b.run.scopes := by
      rw [hrun]
      exact hinv.issued.parents
    rw [hload, finish_below hwf hbelow, RunBuilder.missing, hrun, hsrc]
    rfl

/-- A journal with one scope and one event in it. -/
def smallHistory : Checked History := do
  let h ← (History.new (newRunId (1, 2) 0)).step (.enterScope "request" 10 1000)
  h.step (.record .info "started" .new 2000)

theorem snapshot_round_trip_small : ∃ h, smallHistory = .ok h ∧
    load compactSerde [⟨none, unlines (h.journal.recordsJsonl compactSerde)⟩] =
      .ok (h.journal.reloaded none) ∧ h.journal.missing = [] := by
  obtain ⟨h₁, hs₁⟩ : ∃ h, (History.new (newRunId (1, 2) 0)).step (.enterScope "request" 10 1000) =
      .ok h := ⟨_, rfl⟩
  obtain ⟨h₂, hs₂⟩ : ∃ h, h₁.step (.record .info "started" .new 2000) = .ok h := by
    obtain rfl := Except.ok.inj hs₁
    exact ⟨_, rfl⟩
  have hr : History.Reachable (newRunId (1, 2) 0) h₂ :=
    .step (.step .new (by rintro p hp; cases hp) hs₁) (by rintro p hp; cases hp) hs₂
  obtain ⟨hload, -, -, -⟩ := snapshot_round_trip compactSerde_lawful compactSerde_exact hr
    (by obtain rfl := Except.ok.inj hs₁; obtain rfl := Except.ok.inj hs₂; decide)
    (by obtain rfl := Except.ok.inj hs₁; obtain rfl := Except.ok.inj hs₂; decide) (.inl rfl) none
  refine ⟨h₂, ?_, hload, ?_⟩
  · rw [smallHistory, hs₁, ok_bind, hs₂]
  · obtain rfl := Except.ok.inj hs₁
    obtain rfl := Except.ok.inj hs₂
    rfl

/-! ## Record ids that have wrapped -/

/-- Exits of unknown scopes use up record ids, and nothing else. -/
theorem exits_reachable {runId : String} {h : History} (hr : History.Reachable runId h)
    (hempty : h.journal.buffer.scopes = .empty) (k : ℕ) :
    History.Reachable runId
      ⟨{ h.journal with nextRecordId := h.journal.nextRecordId + UInt64.ofNat k }, h.entered,
        h.recorded + k⟩ := by
  induction k with
  | zero => simpa using hr
  | succ k ih =>
    refine .step ih (show History.Allowed _ (.exitScope ⟨0⟩ .success 0 0 0) by rintro p hp; cases hp) ?_
    have hnext : h.journal.nextRecordId + UInt64.ofNat k + 1 =
        h.journal.nextRecordId + UInt64.ofNat (k + 1) := by
      rw [UInt64.ofNat_add, UInt64.add_assoc]
      rfl
    have hbuffer : h.journal.buffer = ⟨h.journal.buffer.records, .empty⟩ := by rw [← hempty]
    rw [History.step, JournalOp.apply, Journal.exitScope, Journal.exitScopeNoWrite, hempty]
    rw [show Scopes.empty.finalizeScopeExitAt ⟨0⟩ 0 0 = .ok (.empty, none) from rfl]
    simp only [ok_bind, pure_eq_ok, Journal.writeExit, hnext, ← hbuffer]
    rfl

/-- Entries that give each id one record make it once. -/
theorem recordsOf_nodup {serde : SerdeJson} {entries : List Fed}
    (h : ∀ e ∈ entries, ∀ e' ∈ entries, ∀ x y, e.decoded.parts.record = some x →
      e'.decoded.parts.record = some y → x.id = y.id → x = y) : (recordsOf serde entries).Nodup := by
  have hfold : ∀ (rest : List Fed) (l : List Record), (∀ e ∈ rest, e ∈ entries) →
      (∀ x ∈ l, ∃ e ∈ entries, e.decoded.parts.record = some x) → l.Nodup →
      (rest.foldl (fun l e => e.decoded.parts.record.elim l (absorbRecord serde l)) l).Nodup := by
    intro rest
    induction rest with
    | nil => exact fun l _ _ hl => hl
    | cons e rest ih =>
      intro l hrest hfrom hl
      obtain ⟨he, hrest⟩ := List.forall_mem_cons.1 hrest
      rw [List.foldl_cons]
      cases hrecord : e.decoded.parts.record with
      | none => exact ih l hrest hfrom hl
      | some x =>
        rw [Option.elim_some, absorbRecord]
        split_ifs with hany
        · exact ih l hrest hfrom hl
        · refine ih _ hrest ?_ ?_
          · intro y hy
            rcases List.mem_append.1 hy with hy | hy
            · exact hfrom y hy
            · exact ⟨e, he, List.mem_singleton.1 hy ▸ hrecord⟩
          · refine List.nodup_append.2 ⟨hl, List.nodup_singleton x, ?_⟩
            rintro y hy z hz rfl
            obtain rfl := List.mem_singleton.1 hz
            -- the record is there, so it would have been found
            refine hany ?_
            cases hfind : l.find? fun r => r.id = y.id with
            | none => simpa using List.find?_eq_none.1 hfind y hy
            | some r =>
              obtain ⟨e', he', hr⟩ := hfrom r (List.mem_of_find?_eq_some hfind)
              have hid : r.id = y.id := by simpa using List.find?_some hfind
              have hsame : r = y := h e' he' e he r y hr hrecord hid
              simp [hsame]
  exact hfold entries [] (fun _ he => he) (fun _ hx => by cases hx) .nil

/-- A load of lines that give each id one record has it once in each run. -/
theorem load_nodup {serde : SerdeJson} (hs : serde.Lawful) {runId : String} (hne : runId ≠ "")
    {lines : List Bytes} {ps : List Parts} (hrendered : List.Forall₂ (Rendered serde runId) lines ps)
    (hids : ∀ p ∈ ps, ∀ p' ∈ ps, ∀ x y, p.record = some x → p'.record = some y → x.id = y.id → x = y)
    {saved : SavedJournal} (hload : load serde [⟨none, unlines lines⟩] = .ok saved) :
    ∀ run ∈ saved.runs, run.records.Nodup := by
  have hclass := classify_rendered hs hne hrendered (.inl rfl)
  obtain ⟨saved', log, builders, hl⟩ := load_ok hs [⟨none, unlines lines⟩]
  obtain rfl := Except.ok.inj (hload.symm.trans hl.load)
  have hlog : ∀ e ∈ log, e.decoded.parts ∈ ps := by
    intro e he
    have hentry : (e.source, e.decoded) ∈ log.map fun e => (e.source, e.decoded) :=
      List.mem_map.2 ⟨e, he, rfl⟩
    rw [hl.entries] at hentry
    obtain ⟨line, hline, hd⟩ := List.mem_filterMap.1 hentry
    have hraw : (line.source, line.raw) ∈ (inputLines [⟨none, unlines lines⟩]).map
        fun line => (line.source, line.raw) := List.mem_map.2 ⟨line, hline, rfl⟩
    rw [map_inputLines, List.flatMap_singleton] at hraw
    obtain ⟨raw, hmem, heq⟩ := List.mem_map.1 hraw
    have hraw : line.raw ∈ rawLines (unlines lines) := (Prod.mk.inj heq).2 ▸ hmem
    have hclassified := List.mem_map_of_mem (f := classify serde) hraw
    rw [hclass] at hclassified
    obtain ⟨parts, hparts, hc⟩ := List.mem_map.1 hclassified
    rw [InputLine.entry, ← hc] at hd
    rw [← (Prod.mk.inj (Option.some.inj hd)).2]
    exact hparts
  intro run hrun
  obtain ⟨i, hi⟩ := List.mem_iff_getElem?.1 hrun
  obtain ⟨saved', log', hload', htrace', hcomplete⟩ := load_complete hs [⟨none, unlines lines⟩]
  obtain rfl := Except.ok.inj (hload.symm.trans hload')
  obtain rfl := Except.ok.inj (hl.trace.symm.trans htrace')
  rw [(hcomplete i run hi).retainedRecords]
  refine recordsOf_nodup fun e he e' he' => ?_
  exact hids _ (hlog e (List.mem_of_mem_filter he)) _ (hlog e' (List.mem_of_mem_filter he'))

/-- After 2⁶⁴ record ids two retained records can share one; then the export is
    not loaded as the journal. -/
theorem snapshot_repeated_id : ∃ h, History.Reachable (newRunId (1, 2) 0) h ∧
    ∀ saved, load compactSerde [⟨none, unlines (h.journal.recordsJsonl compactSerde)⟩] = .ok saved →
      ∀ run ∈ saved.runs, run.records ≠ h.journal.records := by
  obtain ⟨h₁, hs₁⟩ : ∃ h, (History.new (newRunId (1, 2) 0)).step (.record .info "tick" .new 2000) =
      .ok h := ⟨_, rfl⟩
  have hr₁ : History.Reachable (newRunId (1, 2) 0) h₁ := .step .new (by rintro p hp; cases hp) hs₁
  obtain rfl := Except.ok.inj hs₁
  obtain ⟨h₂, hh₂, hr₂⟩ : ∃ h, h = _ ∧ History.Reachable (newRunId (1, 2) 0) h :=
    ⟨_, rfl, exits_reachable hr₁ rfl (2 ^ 64 - 1)⟩
  obtain ⟨h₃, hs₃⟩ : ∃ h, h₂.step (.record .info "tick" .new 2000) = .ok h := by
    subst hh₂
    exact ⟨_, rfl⟩
  have hr₃ : History.Reachable (newRunId (1, 2) 0) h₃ :=
    hr₂.step (by rintro p hp; cases hp) hs₃
  refine ⟨h₃, hr₃, ?_⟩
  subst hh₂
  obtain rfl := Except.ok.inj hs₃
  intro saved hload run hrun heq
  have htick : Record.Paired ⟨⟨0⟩, none, 2000, .event .info "tick" .new⟩ none := ⟨by simp, by simp⟩
  have hnodup := load_nodup compactSerde_lawful (newRunId_ne (1, 2) 0)
    (.cons (.record_of_exact compactSerde_exact htick)
      (.cons (.record_of_exact compactSerde_exact htick) .nil)) (by simp) hload run hrun
  rw [heq] at hnodup
  exact absurd hnodup (by decide)

end Eventline
