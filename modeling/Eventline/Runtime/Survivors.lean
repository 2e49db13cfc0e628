/-
  What a load makes of the entries that survived.

  A reader may get any part of what a run wrote, in any order, more than once,
  and among anything else.

  * `Told`: the parts of an entry show known lives, and its record is a known one.
  * `Gathers`: a builder has each record once, and for each scope the merge of
    its copies; `Gathers.merge` adds an entry without a conflict.
  * `Recovered`: a loaded run; `load_told_runs` for runs in input with anything
    else in it, `load_told_alone` for input of one run.
-/
import Eventline.Replay.Outcomes
import Eventline.Replay.Quiet
import Eventline.Runtime.Restore

namespace Eventline

open Text Checked Slots

/-! ## First occurrences -/

section
variable {α : Type} [DecidableEq α]

theorem eraseDups_concat (l : List α) (a : α) :
    (l ++ [a]).eraseDups = if a ∈ l then l.eraseDups else l.eraseDups ++ [a] := by
  rw [List.eraseDups_append]
  split_ifs with ha <;> simp [List.removeAll, ha, List.eraseDups_cons]

theorem nodup_eraseDups (l : List α) : l.eraseDups.Nodup := by
  induction l using List.reverseRecOn with
  | nil => simp
  | append_singleton l a ih =>
    rw [eraseDups_concat]
    split_ifs with ha
    · exact ih
    · rw [List.nodup_append]
      refine ⟨ih, List.nodup_singleton a, ?_⟩
      rintro b hb c hc rfl
      exact ha (List.mem_singleton.1 hc ▸ List.mem_eraseDups.1 hb)

end

/-! ## Entries of known lives and records -/

/-- Records with distinct ids, of which at most one exits a scope. -/
structure OneEach (pool : List Record) : Prop where
  ids : ∀ x ∈ pool, ∀ y ∈ pool, x.id = y.id → x = y
  exits : ∀ x ∈ pool, ∀ y ∈ pool, ∀ id o o', RunBuilder.exitOf x = some (id, o) →
    RunBuilder.exitOf y = some (id, o') → x = y

/-- Records that have distinct ids, and exit each scope once, do so as they are
    read. -/
theorem oneEach_reread (serde : SerdeJson) {records : List Record}
    (hids : records.Pairwise fun x y => x.id ≠ y.id)
    (hexits : records.Pairwise fun x y => ∀ id o o',
      Journal.exitOf x = some (id, o) → Journal.exitOf y ≠ some (id, o')) :
    OneEach (records.map (Record.reread serde)) := by
  obtain ⟨hids, hexits⟩ := pairwise_reread serde hids hexits
  constructor
  case ids =>
    intro x hx y hy hid
    have hsymm : Std.Symm fun x y : Record => x.id ≠ y.id := ⟨fun _ _ hxy => Ne.symm hxy⟩
    by_contra hne
    exact hids.forall hx hy hne hid
  case exits =>
    intro x hx y hy id o o' hxo hyo
    have hsymm : Std.Symm fun x y : Record => ∀ id o o',
        Journal.exitOf x = some (id, o) → Journal.exitOf y ≠ some (id, o') :=
      ⟨fun _ _ hxy id o o' hy hx => hxy id o' o hx hy⟩
    by_contra hne
    exact hexits.forall hx hy hne id o o' hxo hyo

/-- The parts of an entry are of known lives and records. -/
structure Told (lives : List Life) (pool : List Record) (parts : Parts) : Prop where
  scope : ∀ x, parts.scope = some x → ∃ l ∈ lives, l.Shows x
  record : ∀ x, parts.record = some x → x ∈ pool

theorem Told.reread {lives : List Life} {pool : List Record} {p : Parts} (h : Told lives pool p)
    (serde : SerdeJson) : Told lives (pool.map (Record.reread serde)) (p.reread serde) where
  scope := h.scope
  record x hx := by
    obtain ⟨r, hr, rfl⟩ := Option.map_eq_some_iff.1 hx
    exact List.mem_map_of_mem (h.record r hr)

/-- A record that is added again, or is new: neither is a conflict. -/
theorem RunBuilder.addRecord_told {serde : SerdeJson} (hserde : serde.Lawful) {b : RunBuilder}
    (h : b.WF) (ho : b.Observed) {pool : List Record} (hpool : OneEach pool)
    (hb : ∀ x ∈ b.run.records, x ∈ pool) {r : Record} (hr : r ∈ pool) :
    ∃ b', b.addRecord serde r = .ok (b', none) ∧ b'.WF ∧ b'.Observed ∧
      b'.run = { b.run with
        records := if r ∈ b.run.records then b.run.records else b.run.records ++ [r] } ∧
      b'.source = b.source := by
  by_cases hmem : r ∈ b.run.records
  · -- the first record of the id is the record itself
    have hfirst : (b.run.records.find? fun x => x.id = r.id) = some r := by
      cases hfind : b.run.records.find? fun x => x.id = r.id with
      | none => exact absurd (List.find?_eq_none.1 hfind r hmem) (by simp)
      | some x =>
        have hid : x.id = r.id := by simpa using List.find?_some hfind
        exact congrArg some (hpool.ids x (hb x (List.mem_of_find?_eq_some hfind)) r hr hid)
    obtain ⟨b', issue, hadd, hwf, hrun, hsource, -⟩ := addRecord_ok hserde h r
    have hreport := addRecord_report hserde h hadd
    rw [hfirst] at hreport
    obtain ⟨hout, rfl⟩ : b'.outcomes = b.outcomes ∧ issue = none := by simpa using hreport
    have hsame : absorbRecord serde b.run.records r = b.run.records := by
      simp [absorbRecord, hfirst]
    rw [hsame] at hrun
    refine ⟨b', hadd, hwf, ?_, by rw [if_pos hmem, hrun], hsource⟩
    intro id hid
    rw [hout] at hid
    rw [hrun]
    exact ho id hid
  · obtain ⟨b', hadd, hwf, hobs, hrun, hsource⟩ := addRecord_agrees hserde h ho
      (fun x hx hid => hmem (hpool.ids x (hb x hx) r hr hid ▸ hx))
      (fun id o hxo x hx o' hyo => hmem (hpool.exits x (hb x hx) r hr id o' o hyo hxo ▸ hx))
    exact ⟨b', hadd, hwf, hobs, by rw [if_neg hmem, hrun], hsource⟩

/-- The ids of scopes after a snapshot. -/
theorem map_absorbScope_id (scopes : List Scope) (s : Scope) :
    (absorbScope scopes s).map (·.id) =
      if s.id ∈ scopes.map (·.id) then scopes.map (·.id) else scopes.map (·.id) ++ [s.id] := by
  have hany : (scopes.any fun x => x.id = s.id) = true ↔ s.id ∈ scopes.map (·.id) := by simp
  unfold absorbScope
  split_ifs with h h' h'
  · exact map_updateFirst_of_eq (fun x => by split_ifs <;> rfl) scopes
  · exact absurd (hany.1 h) h'
  · exact absurd (hany.2 h') h
  · rw [List.map_append]
    rfl

@[simp] theorem recordsIn_concat (lines : List RunLine) (line : RunLine) :
    recordsIn (lines ++ [line]) = recordsIn lines ++ line.parts.record.toList := by
  rw [recordsIn, List.filterMap_append]
  cases h : line.parts.record <;> simp [recordsIn, h]

@[simp] theorem scopesIn_concat (lines : List RunLine) (line : RunLine) :
    scopesIn (lines ++ [line]) = scopesIn lines ++ line.parts.scope.toList := by
  rw [scopesIn, List.filterMap_append]
  cases h : line.parts.scope <;> simp [scopesIn, h]

/-- A builder with each record of the lines once, and with one scope for each id,
    the merge of its copies. -/
structure Gathers (lives : List Life) (runId source : Option String) (lines : List RunLine)
    (b : RunBuilder) : Prop where
  wf : b.WF
  observed : b.Observed
  merged : Merged lives (scopesIn lines) b.run.scopes
  ids : b.run.scopes.map (·.id) = ((scopesIn lines).map (·.id)).eraseDups
  closed : ∀ id, ClosedIn b.run.scopes id ↔ ∃ y ∈ scopesIn lines, y.id = id ∧ y.exitedAt ≠ none
  run : b.run = ⟨runId, [], (recordsIn lines).eraseDups, b.run.scopes, []⟩
  source : b.source = source

theorem new_gathers (lives : List Life) (runId source : Option String) :
    Gathers lives runId source [] (.new runId source) where
  wf := RunBuilder.new_wf runId source
  observed := RunBuilder.new_observed runId source
  merged := merged_nil lives
  ids := rfl
  closed id := by simp [ClosedIn, RunBuilder.new, scopesIn]
  run := rfl
  source := rfl

section
variable {lives : List Life} (hids : (lives.map (·.scope.id)).Nodup) {pool : List Record}
  {runId source : Option String} {lines : List RunLine} {b : RunBuilder}

include hids in
/-- A snapshot of a known life is merged. -/
theorem Gathers.addScope (h : Gathers lives runId source lines b) {s : Scope}
    (hs : ∃ l ∈ lives, l.Shows s) : ∃ b', b.addScope s = .ok (b', none) ∧ b'.WF ∧ b'.Observed ∧
      b'.run = { b.run with scopes := absorbScope b.run.scopes s } ∧ b'.source = b.source ∧
      Merged lives (scopesIn lines ++ [s]) b'.run.scopes ∧
      b'.run.scopes.map (·.id) = ((scopesIn lines ++ [s]).map (·.id)).eraseDups ∧
      ∀ id, ClosedIn b'.run.scopes id ↔
        ∃ y ∈ scopesIn lines ++ [s], y.id = id ∧ y.exitedAt ≠ none := by
  obtain ⟨hmerged, hagree⟩ := h.merged.absorb hids hs
  obtain ⟨b', hadd, hwf, hobs, hrun, hsource⟩ :=
    RunBuilder.addScope_agrees h.wf h.observed hagree
  have hany : (b.run.scopes.any fun x => x.id = s.id && x.conflicts s) = false := by
    rw [List.any_eq_false]
    intro x hx
    by_cases hid : x.id = s.id
    · simp [hagree x hx hid]
    · simp [hid]
  refine ⟨b', hadd, hwf, hobs, hrun, hsource, ?_, ?_, ?_⟩
  · rw [hrun]
    exact hmerged
  · rw [hrun, List.map_append, List.map_singleton, eraseDups_concat, ← h.ids]
    simp only [map_absorbScope_id]
    congr 1
    rw [h.ids, List.mem_eraseDups]
  · intro id
    rw [hrun, closedIn_absorbScope h.wf.nodup, h.closed id]
    simp only [hany, true_and, List.mem_append, List.mem_singleton]
    constructor
    · rintro (⟨y, hy, hyid⟩ | hs)
      · exact ⟨y, .inl hy, hyid⟩
      · exact ⟨s, .inr rfl, hs⟩
    · rintro ⟨y, hy | rfl, hyid⟩
      · exact .inl ⟨y, hy, hyid⟩
      · exact .inr hyid

include hids in
/-- **An entry is added** without a conflict. -/
theorem Gathers.merge {serde : SerdeJson} (hserde : serde.Lawful) (hpool : OneEach pool)
    (h : Gathers lives runId source lines b) (hlines : ∀ x ∈ recordsIn lines, x ∈ pool)
    {line : RunLine} (ht : Told lives pool line.parts) :
    ∃ b', b.merge serde line.parts = .ok (b', []) ∧
      Gathers lives runId source (lines ++ [line]) b' := by
  obtain ⟨b₁, h₁, hwf₁, hobs₁, hrun₁, hsource₁, hmerged₁, hids₁, hclosed₁⟩ :
      ∃ b₁, b.mergeScope line.parts.scope = .ok (b₁, []) ∧ b₁.WF ∧ b₁.Observed ∧
        b₁.run = { b.run with scopes := b₁.run.scopes } ∧ b₁.source = b.source ∧
        Merged lives (scopesIn (lines ++ [line])) b₁.run.scopes ∧
        b₁.run.scopes.map (·.id) = ((scopesIn (lines ++ [line])).map (·.id)).eraseDups ∧
        ∀ id, ClosedIn b₁.run.scopes id ↔
          ∃ y ∈ scopesIn (lines ++ [line]), y.id = id ∧ y.exitedAt ≠ none := by
    simp only [scopesIn_concat]
    cases hscope : line.parts.scope with
    | none =>
      simp only [Option.toList_none, List.append_nil]
      exact ⟨b, rfl, h.wf, h.observed, rfl, rfl, h.merged, h.ids, h.closed⟩
    | some s =>
      obtain ⟨b₁, hadd, hwf, hobs, hrun, hsource, hrest⟩ := h.addScope hids (ht.scope s hscope)
      exact ⟨b₁, by rw [RunBuilder.mergeScope, hadd]; rfl, hwf, hobs, by rw [hrun], hsource, hrest⟩
  have hrecords : b₁.run.records = (recordsIn lines).eraseDups := by rw [hrun₁, h.run]
  have hsource : b₁.source = source := hsource₁.trans h.source
  have hinit : b₁.run = ⟨runId, [], (recordsIn lines).eraseDups, b₁.run.scopes, []⟩ := by
    rw [hrun₁, h.run]
  cases hrecord : line.parts.record with
  | none =>
    refine ⟨b₁, ?_, hwf₁, hobs₁, hmerged₁, hids₁, hclosed₁, ?_, hsource⟩
    · simp only [RunBuilder.merge, h₁, ok_bind, hrecord]
      rfl
    · rw [recordsIn_concat, hrecord, Option.toList_none, List.append_nil]
      exact hinit
  | some r =>
    obtain ⟨b₂, hadd, hwf₂, hobs₂, hrun₂, hsource₂⟩ := RunBuilder.addRecord_told hserde hwf₁ hobs₁
      hpool (fun x hx => hlines x (by rw [hrecords] at hx; exact List.mem_eraseDups.1 hx))
      (ht.record r hrecord)
    have hscopes : b₂.run.scopes = b₁.run.scopes := by rw [hrun₂]
    refine ⟨b₂, ?_, hwf₂, hobs₂, hscopes ▸ hmerged₁, hscopes ▸ hids₁, hscopes ▸ hclosed₁, ?_,
      hsource₂.trans hsource⟩
    · simp only [RunBuilder.merge, h₁, ok_bind, hrecord, RunBuilder.mergeRecord, hadd]
      rfl
    · have hmem : r ∈ b₁.run.records ↔ r ∈ recordsIn lines := by
        rw [hrecords, List.mem_eraseDups]
      rw [hscopes, hrun₂, recordsIn_concat, hrecord, Option.toList_some, eraseDups_concat,
        hinit]
      simp only [List.mem_eraseDups]

/-- Lines of known lives and records. -/
def AllTold (lives : List Life) (pool : List Record) (lines : List RunLine) : Prop :=
  ∀ line ∈ lines, Told lives pool line.parts

theorem AllTold.recordsIn (h : AllTold lives pool lines) {x : Record} (hx : x ∈ recordsIn lines) :
    x ∈ pool := by
  obtain ⟨line, hline, hr⟩ := List.mem_filterMap.1 hx
  exact (h line hline).record x hr

include hids in
/-- **Gathering the lines** raises no issue. -/
theorem gather_told {serde : SerdeJson} (hserde : serde.Lawful) (hpool : OneEach pool)
    (runId source : Option String) (ht : AllTold lives pool lines) :
    ∃ b, gather serde (.new runId source) lines = .ok (b, []) ∧
      Gathers lives runId source lines b := by
  induction lines using List.reverseRecOn with
  | nil => exact ⟨_, rfl, new_gathers lives runId source⟩
  | append_singleton lines line ih =>
    have hlines : AllTold lives pool lines := fun x hx => ht x (List.mem_append_left _ hx)
    obtain ⟨b, hgather, hb⟩ := ih hlines
    obtain ⟨b', hmerge, hb'⟩ := hb.merge hids hserde hpool (fun x hx => hlines.recordsIn hx)
      (ht line (by simp))
    refine ⟨b', ?_, hb'⟩
    rw [gather_concat, hgather, ok_bind, gatherLine, hmerge]
    rfl

end

/-! ## The run of a load -/

/-- A loaded run has each record of its lines once, in the order of their first
    copies, and one scope for each id that has a copy, the merge of these; all
    other scopes that are named are placeholders. -/
structure Recovered (lives : List Life) (lines : List RunLine) (run : SavedRun) : Prop where
  records : run.records = (recordsIn lines).eraseDups
  ids : run.scopes.map (·.id) =
    ((scopesIn lines).map (·.id)).eraseDups ++ run.missingScopeMetadata
  nodup : (run.scopes.map (·.id)).Nodup
  shows : ∀ x ∈ run.scopes, x.id ∉ run.missingScopeMetadata → ∃ l ∈ lives, l.Shows x
  closed : ∀ x ∈ run.scopes,
    x.exitedAt ≠ none ↔ ∃ y ∈ scopesIn lines, y.id = x.id ∧ y.exitedAt ≠ none
  missing : ∀ id, id ∈ run.missingScopeMetadata ↔ id ∉ (scopesIn lines).map (·.id) ∧
    ((∃ y ∈ scopesIn lines, y.parent = some id) ∨ ∃ r ∈ recordsIn lines, r.scope = some id)
  placeholders : ∀ x ∈ run.scopes, x.id ∈ run.missingScopeMetadata → x = placeholder x.id

theorem Recovered.mem_records {lives : List Life} {lines : List RunLine} {run : SavedRun}
    (h : Recovered lives lines run) {x : Record} : x ∈ run.records ↔ x ∈ recordsIn lines := by
  rw [h.records, List.mem_eraseDups]

section
variable {lives : List Life} (hids : (lives.map (·.scope.id)).Nodup)
  (hbelow : ∀ l ∈ lives, ∀ p, l.scope.parent = some p → p.n < l.scope.id.n)
  {pool : List Record} {runId source : Option String} {lines : List RunLine} {b : RunBuilder}
  (h : Gathers lives runId source lines b) (ht : AllTold lives pool lines)

include hids h ht in
/-- The merged scopes have the parents of the copies. -/
theorem Gathers.parents (id : ScopeId) : (∃ x ∈ b.run.scopes, x.parent = some id) ↔
    ∃ y ∈ scopesIn lines, y.parent = some id := by
  have hsame : ∀ x ∈ b.run.scopes, ∀ y ∈ scopesIn lines, x.id = y.id → x.parent = y.parent := by
    intro x hx y hy hid
    obtain ⟨l, hl, hlx⟩ := h.merged.shows x hx
    obtain ⟨line, hline, hscope⟩ := List.mem_filterMap.1 hy
    obtain ⟨l', hl', hly⟩ := (ht line hline).scope y hscope
    have hll : l = l' :=
      List.inj_on_of_nodup_map hids hl hl' (hlx.id.symm.trans (hid.trans hly.id))
    rw [hlx.parent, hly.parent, hll]
  constructor
  · rintro ⟨x, hx, hp⟩
    have hmem : x.id ∈ (scopesIn lines).map (·.id) := by
      rw [← List.mem_eraseDups, ← h.ids]
      exact List.mem_map_of_mem hx
    obtain ⟨y, hy, hid⟩ := List.mem_map.1 hmem
    exact ⟨y, hy, by rw [← hsame x hx y hy hid.symm, hp]⟩
  · rintro ⟨y, hy, hp⟩
    obtain ⟨x, hx, hid, -⟩ := h.merged.found y hy
    exact ⟨x, hx, by rw [hsame x hx y hy hid, hp]⟩

include hids hbelow h ht

/-- **Completing the run** inserts placeholders, and cuts no link. -/
theorem Gathers.finish (headers : List String) : ∃ run, (b.withHeaders headers).finish =
      .ok (run, run.missingScopeMetadata.map (RunBuilder.missingIssue source)) ∧
    run.runId = runId ∧ Recovered lives lines run := by
  have hbelow : ParentsBelow b.run.scopes := by
    intro x hx p hp
    obtain ⟨l, hl, hshows⟩ := h.merged.shows x hx
    rw [hshows.id]
    exact hbelow l hl p (hshows.parent ▸ hp)
  have hrun : completed (b.withHeaders headers).run =
      ⟨runId, headers, (recordsIn lines).eraseDups, b.allScopes, b.missing⟩ := by
    rw [RunBuilder.withHeaders, completed, RunBuilder.allScopes, RunBuilder.missing,
      RunBuilder.withPlaceholders, h.run]
    rfl
  have hall : b.allScopes = b.run.scopes ++ b.missing.map placeholder := rfl
  have hknown : ∀ id, id ∈ b.run.scopes.map (·.id) ↔ id ∈ (scopesIn lines).map (·.id) := by
    intro id
    rw [h.ids, List.mem_eraseDups]
  have hmissing : ∀ id, id ∈ b.missing ↔ id ∉ (scopesIn lines).map (·.id) ∧
      ((∃ y ∈ scopesIn lines, y.parent = some id) ∨ ∃ r ∈ recordsIn lines, r.scope = some id) := by
    intro id
    have hrecords : b.run.records = (recordsIn lines).eraseDups := by rw [h.run]
    rw [RunBuilder.missing, mem_missingOf, hknown, neededScopes, List.mem_append,
      List.mem_filterMap, List.mem_filterMap, h.parents hids ht, hrecords]
    simp only [List.mem_eraseDups]
    exact and_comm
  have hfresh : ∀ x ∈ b.run.scopes, x.id ∉ b.missing := by
    intro x hx hmem
    exact ((hmissing x.id).1 hmem).1 ((hknown x.id).1 (List.mem_map_of_mem hx))
  have hsource : (b.withHeaders headers).source = source := h.source
  have hmissing' : (b.withHeaders headers).missing = b.missing := rfl
  refine ⟨completed (b.withHeaders headers).run, ?_, by rw [hrun], ?_⟩
  · rw [finish_below (h.wf.withHeaders headers) hbelow, hsource, hmissing', hrun]
  · rw [hrun]
    refine ⟨rfl, ?_, RunBuilder.allScopes_nodup h.wf, ?_, ?_, hmissing, ?_⟩
    · rw [RunBuilder.allScopes_ids, h.ids]
    · intro x hx hno
      rw [hall] at hx
      rcases List.mem_append.1 hx with hx | hx
      · exact h.merged.shows x hx
      · obtain ⟨id, hid, rfl⟩ := List.mem_map.1 hx
        exact absurd hid hno
    · intro x hx
      rw [← h.closed x.id]
      rw [hall] at hx
      rcases List.mem_append.1 hx with hx | hx
      · constructor
        · exact fun hclosed => ⟨x, hx, rfl, hclosed⟩
        · rintro ⟨y, hy, hid, hclosed⟩
          have hxy : y = x := List.inj_on_of_nodup_map h.wf.nodup hy hx hid
          exact hxy ▸ hclosed
      · obtain ⟨id, hid, rfl⟩ := List.mem_map.1 hx
        constructor
        · intro hclosed
          exact absurd rfl hclosed
        · rintro ⟨y, hy, hyid, -⟩
          have hy' : y.id = id := hyid
          exact absurd hid (hy' ▸ hfresh y hy)
    · intro x hx hmem
      rw [hall] at hx
      rcases List.mem_append.1 hx with hx | hx
      · exact absurd hmem (hfresh x hx)
      · obtain ⟨id, -, rfl⟩ := List.mem_map.1 hx
        rfl

end

/-! ## Loading -/

/-- **What survived of runs is recovered**, among whatever else the input has:
    each of them once, and none of their lines is reported. -/
theorem load_told_runs {serde : SerdeJson} (hs : serde.Lawful) (runIds : Set String)
    (lives : String → List Life) (pool : String → List Record) {files : List InputFile}
    (hids : ∀ r ∈ runIds, ((lives r).map (·.scope.id)).Nodup)
    (hbelow : ∀ r ∈ runIds, ∀ l ∈ lives r, ∀ p, l.scope.parent = some p → p.n < l.scope.id.n)
    (hpool : ∀ r ∈ runIds, OneEach (pool r))
    (ht : ∀ r ∈ runIds, AllTold (lives r) (pool r) (linesOf serde r files)) :
    ∃ saved, load serde files = .ok saved ∧ saved.QuietAbout serde runIds files ∧
      ∀ r ∈ runIds, linesOf serde r files ≠ [] → ∃ run,
        saved.runs.filter (fun run => run.runId = some r) = [run] ∧
        Recovered (lives r) (linesOf serde r files) run := by
  have hpeace : ∀ r ∈ runIds, Peaceful serde r (linesOf serde r files) := by
    intro r hr xs hxs source
    obtain ⟨b, hgather, -⟩ := gather_told (hids r hr) hs (hpool r hr) (some r) source
      (fun line hline => ht r hr line (hxs.subset hline))
    exact ⟨b, hgather⟩
  obtain ⟨saved, hload, hquiet, hruns⟩ := load_peaceful hs hpeace
  refine ⟨saved, hload, hquiet, ?_⟩
  intro r hr hsome
  obtain ⟨run, source, b, hone, -, hgather, ⟨issues, hfin⟩⟩ := hruns r hr hsome
  refine ⟨run, hone, ?_⟩
  obtain ⟨b', hgather', hb⟩ := gather_told (hids r hr) hs (hpool r hr) (some r) source (ht r hr)
  obtain ⟨rfl, -⟩ := Prod.mk.inj (Except.ok.inj (hgather.symm.trans hgather'))
  obtain ⟨run', hok, -, hrecovered⟩ := hb.finish (hids r hr) (hbelow r hr) (ht r hr) run.headers
  obtain ⟨rfl, -⟩ := Prod.mk.inj (Except.ok.inj (hfin.symm.trans hok))
  exact hrecovered

section
variable {lives : List Life} (hids : (lives.map (·.scope.id)).Nodup)
  (hbelow : ∀ l ∈ lives, ∀ p, l.scope.parent = some p → p.n < l.scope.id.n) {pool : List Record}
  {serde : SerdeJson} (hs : serde.Lawful) (hpool : OneEach pool) {runId : String}

include hids hbelow hs hpool in
theorem load_told {files : List InputFile} (ht : AllTold lives pool (linesOf serde runId files))
    (hsome : linesOf serde runId files ≠ []) : ∃ saved run, load serde files = .ok saved ∧
      saved.runs.filter (fun run => run.runId = some runId) = [run] ∧
      Recovered lives (linesOf serde runId files) run ∧ saved.QuietAbout serde {runId} files := by
  have ht' : ∀ r ∈ ({runId} : Set String), AllTold lives pool (linesOf serde r files) := by
    rintro r rfl
    exact ht
  obtain ⟨saved, hload, hquiet, hruns⟩ := load_told_runs hs {runId} (fun _ => lives)
    (fun _ => pool) (fun _ _ => hids) (fun _ _ => hbelow) (fun _ _ => hpool) ht'
  obtain ⟨run, hone, hrecovered⟩ := hruns runId rfl hsome
  exact ⟨saved, run, hload, hone, hrecovered, hquiet⟩

/-! Input of one run -/

include hids hs hpool

/-- Reading lines of the run that a loader has. -/
theorem foldlM_told {lines : List InputLine} {done : List RunLine} {source : Option String}
    {b : RunBuilder} (hb : Gathers lives (some runId) source done b)
    (hall : ∀ line ∈ lines, line.ofRun serde runId ≠ none)
    (ht : AllTold lives pool (done ++ linesAmong serde runId lines)) :
    ∃ b', lines.foldlM (Loader.readRaw serde) (.single runId b) = .ok (.single runId b') ∧
      Gathers lives (some runId) source (done ++ linesAmong serde runId lines) b' := by
  induction lines generalizing done b with
  | nil => exact ⟨b, rfl, by rwa [linesAmong, List.filterMap_nil, List.append_nil]⟩
  | cons line lines ih =>
    obtain ⟨hline, hlines⟩ := List.forall_mem_cons.1 hall
    obtain ⟨rl, hrl⟩ := Option.ne_none_iff_exists'.1 hline
    have hc := (InputLine.ofRun_eq_some.1 hrl).1
    have hmore : done ++ linesAmong serde runId (line :: lines) =
        done ++ [rl] ++ linesAmong serde runId lines := by
      simp [linesAmong, hrl]
    rw [hmore] at ht ⊢
    obtain ⟨b₁, hmerge, hb₁⟩ := hb.merge hids hs hpool
      (fun x hx => AllTold.recordsIn (fun y hy => ht y (by simp [hy])) hx) (ht rl (by simp))
    obtain ⟨b', hfold, hb'⟩ := ih hb₁ hlines ht
    exact ⟨b', by rw [List.foldlM_cons, readRaw_single hc hmerge, ok_bind, hfold], hb'⟩

include hbelow

/-- **Input of one run alone** loads as that run, and all that is reported are
    the scopes without metadata. -/
theorem load_told_alone {files : List InputFile}
    (ht : AllTold lives pool (linesOf serde runId files)) (hsome : inputLines files ≠ [])
    (hall : ∀ line ∈ inputLines files, line.ofRun serde runId ≠ none) :
    ∃ line ∈ inputLines files, ∃ run, load serde files =
      .ok ⟨[run], run.missingScopeMetadata.map (RunBuilder.missingIssue line.source)⟩ ∧
    run.runId = some runId ∧ Recovered lives (linesOf serde runId files) run := by
  have hread := foldlM_read serde files Loader.new
  rw [linesOf] at ht ⊢
  obtain ⟨line, lines, hlines⟩ := List.exists_cons_of_ne_nil hsome
  rw [hlines] at ht hall hread ⊢
  obtain ⟨hline, hrest⟩ := List.forall_mem_cons.1 hall
  obtain ⟨rl, hrl⟩ := Option.ne_none_iff_exists'.1 hline
  have hfirst : (line :: lines).filterMap (InputLine.ofRun serde runId) =
      [] ++ [rl] ++ linesAmong serde runId lines := by
    simp [linesAmong, hrl]
  rw [hfirst] at ht ⊢
  obtain ⟨b₁, hmerge, hb₁⟩ := (new_gathers lives (some runId) line.source).merge hids hs hpool
    (by simp [recordsIn]) (ht rl (by simp))
  obtain ⟨b, hfold, hb⟩ := foldlM_told hids hs hpool hb₁ hrest ht
  obtain ⟨run, hok, hid, hrecovered⟩ := hb.finish hids hbelow ht []
  have hheaders : b.withHeaders [] = b := by
    rw [← withHeaders_self b, hb.run]
    rfl
  rw [hheaders] at hok
  refine ⟨line, .head _, run, ?_, hid, hrecovered⟩
  rw [load, hread, List.foldlM_cons, readRaw_first (InputLine.ofRun_eq_some.1 hrl).1 hmerge,
    ok_bind, hfold, ok_bind]
  simp [Loader.finish, Loader.allRuns, Loader.single, Loader.finishRun, hok]

end

end Eventline
