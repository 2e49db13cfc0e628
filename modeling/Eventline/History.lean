/-
  Identities over the life of a journal.

  `Issued n m` is the invariant of a journal that has given out `n` scope ids
  and `m` record ids: what it retains is in the order of the ids, parents are
  older than their children, and a scope has at most one exit record, none
  while it is open.  There is one lemma for each operation; ids are distinct as
  long as the counters have not wrapped.
-/
import Eventline.Journal
import Eventline.Replay.Builder

namespace Eventline

open Checked Slots

namespace Journal

/-- The exit record of a scope, and what it observed. -/
abbrev exitOf (r : Record) : Option (ScopeId × Outcome × UInt64) := RunBuilder.exitOf r

structure Issued (j : Journal) (n m : ℕ) : Prop where
  wf : j.WF
  nextScope : j.nextScopeId = UInt64.ofNat n
  nextRecord : j.nextRecordId = UInt64.ofNat m
  scopeIds : j.scopes.Pairwise fun s t => s.id.n < t.id.n
  scopesBefore : ∀ s ∈ j.scopes, s.id.n.toNat < n
  parents : ∀ s ∈ j.scopes, ∀ p, s.parent = some p → p.n < s.id.n
  recordIds : j.records.Pairwise fun r t => r.id.n < t.id.n
  recordsBefore : ∀ r ∈ j.records, r.id.n.toNat < m
  exits : j.records.Pairwise fun r t => ∀ id o o', exitOf r = some (id, o) → exitOf t ≠ some (id, o')
  openNoExit : ∀ s ∈ j.scopes, s.exitedAt = none → ∀ r ∈ j.records, ∀ o, exitOf r ≠ some (s.id, o)
  exitsBefore : ∀ r ∈ j.records, ∀ id o, exitOf r = some (id, o) → id.n.toNat < n
  exitScoped : ∀ r ∈ j.records, (∃ outcome d, r.kind = .scopeExit outcome d) → r.scope ≠ none

/-- A scope after an update that leaves its identity alone, and does not reopen it. -/
def Updates (s s' : Scope) : Prop :=
  s'.id = s.id ∧ s'.parent = s.parent ∧ (s'.exitedAt = none → s.exitedAt = none)

theorem Updates.refl (s : Scope) : Updates s s := ⟨rfl, rfl, id⟩

theorem updates_refl (l : List Scope) : List.Forall₂ Updates l l := by
  induction l with
  | nil => exact .nil
  | cons s l ih => exact .cons (.refl s) ih

theorem updateFirst_updates {p : BufferedScope → Bool} {f : BufferedScope → BufferedScope}
    (h : ∀ b, Updates b.scope (f b).scope) (l : List BufferedScope) :
    List.Forall₂ Updates (l.map (·.scope)) ((updateFirst p f l).map (·.scope)) := by
  induction l with
  | nil => exact .nil
  | cons b l ih =>
    rw [updateFirst]
    split_ifs
    · exact .cons (h b) (updates_refl _)
    · exact .cons (.refl _) ih

theorem setMessages_updates (msgs : ExitMessages) (b : BufferedScope) :
    Updates b.scope (b.setMessages msgs).scope := ⟨rfl, rfl, id⟩

theorem closeIfOpen_updates (millis : UInt64) (now : Instant) (b : BufferedScope) :
    Updates b.scope (Scopes.closeIfOpen millis now b).scope := by
  unfold Scopes.closeIfOpen BufferedScope.close
  split_ifs
  · exact .refl _
  · cases b.clock <;> exact ⟨rfl, rfl, fun h => by cases h⟩

theorem closeIfOpen_isClosed (millis : UInt64) (now : Instant) (b : BufferedScope) :
    Scopes.isClosed (Scopes.closeIfOpen millis now b) = true := by
  unfold Scopes.closeIfOpen
  split_ifs with hcl
  · exact hcl
  · exact Scopes.close_isClosed millis now b

/-- The scope with the id is, after an exit, the one that was found, closed. -/
theorem eq_of_exit {l : List BufferedScope} (hnd : (l.map (·.scope.id)).Nodup) {id : ScopeId}
    {ms : UInt64} {t : Instant} {b : BufferedScope}
    (hb : b ∈ updateFirst (Scopes.hasId id) (Scopes.closeIfOpen ms t) l) (hid : b.scope.id = id) :
    ∃ c, l.find? (Scopes.hasId id) = some c ∧ b = Scopes.closeIfOpen ms t c := by
  have hany : ∃ c ∈ l, Scopes.hasId id c = true := by
    rcases mem_updateFirst hb with hb | ⟨c, hc, hcid, -⟩
    · exact ⟨b, hb, by simpa [Scopes.hasId] using hid⟩
    · exact ⟨c, hc, hcid⟩
  obtain ⟨c, hfind⟩ := Option.isSome_iff_exists.1 (List.find?_isSome.2 hany)
  refine ⟨c, hfind, ?_⟩
  obtain ⟨pre, post, rfl, hc, hpre⟩ := find?_split hfind
  rw [List.map_append, List.map_cons, List.nodup_middle, List.nodup_cons] at hnd
  have hcid : c.scope.id = id := by simpa [Scopes.hasId] using hc
  rw [updateFirst_split hc hpre] at hb
  have hother : ∀ x, x ∈ pre ∨ x ∈ post → x.scope.id ≠ id := by
    intro x hx hxid
    refine hnd.1 ?_
    rw [hcid, ← hxid, List.mem_append]
    rcases hx with hx | hx
    · exact .inl (List.mem_map.2 ⟨x, hx, rfl⟩)
    · exact .inr (List.mem_map.2 ⟨x, hx, rfl⟩)
  rcases List.mem_append.1 hb with hb | hb
  · exact absurd hid (hother b (.inl hb))
  · rcases List.mem_cons.1 hb with rfl | hb
    · rfl
    · exact absurd hid (hother b (.inr hb))

theorem forall₂_updates_ids {l l' : List Scope} (h : List.Forall₂ Updates l l') :
    l'.map (·.id) = l.map (·.id) := by
  induction h with
  | nil => rfl
  | cons hu _ ih => rw [List.map_cons, List.map_cons, hu.1, ih]

theorem pairwise_ids {l : List Scope} :
    (l.Pairwise fun s t => s.id.n < t.id.n) ↔ (l.map (·.id)).Pairwise fun a b => a.n < b.n := by
  rw [List.pairwise_map]

theorem sorted_of_updates {l l' : List Scope} (hup : List.Forall₂ Updates l l')
    (h : l.Pairwise fun s t => s.id.n < t.id.n) : l'.Pairwise fun s t => s.id.n < t.id.n := by
  rw [pairwise_ids, forall₂_updates_ids hup, ← pairwise_ids]
  exact h

theorem new_issued (runId : String) : (new runId).Issued 0 0 where
  wf := new_wf runId
  nextScope := rfl
  nextRecord := rfl
  scopeIds := .nil
  scopesBefore _ h := by cases h
  parents _ h := by cases h
  recordIds := .nil
  recordsBefore _ h := by cases h
  exits := .nil
  openNoExit _ h := by cases h
  exitsBefore _ h := by cases h
  exitScoped _ h := by cases h

section
variable {j j' : Journal} {n m : ℕ} (h : j.Issued n m)
include h

/-- Only the buffer and the counters matter. -/
theorem Issued.of_eq (hb : j'.buffer = j.buffer) (hs : j'.nextScopeId = j.nextScopeId)
    (hr : j'.nextRecordId = j.nextRecordId) : j'.Issued n m := by
  obtain ⟨runId, buffer, writer, next, nextRecord, current⟩ := j
  obtain ⟨runId', buffer', writer', next', nextRecord', current'⟩ := j'
  obtain rfl := hb
  obtain rfl := hs
  obtain rfl := hr
  exact ⟨⟨h.wf.records, h.wf.scopes⟩, h.nextScope, h.nextRecord, h.scopeIds, h.scopesBefore,
    h.parents, h.recordIds, h.recordsBefore, h.exits, h.openNoExit, h.exitsBefore,
    h.exitScoped⟩

theorem Issued.scope_nodup : (j.scopes.map (·.id)).Nodup := by
  refine (pairwise_ids.1 h.scopeIds).imp ?_
  rintro a b hlt rfl
  exact absurd hlt (UInt64.lt_irrefl _)

/-- **Entering** gives out the next scope id. -/
theorem Issued.enter (hn : n < 2 ^ 64) {name : Option String} {parent : Option ScopeId}
    {t : Instant} {ms : UInt64} {id : ScopeId} (hp : ∀ p, parent = some p → p.n.toNat < n)
    (he : j.pushScope name parent t ms = .ok (j', id)) :
    j'.Issued (n + 1) m ∧ id.n.toNat = n ∧
      j'.scopes = j.scopes ++ [⟨id, parent, ms, name, none, .none⟩] ∧ j'.records = j.records := by
  obtain ⟨hwf, hid, hret, hrec, hnext, hnextr, -, -⟩ := pushScope_inv h.wf he
  have hidn : id.n.toNat = n := by
    rw [hid, h.nextScope]
    exact UInt64.toNat_ofNat_of_lt' hn
  have hscopes : j'.scopes = j.scopes ++ [⟨id, parent, ms, name, none, .none⟩] := by
    rw [scopes_eq, hret, List.map_append]
    rfl
  have hrecords : j'.records = j.records := by rw [records, records, hrec]
  have hnewest : ∀ s ∈ j.scopes, s.id.n < id.n := by
    intro s hs
    rw [UInt64.lt_iff_toNat_lt, hidn]
    exact h.scopesBefore s hs
  refine ⟨⟨hwf, ?_, ?_, ?_, ?_, ?_, ?_, ?_, ?_, ?_, ?_, ?_⟩, hidn, hscopes, hrecords⟩
  · rw [hnext, h.nextScope, UInt64.ofNat_add]
    rfl
  · rw [hnextr, h.nextRecord]
  · rw [hscopes, List.pairwise_append]
    refine ⟨h.scopeIds, List.pairwise_singleton _ _, ?_⟩
    intro s hs t ht
    rw [List.mem_singleton.1 ht]
    exact hnewest s hs
  · intro s hs
    rw [hscopes] at hs
    rcases List.mem_append.1 hs with hs | hs
    · exact (h.scopesBefore s hs).trans (Nat.lt_succ_self n)
    · rw [List.mem_singleton.1 hs]
      exact hidn ▸ Nat.lt_succ_self n
  · intro s hs p hsp
    rw [hscopes] at hs
    rcases List.mem_append.1 hs with hs | hs
    · exact h.parents s hs p hsp
    · rw [List.mem_singleton.1 hs] at hsp ⊢
      rw [UInt64.lt_iff_toNat_lt, hidn]
      exact hp p hsp
  · rw [hrecords]
    exact h.recordIds
  · rw [hrecords]
    exact h.recordsBefore
  · rw [hrecords]
    exact h.exits
  · intro s hs hopen r hr o
    rw [hscopes] at hs
    rw [hrecords] at hr
    rcases List.mem_append.1 hs with hs | hs
    · exact h.openNoExit s hs hopen r hr o
    · -- the exits so far are of older scopes
      rw [List.mem_singleton.1 hs]
      intro hro
      have hlt := h.exitsBefore r hr id o hro
      omega
  · intro r hr id' o hro
    rw [hrecords] at hr
    exact (h.exitsBefore r hr id' o hro).trans (Nat.lt_succ_self n)
  · rw [hrecords]
    exact h.exitScoped

/-- What is retained is of what was; record ids may have been used up. -/
theorem Issued.retain {m' : ℕ} (hwf : j'.WF) (hnexts : j'.nextScopeId = j.nextScopeId)
    (hnextr : j'.nextRecordId = UInt64.ofNat m') (hle : m ≤ m')
    (hscopes : j'.scopes.Pairwise fun s t => s.id.n < t.id.n)
    (hold : ∀ s' ∈ j'.scopes, ∃ s ∈ j.scopes, Updates s s')
    (hrecords : j'.records.Sublist j.records) : j'.Issued n m' := by
  refine ⟨hwf, by rw [hnexts, h.nextScope], hnextr, hscopes, ?_, ?_, h.recordIds.sublist hrecords,
    ?_, h.exits.sublist hrecords, ?_, ?_, ?_⟩
  · intro s' hs'
    obtain ⟨s, hs, hu⟩ := hold s' hs'
    rw [hu.1]
    exact h.scopesBefore s hs
  · intro s' hs' p hp
    obtain ⟨s, hs, hu⟩ := hold s' hs'
    rw [hu.1]
    exact h.parents s hs p (hu.2.1 ▸ hp)
  · intro r hr
    exact (h.recordsBefore r (hrecords.subset hr)).trans_le hle
  · intro s' hs' hopen r hr o hro
    obtain ⟨s, hs, hu⟩ := hold s' hs'
    rw [hu.1] at hro
    exact h.openNoExit s hs (hu.2.2 hopen) r (hrecords.subset hr) o hro
  · intro r hr id o hro
    exact h.exitsBefore r (hrecords.subset hr) id o hro
  · intro r hr
    exact h.exitScoped r (hrecords.subset hr)

/-- A record appended with the next record id. -/
theorem Issued.append_record (hm : m < 2 ^ 64) {r : Record} {scopes' : List Scope}
    (hwf : j'.WF) (hrecords : j'.records = j.records ++ [r]) (hid : r.id.n = j.nextRecordId)
    (hnexts : j'.nextScopeId = j.nextScopeId) (hnextr : j'.nextRecordId = j.nextRecordId + 1)
    (hscopes : j'.scopes = scopes') (hup : List.Forall₂ Updates j.scopes scopes')
    (hexit : ∀ id o, exitOf r = some (id, o) → id.n.toNat < n ∧
      (∀ x ∈ j.records, ∀ o', exitOf x ≠ some (id, o')) ∧
      ∀ s ∈ scopes', s.exitedAt = none → s.id ≠ id)
    (hscoped : (∃ outcome d, r.kind = .scopeExit outcome d) → r.scope ≠ none) :
    j'.Issued n (m + 1) := by
  subst hscopes
  have hidn : r.id.n.toNat = m := by
    rw [hid, h.nextRecord]
    exact UInt64.toNat_ofNat_of_lt' hm
  refine ⟨hwf, ?_, ?_, ?_, ?_, ?_, ?_, ?_, ?_, ?_, ?_, ?_⟩
  · rw [hnexts, h.nextScope]
  · rw [hnextr, h.nextRecord, UInt64.ofNat_add]
    rfl
  · exact sorted_of_updates hup h.scopeIds
  · intro s' hs'
    obtain ⟨s, hs, hu⟩ := forall₂_mem_right hup hs'
    rw [hu.1]
    exact h.scopesBefore s hs
  · intro s' hs' p hp
    obtain ⟨s, hs, hu⟩ := forall₂_mem_right hup hs'
    rw [hu.1]
    exact h.parents s hs p (hu.2.1 ▸ hp)
  · rw [hrecords, List.pairwise_append]
    refine ⟨h.recordIds, List.pairwise_singleton _ _, ?_⟩
    intro x hx y hy
    rw [List.mem_singleton.1 hy, UInt64.lt_iff_toNat_lt, hidn]
    exact h.recordsBefore x hx
  · intro x hx
    rw [hrecords] at hx
    rcases List.mem_append.1 hx with hx | hx
    · exact (h.recordsBefore x hx).trans (Nat.lt_succ_self m)
    · rw [List.mem_singleton.1 hx, hidn]
      exact Nat.lt_succ_self m
  · rw [hrecords, List.pairwise_append]
    refine ⟨h.exits, List.pairwise_singleton _ _, ?_⟩
    intro x hx y hy id o o' hxo hyo
    rw [List.mem_singleton.1 hy] at hyo
    exact (hexit id o' hyo).2.1 x hx o hxo
  · intro s' hs' hopen x hx o hxo
    rw [hrecords] at hx
    rcases List.mem_append.1 hx with hx | hx
    · obtain ⟨s, hs, hu⟩ := forall₂_mem_right hup hs'
      rw [hu.1] at hxo
      exact h.openNoExit s hs (hu.2.2 hopen) x hx o hxo
    · rw [List.mem_singleton.1 hx] at hxo
      exact (hexit _ o hxo).2.2 s' hs' hopen rfl
  · intro x hx id o hxo
    rw [hrecords] at hx
    rcases List.mem_append.1 hx with hx | hx
    · exact h.exitsBefore x hx id o hxo
    · rw [List.mem_singleton.1 hx] at hxo
      exact (hexit id o hxo).1
  · intro x hx
    rw [hrecords] at hx
    rcases List.mem_append.1 hx with hx | hx
    · exact h.exitScoped x hx
    · rw [List.mem_singleton.1 hx]
      exact hscoped

/-- **Recording** gives out the next record id. -/
theorem Issued.record (hm : m < 2 ^ 64) {kind : EventKind} {name : String} {fields : Fields}
    {scopeId : Option ScopeId} {ns : UInt64} {id : RecordId} {record : Record}
    {scope : Option Scope}
    (he : j.recordNoWriteInScope kind name fields scopeId ns = .ok (j', id, record, scope)) :
    j'.Issued n (m + 1) ∧ id.n.toNat = m ∧ j'.scopes = j.scopes ∧
      j'.records = j.records ++ [record] := by
  obtain ⟨records, rfl, hwf, hents, hid, hrec, -⟩ := recordNoWriteInScope_inv h.wf he
  have hrecid : record.id = id := by rw [hrec]
  refine ⟨h.append_record hm (r := record) ⟨hwf, h.wf.scopes⟩ hents ?_ rfl rfl rfl
    (updates_refl _) ?_ ?_, ?_, rfl, hents⟩
  · rw [hrecid, hid]
  · intro id o hex
    rw [hrec] at hex
    cases hex
  · rw [hrec]
    rintro ⟨_, _, hk⟩
    cases hk
  · rw [hid, h.nextRecord]
    exact UInt64.toNat_ofNat_of_lt' hm

/-- **Exiting** takes a record id; the record of an exit is its scope's first. -/
theorem Issued.exit (hm : m < 2 ^ 64) {scopeId : ScopeId} {outcome : Outcome} {t : Instant}
    {ms ns : UInt64} {id : RecordId} {payload : Option (Record × Scope)}
    (he : j.exitScopeNoWrite scopeId outcome t ms ns = .ok (j', id, payload)) :
    j'.Issued n (m + 1) ∧ id.n.toNat = m := by
  obtain ⟨hwf, hid, hnextr, hnexts, -, -, hret, hcase⟩ := exitScopeNoWrite_inv h.wf he
  have hscopes : j'.scopes = (updateFirst (Scopes.hasId scopeId) (Scopes.closeIfOpen ms t)
      j.retained).map (·.scope) := by rw [scopes_eq, hret]
  have hup := updateFirst_updates (p := Scopes.hasId scopeId) (closeIfOpen_updates ms t) j.retained
  refine ⟨?_, by rw [hid, h.nextRecord]; exact UInt64.toNat_ofNat_of_lt' hm⟩
  cases hc : (j.retained.find? (Scopes.hasId scopeId)).bind (Scopes.exitOf ms t) with
  | none =>
    rw [hc] at hcase
    refine h.retain hwf hnexts (by rw [hnextr, h.nextRecord, UInt64.ofNat_add]; rfl)
      (Nat.le_succ m) ?_ ?_ (by rw [hcase.2.1])
    · rw [hscopes]
      exact sorted_of_updates hup h.scopeIds
    · intro s' hs'
      rw [hscopes] at hs'
      exact forall₂_mem_right hup hs'
  | some closed =>
    rw [hc] at hcase
    obtain ⟨record, -, hrec, hrecords, -⟩ := hcase
    refine h.append_record hm (r := record) hwf hrecords (by rw [hrec, hid]) hnexts hnextr hscopes hup ?_
      (by rw [hrec]; simp)
    obtain ⟨b, hb, hex⟩ := Option.bind_eq_some_iff.1 hc
    have hbid : b.scope.id = scopeId := by simpa [Scopes.hasId] using List.find?_some hb
    have hbs : b.scope ∈ j.scopes := List.mem_map.2 ⟨b, List.mem_of_find?_eq_some hb, rfl⟩
    have hopen : b.scope.exitedAt = none := by
      unfold Scopes.exitOf at hex
      split_ifs at hex with hcl
      simpa [Scopes.isClosed] using hcl
    intro id' o hobs
    obtain ⟨rfl, -⟩ : scopeId = id' ∧ _ := by
      rw [hrec] at hobs
      exact Prod.mk.inj (Option.some.inj hobs)
    refine ⟨?_, ?_, ?_⟩
    · rw [← hbid]
      exact h.scopesBefore _ hbs
    · rw [← hbid]
      exact h.openNoExit _ hbs hopen
    · intro s hs hso hsid
      obtain ⟨b', hb', rfl⟩ := List.mem_map.1 hs
      have hnd : (j.retained.map (·.scope.id)).Nodup := by
        have hids := h.scope_nodup
        rwa [scopes_eq, List.map_map] at hids
      obtain ⟨c, -, rfl⟩ := eq_of_exit hnd hb' hsid
      have hcl := closeIfOpen_isClosed ms t c
      rw [Scopes.isClosed, hso] at hcl
      cases hcl

theorem Issued.messages {id : ScopeId} {msgs : ExitMessages} {found : Bool}
    (he : j.setScopeExitMessages id msgs = .ok (j', found)) : j'.Issued n m := by
  obtain ⟨scopes, found', hok, hwf, hret⟩ := setScopeExitMessages_ok h.wf id msgs
  rw [hok] at he
  obtain ⟨rfl, -⟩ := Prod.mk.inj (Except.ok.inj he)
  have hup := updateFirst_updates (p := Scopes.hasId id) (setMessages_updates msgs) j.retained
  rw [← hret] at hup
  refine h.retain ⟨h.wf.records, hwf⟩ rfl h.nextRecord le_rfl ?_ ?_ (List.Sublist.refl _)
  · exact sorted_of_updates hup h.scopeIds
  · intro s' hs'
    exact forall₂_mem_right hup hs'

theorem Issued.trimmedRecords {max : ℕ} (he : j.trimRecords max = .ok j') : j'.Issued n m := by
  obtain ⟨records, hok, hwf, hents⟩ := trimRecords_ok h.wf max
  rw [hok] at he
  obtain rfl := Except.ok.inj he
  refine h.retain ⟨hwf, h.wf.scopes⟩ rfl h.nextRecord le_rfl h.scopeIds
    (fun s hs => ⟨s, hs, .refl s⟩) ?_
  have hdrop := List.drop_sublist (j.records.length - max) j.records
  rwa [← hents] at hdrop

theorem Issued.trimmedScopes {max : ℕ} (he : j.trimScopes max = .ok j') : j'.Issued n m := by
  obtain ⟨scopes, hok, hwf, hret⟩ := trimScopes_ok h.wf max
  rw [hok] at he
  obtain rfl := Except.ok.inj he
  have hsub : (scopes.retained.map (·.scope)).Sublist j.scopes := by
    rw [scopes_eq, hret]
    exact (dropFirst_sublist _ _).map _
  exact h.retain ⟨h.wf.records, hwf⟩ rfl h.nextRecord le_rfl (h.scopeIds.sublist hsub)
    (fun s hs => ⟨s, hsub.subset hs, .refl s⟩) (List.Sublist.refl _)

theorem Issued.cleared : j.clear.Issued n m :=
  h.retain (clear_wf j) rfl h.nextRecord le_rfl .nil (fun s hs => by cases hs)
    (List.nil_sublist _)

end

end Journal

/-! ## Runs of a journal -/

/-- The calls on a journal, with the clock readings they make. -/
inductive JournalOp where
  | enterScope (name : String) (startedAt : Instant) (millis : UInt64)
  | enterScopeWithParent (name : String) (parent : Option ScopeId) (startedAt : Instant)
    (millis : UInt64)
  | enterScopeUnnamed (parent : Option ScopeId) (startedAt : Instant) (millis : UInt64)
  | record (kind : EventKind) (name : String) (fields : Fields) (nanos : UInt64)
  | setScopeExitMessages (id : ScopeId) (msgs : ExitMessages)
  | exitScope (id : ScopeId) (outcome : Outcome) (finishedAt : Instant) (millis nanos : UInt64)
  | trimRecords (max : ℕ)
  | trimScopes (max : ℕ)
  | clear

namespace JournalOp

def apply (j : Journal) : JournalOp → Checked Journal
  | enterScope name t ms => Prod.fst <$> j.enterScope name t ms
  | enterScopeWithParent name parent t ms => Prod.fst <$> j.enterScopeWithParent name parent t ms
  | enterScopeUnnamed parent t ms => Prod.fst <$> j.enterScopeUnnamed parent t ms
  | record kind name fields ns => Prod.fst <$> j.record kind name fields ns
  | setScopeExitMessages id msgs => Prod.fst <$> j.setScopeExitMessages id msgs
  | exitScope id outcome t ms ns => Prod.fst <$> j.exitScope id outcome t ms ns
  | trimRecords max => j.trimRecords max
  | trimScopes max => j.trimScopes max
  | clear => pure j.clear

/-- How many scope ids a call takes. -/
def entered : JournalOp → ℕ
  | enterScope .. | enterScopeWithParent .. | enterScopeUnnamed .. => 1
  | _ => 0

/-- How many record ids a call takes. -/
def recorded : JournalOp → ℕ
  | record .. | exitScope .. => 1
  | _ => 0

/-- The parent that a call names. -/
def parent : JournalOp → Option ScopeId
  | enterScopeWithParent _ parent _ _ | enterScopeUnnamed parent _ _ => parent
  | _ => none

end JournalOp

/-- A journal, and how many ids it has given out. -/
structure History where
  journal : Journal
  entered : ℕ
  recorded : ℕ

namespace History

def new (runId : String) : History := ⟨.new runId, 0, 0⟩

def step (h : History) (op : JournalOp) : Checked History := do
  let journal ← op.apply h.journal
  pure ⟨journal, h.entered + op.entered, h.recorded + op.recorded⟩

/-- The parent that a call names is an id of this journal. -/
def Allowed (h : History) (op : JournalOp) : Prop :=
  ∀ p, op.parent = some p → ∃ k < h.entered, p = ⟨UInt64.ofNat k⟩

/-- The states that calls lead to. -/
inductive Reachable (runId : String) : History → Prop
  | new : Reachable runId (new runId)
  | step {h h' : History} {op : JournalOp} : Reachable runId h → h.Allowed op → h.step op = .ok h' →
      Reachable runId h'

structure Inv (runId : String) (h : History) : Prop where
  issued : h.journal.Issued h.entered h.recorded
  current : ∀ c, h.journal.currentScope = some c → c.n.toNat < h.entered
  runId : h.journal.runId = runId

section
variable {runId : String} {h h' : History} (hi : h.Inv runId)
include hi

/-- Entering under a parent that has been given out; `current` is the scope that
    is current then. -/
theorem Inv.enter (hn : h.entered < 2 ^ 64) {name : Option String} {parent : Option ScopeId}
    {t : Instant} {ms : UInt64} {j : Journal} {id : ScopeId}
    (hp : ∀ p, parent = some p → p.n.toNat < h.entered)
    (he : h.journal.pushScope name parent t ms = .ok (j, id)) {current : Option ScopeId}
    (hc : current = j.currentScope ∨ current = some id) :
    Inv runId ⟨{ j with currentScope := current }, h.entered + 1, h.recorded⟩ := by
  obtain ⟨hissued, hid, -, -⟩ := hi.issued.enter hn hp he
  obtain ⟨-, -, -, -, -, -, hcur, hrun⟩ := Journal.pushScope_inv hi.issued.wf he
  refine ⟨hissued.of_eq rfl rfl rfl, ?_, by rw [← hi.runId, ← hrun]⟩
  intro c hcc
  rcases hc with hc | hc
  · have hcj : h.journal.currentScope = some c := by rw [← hcur, ← hc, ← hcc]
    exact (hi.current c hcj).trans (Nat.lt_succ_self _)
  · obtain rfl : c = id := Option.some.inj (hcc.symm.trans hc)
    exact hid ▸ Nat.lt_succ_self _

theorem Inv.record (hm : h.recorded < 2 ^ 64) {kind : EventKind} {name : String} {fields : Fields}
    {ns : UInt64} {j : Journal} {id : RecordId} (he : h.journal.record kind name fields ns = .ok (j, id)) :
    Inv runId ⟨j, h.entered, h.recorded + 1⟩ := by
  obtain ⟨⟨j₁, id₁, record, scope⟩, hrec, he⟩ := bind_eq_ok.1 he
  obtain ⟨rfl, -⟩ := Prod.mk.inj (Except.ok.inj he)
  obtain ⟨hissued, -⟩ := hi.issued.record hm hrec
  obtain ⟨records, rfl, -⟩ := Journal.recordNoWriteInScope_inv hi.issued.wf hrec
  exact ⟨hissued.of_eq rfl rfl rfl, hi.current, hi.runId⟩

theorem Inv.exit (hm : h.recorded < 2 ^ 64) {scopeId : ScopeId} {outcome : Outcome} {t : Instant}
    {ms ns : UInt64} {j : Journal} {id : RecordId}
    (he : h.journal.exitScope scopeId outcome t ms ns = .ok (j, id)) :
    Inv runId ⟨j, h.entered, h.recorded + 1⟩ := by
  obtain ⟨⟨j₁, id₁, payload⟩, hexit, he⟩ := bind_eq_ok.1 he
  obtain ⟨hj, -⟩ := Prod.mk.inj (Except.ok.inj he)
  obtain ⟨hissued, -⟩ := hi.issued.exit hm hexit
  obtain ⟨-, -, -, -, hrun, -, -, hcase⟩ := Journal.exitScopeNoWrite_inv hi.issued.wf hexit
  have hwrite : ∃ w, j = { j₁ with writer := w } := by
    rw [← hj]
    cases payload with
    | none => exact ⟨j₁.writer, rfl⟩
    | some p => exact ⟨_, rfl⟩
  obtain ⟨w, rfl⟩ := hwrite
  refine ⟨hissued.of_eq rfl rfl rfl, ?_, hrun.trans hi.runId⟩
  intro c hc
  cases hx : (h.journal.retained.find? (Scopes.hasId scopeId)).bind (Scopes.exitOf ms t) with
  | none =>
    rw [hx] at hcase
    exact hi.current c (hcase.2.2 ▸ hc)
  | some closed =>
    rw [hx] at hcase
    obtain ⟨record, -, -, -, hcur⟩ := hcase
    have hc' : j₁.currentScope = some c := hc
    rw [hcur] at hc'
    split_ifs at hc'
    · -- the parent of the scope that was current
      obtain ⟨b, hb, hex⟩ := Option.bind_eq_some_iff.1 hx
      have hbs : b.scope ∈ h.journal.scopes :=
        List.mem_map.2 ⟨b, List.mem_of_find?_eq_some hb, rfl⟩
      have hparent : closed.1.parent = b.scope.parent := by
        unfold Scopes.exitOf BufferedScope.close at hex
        split_ifs at hex
        rw [← Option.some.inj hex]
        cases b.clock <;> rfl
      have hlt := hi.issued.parents _ hbs c (hparent ▸ hc')
      rw [UInt64.lt_iff_toNat_lt] at hlt
      exact hlt.trans (hi.issued.scopesBefore _ hbs)
    · exact hi.current c hc'

/-- **Every call keeps the invariant**, while the counters have not wrapped. -/
theorem Inv.step {op : JournalOp} (ha : h.Allowed op) (hs : h.step op = .ok h')
    (hn : h'.entered ≤ 2 ^ 64) (hm : h'.recorded ≤ 2 ^ 64) : h'.Inv runId := by
  obtain ⟨j, hj, hs⟩ := bind_eq_ok.1 hs
  obtain rfl := Except.ok.inj hs
  have hparent : ∀ p, op.parent = some p → p.n.toNat < h.entered := by
    intro p hp
    obtain ⟨k, hk, rfl⟩ := ha p hp
    rw [UInt64.toNat_ofNat_of_lt' (by simp only [UInt64.size]; dsimp only at hn; omega)]
    exact hk
  cases op with
  | enterScope name t ms =>
    obtain ⟨⟨j₁, id⟩, he, rfl⟩ := map_eq_ok.1 hj
    obtain ⟨⟨j₂, id₂⟩, hpush, he⟩ := bind_eq_ok.1 he
    obtain ⟨rfl, rfl⟩ := Prod.mk.inj (Except.ok.inj he)
    exact hi.enter hn hi.current hpush (.inr rfl)
  | enterScopeWithParent name parent t ms =>
    obtain ⟨⟨j₁, id⟩, he, rfl⟩ := map_eq_ok.1 hj
    exact hi.enter hn hparent he (.inl rfl)
  | enterScopeUnnamed parent t ms =>
    obtain ⟨⟨j₁, id⟩, he, rfl⟩ := map_eq_ok.1 hj
    obtain ⟨⟨j₂, id₂⟩, hpush, he⟩ := bind_eq_ok.1 he
    obtain ⟨rfl, rfl⟩ := Prod.mk.inj (Except.ok.inj he)
    refine hi.enter hn ?_ hpush (.inr rfl)
    intro p hp
    rcases Option.or_eq_some_iff.1 hp with hp | ⟨-, hp⟩
    · exact hparent p hp
    · exact hi.current p hp
  | record kind name fields ns =>
    obtain ⟨⟨j₁, id⟩, he, rfl⟩ := map_eq_ok.1 hj
    exact hi.record hm he
  | setScopeExitMessages id msgs =>
    obtain ⟨⟨j₁, found⟩, he, rfl⟩ := map_eq_ok.1 hj
    obtain ⟨scopes, _, hok, -, -⟩ := Journal.setScopeExitMessages_ok hi.issued.wf id msgs
    have hissued := hi.issued.messages he
    rw [hok] at he
    obtain ⟨rfl, -⟩ := Prod.mk.inj (Except.ok.inj he)
    exact ⟨hissued, hi.current, hi.runId⟩
  | exitScope id outcome t ms ns =>
    obtain ⟨⟨j₁, _⟩, he, rfl⟩ := map_eq_ok.1 hj
    exact hi.exit hm he
  | trimRecords max =>
    have hissued := hi.issued.trimmedRecords hj
    obtain ⟨records, hok, -⟩ := Journal.trimRecords_ok hi.issued.wf max
    rw [JournalOp.apply, hok] at hj
    obtain rfl := Except.ok.inj hj
    exact ⟨hissued, hi.current, hi.runId⟩
  | trimScopes max =>
    have hissued := hi.issued.trimmedScopes hj
    obtain ⟨scopes, hok, -⟩ := Journal.trimScopes_ok hi.issued.wf max
    rw [JournalOp.apply, hok] at hj
    obtain rfl := Except.ok.inj hj
    exact ⟨hissued, hi.current, hi.runId⟩
  | clear =>
    obtain rfl := Except.ok.inj hj
    exact ⟨hi.issued.cleared, by simp [Journal.clear], hi.runId⟩

end

/-- **Every reachable journal** whose counters have not wrapped has the invariant. -/
theorem Reachable.inv {runId : String} {h : History} (hr : Reachable runId h)
    (hn : h.entered ≤ 2 ^ 64) (hm : h.recorded ≤ 2 ^ 64) : h.Inv runId := by
  induction hr with
  | new => exact ⟨Journal.new_issued runId, by simp [History.new, Journal.new], rfl⟩
  | @step h h' op _ ha hs ih =>
    obtain ⟨j, -, hs'⟩ := bind_eq_ok.1 hs
    have hcounts := Except.ok.inj hs'
    have hle : h.entered ≤ h'.entered ∧ h.recorded ≤ h'.recorded := by
      rw [← hcounts]
      exact ⟨Nat.le_add_right _ _, Nat.le_add_right _ _⟩
    exact (ih (hle.1.trans hn) (hle.2.trans hm)).step ha hs hn hm

end History

end Eventline
