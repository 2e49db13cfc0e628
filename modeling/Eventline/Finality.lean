/-
  Scopes are finalised once, and what a journal holds is in the order of the
  ids it has handed out.

  * `Final`: the invariant of a run of calls, over everything pushed so far and
    not only what is still held.
  * `Frozen`: the clock of a scope that has been exited stands, until the scope
    is evicted.
  * `scopes_finalised_once`: both, for every run whose counters have not wrapped.
-/
import Eventline.Calls

namespace Eventline

open Checked Slots Journal

namespace JournalRun

/-- The first `n` ids of a counter. -/
def firstIds {α : Type} (mk : UInt64 → α) (n : ℕ) : List α :=
  (List.range n).map fun k => mk (UInt64.ofNat k)

structure Final (s : JournalRun) : Prop where
  wf : s.journal.WF
  entered : s.entered = firstIds ScopeId.mk s.entered.length
  taken : s.taken = firstIds RecordId.mk s.taken.length
  nextScope : s.journal.nextScopeId = UInt64.ofNat s.entered.length
  nextRecord : s.journal.nextRecordId = UInt64.ofNat s.taken.length
  scopeIds : (s.journal.retained.map (·.scope.id)).Pairwise fun a b => a.n < b.n
  scopesBefore : ∀ b ∈ s.journal.retained, b.scope.id.n.toNat < s.entered.length
  recordIds : s.pushed.Pairwise fun r t => r.id.n < t.id.n
  recordsBefore : ∀ r ∈ s.pushed, r.id.n.toNat < s.taken.length
  records : s.journal.records.Sublist s.pushed
  exits : s.pushed.Pairwise fun r t => ∀ id o o', exitOf r = some (id, o) → exitOf t ≠ some (id, o')
  openNoExit : ∀ b ∈ s.journal.retained, Scopes.isClosed b = false →
    ∀ r ∈ s.pushed, ∀ o, exitOf r ≠ some (b.scope.id, o)
  exitsBefore : ∀ r ∈ s.pushed, ∀ id o, exitOf r = some (id, o) → id.n.toNat < s.entered.length
  clocks : ∀ b ∈ s.journal.retained, ∃ c, b.clock = some c ∧ c.finished.isSome = Scopes.isClosed b

theorem new_final (runId : String) : (new runId).Final where
  wf := new_wf runId
  entered := rfl
  taken := rfl
  nextScope := rfl
  nextRecord := rfl
  scopeIds := .nil
  scopesBefore _ h := by cases h
  recordIds := .nil
  recordsBefore _ h := by cases h
  records := .slnil
  exits := .nil
  openNoExit _ h := by cases h
  exitsBefore _ h := by cases h
  clocks _ h := by cases h

theorem firstIds_succ {α : Type} (mk : UInt64 → α) (n : ℕ) :
    firstIds mk (n + 1) = firstIds mk n ++ [mk (UInt64.ofNat n)] := by
  rw [firstIds, List.range_succ, List.map_append]
  rfl

/-! ## What one call does to a run -/

variable {s s' : JournalRun} {c : JournalCall}

/-- Ids are only ever added. -/
theorem step_counts (hs : s.step c = some s') :
    s.entered.length ≤ s'.entered.length ∧ s.taken.length ≤ s'.taken.length := by
  obtain ⟨⟨j, ticket⟩, -, rfl⟩ := Option.map_eq_some_iff.1 hs
  constructor
  · rw [List.length_append]
    exact Nat.le_add_right _ _
  · rw [List.length_append]
    exact Nat.le_add_right _ _

theorem run_counts {calls : List JournalCall} (hs : Machine.run step s calls = some s') :
    s.entered.length ≤ s'.entered.length ∧ s.taken.length ≤ s'.taken.length := by
  refine Machine.run_invariant
    (I := fun t => s.entered.length ≤ t.entered.length ∧ s.taken.length ≤ t.taken.length)
    ?_ hs ⟨le_rfl, le_rfl⟩
  intro t c u ht hu
  have hle := step_counts hu
  exact ⟨ht.1.trans hle.1, ht.2.trans hle.2⟩

section
variable (h : s.Final)
include h

/-- Entering. -/
theorem Final.enter (hn : s.entered.length < 2 ^ 64) {b : BufferedScope} {t : Instant}
    (hwf : s'.journal.WF) (hid : b.scope.id = ⟨s.journal.nextScopeId⟩)
    (hopen : Scopes.isClosed b = false) (hclock : b.clock = some ⟨t, none⟩)
    (hret : s'.journal.retained = s.journal.retained ++ [b])
    (hrec : s'.journal.records = s.journal.records)
    (hnexts : s'.journal.nextScopeId = s.journal.nextScopeId + 1)
    (hnextr : s'.journal.nextRecordId = s.journal.nextRecordId)
    (hent : s'.entered = s.entered ++ [b.scope.id]) (htaken : s'.taken = s.taken)
    (hpushed : s'.pushed = s.pushed) : s'.Final := by
  have hidn : b.scope.id.n.toNat = s.entered.length := by
    rw [hid, h.nextScope]
    exact UInt64.toNat_ofNat_of_lt' hn
  have hlen : s'.entered.length = s.entered.length + 1 := by rw [hent]; simp
  have hmem : ∀ x ∈ s'.journal.retained, x ∈ s.journal.retained ∨ x = b := by
    intro x hx
    rw [hret, List.mem_append, List.mem_singleton] at hx
    exact hx
  refine ⟨hwf, ?_, ?_, ?_, ?_, ?_, ?_, ?_, ?_, ?_, ?_, ?_, ?_, ?_⟩
  · rw [hlen, firstIds_succ, ← h.entered, hent, hid, h.nextScope]
  · rw [htaken]
    exact h.taken
  · rw [hnexts, h.nextScope, hlen, UInt64.ofNat_add]
    rfl
  · rw [hnextr, h.nextRecord, htaken]
  · rw [hret, List.map_append, List.pairwise_append]
    refine ⟨h.scopeIds, List.pairwise_singleton _ _, ?_⟩
    intro x hx y hy
    obtain ⟨a, ha, rfl⟩ := List.mem_map.1 hx
    rw [List.map_singleton, List.mem_singleton] at hy
    rw [hy, UInt64.lt_iff_toNat_lt, hidn]
    exact h.scopesBefore a ha
  · intro x hx
    rw [hlen]
    rcases hmem x hx with hx | rfl
    · exact (h.scopesBefore x hx).trans (Nat.lt_succ_self _)
    · exact hidn ▸ Nat.lt_succ_self _
  · rw [hpushed]
    exact h.recordIds
  · rw [hpushed, htaken]
    exact h.recordsBefore
  · rw [hpushed, hrec]
    exact h.records
  · rw [hpushed]
    exact h.exits
  · intro x hx hxopen r hr o
    rw [hpushed] at hr
    rcases hmem x hx with hx | rfl
    · exact h.openNoExit x hx hxopen r hr o
    · -- the exits so far are of older scopes
      intro hro
      have hlt := h.exitsBefore r hr _ o hro
      omega
  · intro r hr id o hro
    rw [hpushed] at hr
    rw [hlen]
    exact (h.exitsBefore r hr id o hro).trans (Nat.lt_succ_self _)
  · intro x hx
    rcases hmem x hx with hx | rfl
    · exact h.clocks x hx
    · exact ⟨_, hclock, hopen.symm⟩

/-- What is held is of what was, and no record is pushed. -/
theorem Final.retain (hwf : s'.journal.WF)
    (hids : (s'.journal.retained.map (·.scope.id)).Sublist (s.journal.retained.map (·.scope.id)))
    (hsame : ∀ b' ∈ s'.journal.retained, ∃ b ∈ s.journal.retained, b.Same b')
    (hrec : s'.journal.records.Sublist s.journal.records)
    (hnexts : s'.journal.nextScopeId = s.journal.nextScopeId)
    (hnextr : s'.journal.nextRecordId = UInt64.ofNat s'.taken.length)
    (hent : s'.entered = s.entered) (htaken : s'.taken = firstIds RecordId.mk s'.taken.length)
    (hle : s.taken.length ≤ s'.taken.length) (hpushed : s'.pushed = s.pushed) : s'.Final := by
  refine ⟨hwf, ?_, htaken, ?_, hnextr, h.scopeIds.sublist hids, ?_, ?_, ?_, ?_, ?_, ?_, ?_, ?_⟩
  · rw [hent]
    exact h.entered
  · rw [hnexts, h.nextScope, hent]
  · intro b' hb'
    obtain ⟨b, hb, hbs⟩ := hsame b' hb'
    rw [hbs.id, hent]
    exact h.scopesBefore b hb
  · rw [hpushed]
    exact h.recordIds
  · intro r hr
    rw [hpushed] at hr
    exact (h.recordsBefore r hr).trans_le hle
  · rw [hpushed]
    exact hrec.trans h.records
  · rw [hpushed]
    exact h.exits
  · intro b' hb' hopen r hr o
    obtain ⟨b, hb, hbs⟩ := hsame b' hb'
    rw [hbs.isClosed] at hopen
    rw [hpushed] at hr
    rw [hbs.id]
    exact h.openNoExit b hb hopen r hr o
  · intro r hr id o hro
    rw [hpushed] at hr
    rw [hent]
    exact h.exitsBefore r hr id o hro
  · intro b' hb'
    obtain ⟨b, hb, hbs⟩ := hsame b' hb'
    rw [hbs.clock, hbs.isClosed]
    exact h.clocks b hb

/-- A record pushed with the next id; `hexit` is about the scope it closes. -/
theorem Final.push (hm : s.taken.length < 2 ^ 64) {r : Record} (hwf : s'.journal.WF)
    (hid : r.id = ⟨s.journal.nextRecordId⟩)
    (hrec : s'.journal.records = s.journal.records ++ [r])
    (hnexts : s'.journal.nextScopeId = s.journal.nextScopeId)
    (hnextr : s'.journal.nextRecordId = s.journal.nextRecordId + 1)
    (hent : s'.entered = s.entered) (htaken : s'.taken = s.taken ++ [r.id])
    (hpushed : s'.pushed = s.pushed ++ [r])
    (hids : s'.journal.retained.map (·.scope.id) = s.journal.retained.map (·.scope.id))
    (hopens : ∀ b' ∈ s'.journal.retained, Scopes.isClosed b' = false →
      b' ∈ s.journal.retained ∧ ∀ o, exitOf r ≠ some (b'.scope.id, o))
    (hclocks : ∀ b ∈ s'.journal.retained,
      ∃ c, b.clock = some c ∧ c.finished.isSome = Scopes.isClosed b)
    (hexit : ∀ id o, exitOf r = some (id, o) →
      ∃ b ∈ s.journal.retained, b.scope.id = id ∧ Scopes.isClosed b = false) : s'.Final := by
  have hidn : r.id.n.toNat = s.taken.length := by
    rw [hid, h.nextRecord]
    exact UInt64.toNat_ofNat_of_lt' hm
  have hlen : s'.taken.length = s.taken.length + 1 := by rw [htaken]; simp
  refine ⟨hwf, ?_, ?_, ?_, ?_, ?_, ?_, ?_, ?_, ?_, ?_, ?_, ?_, hclocks⟩
  · rw [hent]
    exact h.entered
  · rw [hlen, firstIds_succ, ← h.taken, htaken, hid, h.nextRecord]
  · rw [hnexts, h.nextScope, hent]
  · rw [hnextr, h.nextRecord, hlen, UInt64.ofNat_add]
    rfl
  · rw [hids]
    exact h.scopeIds
  · intro b' hb'
    have hmem : b'.scope.id ∈ s.journal.retained.map (·.scope.id) := by
      rw [← hids]
      exact List.mem_map.2 ⟨b', hb', rfl⟩
    obtain ⟨b, hb, heq⟩ := List.mem_map.1 hmem
    rw [← heq, hent]
    exact h.scopesBefore b hb
  · rw [hpushed, List.pairwise_append]
    refine ⟨h.recordIds, List.pairwise_singleton _ _, ?_⟩
    intro x hx y hy
    rw [List.mem_singleton.1 hy, UInt64.lt_iff_toNat_lt, hidn]
    exact h.recordsBefore x hx
  · intro x hx
    rw [hpushed, List.mem_append, List.mem_singleton] at hx
    rw [hlen]
    rcases hx with hx | rfl
    · exact (h.recordsBefore x hx).trans (Nat.lt_succ_self _)
    · exact hidn ▸ Nat.lt_succ_self _
  · rw [hpushed, hrec]
    exact h.records.append_right [r]
  · rw [hpushed, List.pairwise_append]
    refine ⟨h.exits, List.pairwise_singleton _ _, ?_⟩
    intro x hx y hy id o o' hxo hyo
    rw [List.mem_singleton.1 hy] at hyo
    obtain ⟨b, hb, rfl, hopen⟩ := hexit id o' hyo
    exact h.openNoExit b hb hopen x hx o hxo
  · intro b' hb' hopen x hx o
    obtain ⟨hb, hno⟩ := hopens b' hb' hopen
    rw [hpushed, List.mem_append, List.mem_singleton] at hx
    rcases hx with hx | rfl
    · exact h.openNoExit b' hb hopen x hx o
    · exact hno o
  · intro x hx id o hxo
    rw [hpushed, List.mem_append, List.mem_singleton] at hx
    rw [hent]
    rcases hx with hx | rfl
    · exact h.exitsBefore x hx id o hxo
    · obtain ⟨b, hb, rfl, -⟩ := hexit id o hxo
      exact h.scopesBefore b hb

theorem Final.scope_nodup : (s.journal.retained.map (·.scope.id)).Nodup := by
  refine h.scopeIds.imp ?_
  rintro x y hlt rfl
  exact absurd hlt (UInt64.lt_irrefl _)

/-- Exiting the open scope `b`. -/
theorem Final.exit (hm : s.taken.length < 2 ^ 64) {id : ScopeId} {outcome : Outcome}
    {b : BufferedScope} {t : Instant} {ms ns : UInt64} (hwf : s'.journal.WF)
    (hfind : s.journal.retained.find? (Scopes.hasId id) = some b)
    (hopen : Scopes.isClosed b = false)
    (hret : s'.journal.retained =
      updateFirst (Scopes.hasId id) (Scopes.closeIfOpen ms t) s.journal.retained)
    (hrec : s'.journal.records = s.journal.records ++ [⟨⟨s.journal.nextRecordId⟩, some id, ns,
      .scopeExit outcome (durationNanos (b.close ms t).2)⟩])
    (hnexts : s'.journal.nextScopeId = s.journal.nextScopeId)
    (hnextr : s'.journal.nextRecordId = s.journal.nextRecordId + 1)
    (hent : s'.entered = s.entered) (htaken : s'.taken = s.taken ++ [⟨s.journal.nextRecordId⟩])
    (hpushed : s'.pushed = s.pushed ++ [⟨⟨s.journal.nextRecordId⟩, some id, ns,
      .scopeExit outcome (durationNanos (b.close ms t).2)⟩]) : s'.Final := by
  refine h.push hm hwf rfl hrec hnexts hnextr hent htaken hpushed ?_ ?_ ?_ ?_
  · rw [hret]
    exact map_updateFirst_of_eq (fun b => (closeIfOpen_updates ms t b).1) _
  · intro b' hb' hb'open
    rw [hret] at hb'
    have hne : b'.scope.id ≠ id := by
      intro heq
      obtain ⟨c, -, rfl⟩ := eq_of_exit h.scope_nodup hb' heq
      rw [closeIfOpen_isClosed] at hb'open
      cases hb'open
    constructor
    · rcases mem_updateFirst hb' with hb' | ⟨a, -, -, rfl⟩
      · exact hb'
      · rw [closeIfOpen_isClosed] at hb'open
        cases hb'open
    · intro o heq
      exact hne (Prod.mk.inj (Option.some.inj heq)).1.symm
  · intro b' hb'
    rw [hret] at hb'
    rcases mem_updateFirst hb' with hb' | ⟨a, ha, -, rfl⟩
    · exact h.clocks b' hb'
    · obtain ⟨c, hc, hfin⟩ := h.clocks a ha
      unfold Scopes.closeIfOpen
      split_ifs with hcl
      · exact ⟨c, hc, hfin⟩
      · rw [Scopes.close_isClosed, BufferedScope.close, hc]
        exact ⟨_, rfl, rfl⟩
  · intro id' o heq
    refine ⟨b, List.mem_of_find?_eq_some hfind, ?_, hopen⟩
    have hb : b.scope.id = id := by simpa [Scopes.hasId] using List.find?_some hfind
    rw [hb]
    exact (Prod.mk.inj (Option.some.inj heq)).1

/-- **Every call keeps the invariant**, while the counters have not wrapped. -/
theorem Final.step (hs : s.step c = some s') (hn : s'.entered.length ≤ 2 ^ 64)
    (hm : s'.taken.length ≤ 2 ^ 64) : s'.Final := by
  obtain ⟨ticket, hwf, heffect, hent, htaken, hpushed⟩ := step_effect h.wf hs
  cases heffect with
  | @enter b t exits event id opened clock retained records nextScope nextRecord current =>
    rw [records, List.drop_length, List.append_nil] at hpushed
    refine h.enter ?_ hwf id opened clock retained records nextScope nextRecord hent ?_ hpushed
    · rw [hent, List.length_append] at hn
      exact Nat.lt_of_succ_le hn
    · rw [htaken]
      exact List.append_nil _
  | @record r exits event id noExit retained records nextScope nextRecord current =>
    rw [records, List.drop_left] at hpushed
    refine h.push ?_ hwf id records nextScope nextRecord ?_ htaken hpushed ?_ ?_ ?_ ?_
    · rw [htaken, List.length_append] at hm
      exact Nat.lt_of_succ_le hm
    · rw [hent]
      exact List.append_nil _
    · rw [retained]
    · intro b' hb' _
      rw [retained] at hb'
      refine ⟨hb', fun o => ?_⟩
      rw [noExit]
      exact nofun
    · rw [retained]
      exact h.clocks
    · intro id o ho
      rw [noExit] at ho
      cases ho
  | exit exits event found opened retained records nextScope nextRecord current =>
    rw [records, List.drop_left] at hpushed
    refine h.exit ?_ hwf found opened retained records nextScope nextRecord ?_ htaken hpushed
    · rw [htaken, List.length_append] at hm
      exact Nat.lt_of_succ_le hm
    · rw [hent]
      exact List.append_nil _
  | miss exits event closed retained records nextScope nextRecord current =>
    rw [records, List.drop_length, List.append_nil] at hpushed
    have hlen : s'.taken.length = s.taken.length + 1 := by
      rw [htaken]
      exact List.length_append
    refine h.retain hwf ?_ ?_ ?_ nextScope ?_ ?_ ?_ (by omega) hpushed
    · rw [retained]
    · rw [retained]
      exact (Kept.refl _).same
    · rw [records]
    · rw [nextRecord, h.nextRecord, hlen, UInt64.ofNat_add]
      rfl
    · rw [hent]
      exact List.append_nil _
    · rw [hlen, firstIds_succ, ← h.taken, ← h.nextRecord]
      exact htaken
  | keep exits event retained records nextScope nextRecord current =>
    rw [List.drop_eq_nil_of_le records.length_le, List.append_nil] at hpushed
    have hsame : s'.taken = s.taken := by
      rw [htaken]
      exact List.append_nil _
    refine h.retain hwf retained.ids retained.same records nextScope ?_ ?_ ?_ (by rw [hsame])
      hpushed
    · rw [nextRecord, h.nextRecord, hsame]
    · rw [hent]
      exact List.append_nil _
    · rw [hsame]
      exact h.taken
  | clear exits event isClear retained records nextScope nextRecord current =>
    rw [records, List.drop_nil, List.append_nil] at hpushed
    have hsame : s'.taken = s.taken := by
      rw [htaken]
      exact List.append_nil _
    refine h.retain hwf ?_ ?_ ?_ nextScope ?_ ?_ ?_ (by rw [hsame]) hpushed
    · rw [retained]
      exact List.nil_sublist _
    · rw [retained]
      exact nofun
    · rw [records]
      exact List.nil_sublist _
    · rw [nextRecord, h.nextRecord, hsame]
    · rw [hent]
      exact List.append_nil _
    · rw [hsame]
      exact h.taken

end

/-- **Every run keeps the invariant**, as long as the counters have not wrapped. -/
theorem run_final {runId : String} {calls : List JournalCall}
    (hs : Machine.run step (new runId) calls = some s) (hn : s.entered.length ≤ 2 ^ 64)
    (hm : s.taken.length ≤ 2 ^ 64) : s.Final := by
  refine Machine.run_invariant
    (I := fun t => t.entered.length ≤ 2 ^ 64 → t.taken.length ≤ 2 ^ 64 → t.Final)
    ?_ hs (fun _ _ => new_final runId) hn hm
  intro t c u ht hu hn hm
  have hle := step_counts hu
  exact (ht (hle.1.trans hn) (hle.2.trans hm)).step hu hn hm

/-! ## The duration of an exited scope -/

/-- The scope has been entered, and wherever it is held it is closed and its
    clock stands at `e`. -/
structure Frozen (id : ScopeId) (e : Duration) (s : JournalRun) : Prop where
  entered : id.n.toNat < s.entered.length
  clock : ∀ b ∈ s.journal.retained, b.scope.id = id →
    Scopes.isClosed b = true ∧ ∃ t, b.clock = some ⟨t, some e⟩

/-- **A step leaves a frozen clock as it is.** -/
theorem Frozen.step {id : ScopeId} {e : Duration} (hf : s.Frozen id e) (h : s.Final)
    (hs : s.step c = some s') (hn : s'.entered.length ≤ 2 ^ 64) : s'.Frozen id e := by
  obtain ⟨ticket, hwf, heffect, hent, -, -⟩ := step_effect h.wf hs
  refine ⟨hf.entered.trans_le (step_counts hs).1, ?_⟩
  intro b hb hid
  cases heffect with
  | @enter b' t exits event idn opened clock retained records nextScope nextRecord current =>
    rw [retained, List.mem_append, List.mem_singleton] at hb
    rcases hb with hb | rfl
    · exact hf.clock b hb hid
    · -- a new scope has a new id
      rw [hent, List.length_append] at hn
      have hnew : b.scope.id.n.toNat = s.entered.length := by
        rw [idn, h.nextScope]
        exact UInt64.toNat_ofNat_of_lt' (Nat.lt_of_succ_le hn)
      rw [hid] at hnew
      exact absurd hf.entered (by omega)
  | record exits event idn noExit retained records nextScope nextRecord current =>
    rw [retained] at hb
    exact hf.clock b hb hid
  | @exit id' outcome x t ms ns exits event found opened retained records nextScope nextRecord
      current =>
    rw [retained] at hb
    rcases mem_updateFirst hb with hb | ⟨a, ha, haid, rfl⟩
    · exact hf.clock b hb hid
    · -- the scope that is exited is open, so it is another one
      rw [(closeIfOpen_updates ms t a).1] at hid
      have hx : x.scope.id = id' := by simpa [Scopes.hasId] using List.find?_some found
      have ha' : a.scope.id = id' := by simpa [Scopes.hasId] using haid
      have hxid : x.scope.id = id := by rw [hx, ← ha', hid]
      have hclosed := (hf.clock x (List.mem_of_find?_eq_some found) hxid).1
      rw [opened] at hclosed
      cases hclosed
  | miss exits event closed retained records nextScope nextRecord current =>
    rw [retained] at hb
    exact hf.clock b hb hid
  | keep exits event retained records nextScope nextRecord current =>
    obtain ⟨a, ha, hsame⟩ := retained.same b hb
    rw [hsame.isClosed, hsame.clock]
    exact hf.clock a ha (hsame.id ▸ hid)
  | clear exits event isClear retained records nextScope nextRecord current =>
    rw [retained] at hb
    cases hb

theorem Frozen.run {id : ScopeId} {e : Duration} (hf : s.Frozen id e) (h : s.Final)
    {calls : List JournalCall} (hs : Machine.run JournalRun.step s calls = some s')
    (hn : s'.entered.length ≤ 2 ^ 64) (hm : s'.taken.length ≤ 2 ^ 64) :
    s'.Final ∧ s'.Frozen id e := by
  refine Machine.run_invariant
    (I := fun t => t.entered.length ≤ 2 ^ 64 → t.taken.length ≤ 2 ^ 64 → t.Final ∧ t.Frozen id e)
    ?_ hs (fun _ _ => ⟨h, hf⟩) hn hm
  intro t c u ht hu hn hm
  have hle := step_counts hu
  obtain ⟨htf, hfr⟩ := ht (hle.1.trans hn) (hle.2.trans hm)
  exact ⟨htf.step hu hn hm, hfr.step htf hu hn⟩

/-- `scope_elapsed` of a frozen scope that is held does not depend on the time. -/
theorem Frozen.scopeElapsed {id : ScopeId} {e : Duration} (hf : s.Frozen id e) (h : s.journal.WF)
    (hid : ∃ x ∈ s.journal.scopes, x.id = id) (now : Instant) (millis : UInt64) :
    s.journal.scopeElapsed id now millis = .ok (some e) := by
  obtain ⟨x, hx, hxid⟩ := hid
  obtain ⟨b, hb, rfl⟩ := List.mem_map.1 hx
  obtain ⟨a, ha⟩ : ∃ a, s.journal.retained.find? (Scopes.hasId id) = some a := by
    rw [← Option.isSome_iff_exists, List.find?_isSome]
    exact ⟨b, hb, by simpa [Scopes.hasId] using hxid⟩
  have haid : a.scope.id = id := by simpa [Scopes.hasId] using List.find?_some ha
  obtain ⟨-, t, hclock⟩ := hf.clock a (List.mem_of_find?_eq_some ha) haid
  rw [scopeElapsed_ok h, ha, Option.map_some, BufferedScope.elapsed, hclock]
  rfl

/-- Exiting an open scope freezes its clock at what the exit record says. -/
theorem Final.frozen_of_exit (h : s.Final) {id : ScopeId} {b : BufferedScope} {t : Instant}
    {ms : UInt64} (hfind : s.journal.retained.find? (Scopes.hasId id) = some b)
    (hopen : Scopes.isClosed b = false)
    (hret : s'.journal.retained =
      updateFirst (Scopes.hasId id) (Scopes.closeIfOpen ms t) s.journal.retained)
    (hent : s'.entered = s.entered) : s'.Frozen id (b.close ms t).2 := by
  have hb : b.scope.id = id := by simpa [Scopes.hasId] using List.find?_some hfind
  constructor
  · rw [hent, ← hb]
    exact h.scopesBefore b (List.mem_of_find?_eq_some hfind)
  · intro b' hb' hb'id
    rw [hret] at hb'
    obtain ⟨c, hc, rfl⟩ := eq_of_exit h.scope_nodup hb' hb'id
    obtain rfl : b = c := Option.some.inj (hfind.symm.trans hc)
    obtain ⟨clock, hclock, -⟩ := h.clocks b (List.mem_of_find?_eq_some hfind)
    refine ⟨closeIfOpen_isClosed ms t b, clock.startedAt, ?_⟩
    rw [Scopes.closeIfOpen, hopen, if_neg Bool.false_ne_true, BufferedScope.close, hclock]

/-! ## Finality -/

/-- What a journal holds, and all that it has pushed, is in the order of the ids;
    no id has been handed out twice and no scope has two exit records. -/
structure Ordered (s : JournalRun) : Prop where
  records : s.journal.records.Pairwise fun r t => r.id.n < t.id.n
  scopes : s.journal.scopes.Pairwise fun x y => x.id.n < y.id.n
  entered : s.entered.Nodup
  taken : s.taken.Nodup
  scopeIds : ∀ x ∈ s.journal.scopes, x.id ∈ s.entered
  pushed : s.journal.records.Sublist s.pushed
  recordIds : ∀ r ∈ s.pushed, r.id ∈ s.taken
  exits : s.pushed.Pairwise fun r t => ∀ id o o', exitOf r = some (id, o) → exitOf t ≠ some (id, o')

/-- From here on the scope is not open, and as long as it is held
    `scope_elapsed` answers `e`. -/
def Finished (id : ScopeId) (e : Duration) (s : JournalRun) : Prop :=
  ∀ calls u, Machine.run step s calls = some u → u.entered.length ≤ 2 ^ 64 →
    u.taken.length ≤ 2 ^ 64 → u.journal.isOpen id = false ∧
      ((∃ x ∈ u.journal.scopes, x.id = id) →
        ∀ now millis, u.journal.scopeElapsed id now millis = .ok (some e))

/-- An exit of an open scope pushes its exit record and finishes it; another
    exit takes an id and does nothing else. -/
structure ExitsOnce (s : JournalRun) : Prop where
  opened : ∀ c id outcome s', c.exits = some (id, outcome) → s.journal.isOpen id = true →
    s.step c = some s' → ∃ r e, s'.pushed = s.pushed ++ [r] ∧ r.scope = some id ∧
      r.kind = .scopeExit outcome (durationNanos e) ∧ s'.Finished id e
  missed : ∀ c id outcome s', c.exits = some (id, outcome) → s.journal.isOpen id = false →
    s.step c = some s' → s'.pushed = s.pushed ∧ s'.journal.records = s.journal.records ∧
      s'.journal.scopes = s.journal.scopes ∧ s'.journal.currentScope = s.journal.currentScope

theorem isOpen_of_find {j : Journal} {id : ScopeId} {b : BufferedScope}
    (hb : j.retained.find? (Scopes.hasId id) = some b) :
    j.isOpen id = !Scopes.isClosed b := by
  rw [isOpen, hb]
  rfl

theorem Frozen.isOpen {id : ScopeId} {e : Duration} (hf : s.Frozen id e) :
    s.journal.isOpen id = false := by
  cases hfind : s.journal.retained.find? (Scopes.hasId id) with
  | none => rw [Journal.isOpen, hfind]; rfl
  | some b =>
    have hb : b.scope.id = id := by simpa [Scopes.hasId] using List.find?_some hfind
    rw [isOpen_of_find hfind, (hf.clock b (List.mem_of_find?_eq_some hfind) hb).1]
    rfl

theorem Final.exitsOnce (h : s.Final) : s.ExitsOnce := by
  constructor
  · intro c id outcome s' hc hopen hs
    obtain ⟨ticket, hwf, heffect, hent, htaken, hpushed⟩ := step_effect h.wf hs
    cases heffect with
    | @exit id' outcome' b t ms ns exits event found opened retained records nextScope nextRecord
        current =>
      obtain ⟨rfl, rfl⟩ := Prod.mk.inj (Option.some.inj (exits.symm.trans hc))
      rw [records, List.drop_left] at hpushed
      have hent' : s'.entered = s.entered := by
        rw [hent]
        exact List.append_nil _
      refine ⟨_, (b.close ms t).2, hpushed, rfl, rfl, ?_⟩
      have hf := h.frozen_of_exit found opened retained hent'
      intro calls u hu hn hm
      have hle := run_counts hu
      have hs' := h.step hs (hle.1.trans hn) (hle.2.trans hm)
      obtain ⟨huf, hfu⟩ := hf.run hs' hu hn hm
      exact ⟨hfu.isOpen, hfu.scopeElapsed huf.wf⟩
    | miss exits event closed =>
      obtain ⟨rfl, rfl⟩ := Prod.mk.inj (Option.some.inj (exits.symm.trans hc))
      rw [closed] at hopen
      cases hopen
    | enter exits | record exits | keep exits | clear exits =>
      rw [exits] at hc
      cases hc
  · intro c id outcome s' hc hclosed hs
    obtain ⟨ticket, hwf, heffect, hent, htaken, hpushed⟩ := step_effect h.wf hs
    cases heffect with
    | miss exits event closed retained records nextScope nextRecord current =>
      rw [records, List.drop_length, List.append_nil] at hpushed
      refine ⟨hpushed, records, ?_, current⟩
      rw [scopes_eq, retained, scopes_eq]
    | exit exits event found opened =>
      obtain ⟨rfl, rfl⟩ := Prod.mk.inj (Option.some.inj (exits.symm.trans hc))
      rw [isOpen_of_find found, opened] at hclosed
      cases hclosed
    | enter exits | record exits | keep exits | clear exits =>
      rw [exits] at hc
      cases hc

end JournalRun

end Eventline
