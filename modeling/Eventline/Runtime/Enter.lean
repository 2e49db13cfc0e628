/-
  Entering a scope under concurrency.

  Between its two journal sections `enter_scope` relies on the scope being
  retained.  Clearing the journal and evicting the scope, which another thread
  can exit, break that.

  * `Journal.survives`: a trim keeps a scope.
  * `Careful` is the condition on steps, `Retains` the invariant.
  * `enter_never_panics`: under the condition every lookup finds the scope.
  * `enter_panics`: a clear between the two sections makes it panic.
-/
import Eventline.History
import Eventline.Runtime.Machine
import Eventline.Wire.Render

namespace Eventline

open Checked Slots

/-- The scope that a thread has pushed and not yet handed to the writer. -/
def Thread.pending (th : Thread) : Option ScopeId :=
  match th.pc with
  | .entered id | .lookingUp id => some id
  | _ => none

namespace Journal

def scopeIds (j : Journal) : List ScopeId := j.scopes.map (·.id)

/-- A trim keeps the first scope with the id: it is open, or one of the last
    closed ones. -/
def survives (j : Journal) (max : ℕ) (id : ScopeId) : Bool :=
  match j.retained.dropWhile fun b => !Scopes.hasId id b with
  | [] => false
  | b :: later => !Scopes.isClosed b || (b :: later).countP Scopes.isClosed ≤ max

theorem scopeIds_eq (j : Journal) : j.scopeIds = j.retained.map (·.scope.id) := by
  rw [scopeIds, scopes_eq, List.map_map]
  rfl

/-- **A scope that survives** is there after the trim. -/
theorem mem_of_survives {j : Journal} {max : ℕ} {id : ScopeId} (h : j.survives max id = true) :
    id ∈ (dropFirst Scopes.isClosed (j.retained.countP Scopes.isClosed - max) j.retained).map
      (·.scope.id) := by
  unfold survives at h
  split at h
  · cases h
  · rename_i b later hdrop
    have hsplit : j.retained = j.retained.takeWhile (fun b => !Scopes.hasId id b) ++ b :: later := by
      conv_lhs => rw [← List.takeWhile_append_dropWhile (p := fun b => !Scopes.hasId id b)
        (l := j.retained), hdrop]
    have hid : b.scope.id = id := by
      have hhead := List.head?_dropWhile_not (fun b => !Scopes.hasId id b) j.retained
      rw [hdrop] at hhead
      simpa [Scopes.hasId] using hhead
    refine List.mem_map.2 ⟨b, ?_, hid⟩
    rcases Bool.or_eq_true_iff.1 h with hopen | hcount
    · refine mem_dropFirst_of_not ?_ (by simpa using hopen)
      rw [hsplit]
      simp
    · have hle : (b :: later).countP Scopes.isClosed ≤ max := by simpa using hcount
      generalize j.retained.takeWhile (fun b => !Scopes.hasId id b) = pre at hsplit
      rw [hsplit]
      refine mem_dropFirst_of_le ?_
      rw [List.countP_append]
      omega

end Journal

/-! ## What a section does to the ids of the scopes -/

/-- The scopes are of those before, and no thread has come to wait for one. -/
structure Narrows (r r' : Runtime) (th th' : Thread) : Prop where
  ids : r'.journal.scopeIds.Sublist r.journal.scopeIds
  next : r'.journal.nextScopeId = r.journal.nextScopeId
  lives : r'.lives.length = r.lives.length
  pending : ∀ id, th'.pending = some id → th.pending = some id

section
variable {r r' : Runtime} {th th' : Thread} {a : Act}

theorem exitScopeNoWrite_ids {j j' : Journal} (hwf : j.WF) {id : ScopeId} {outcome : Outcome}
    {t : Instant} {ms ns : UInt64} {rid : RecordId} {payload : Option (Record × Scope)}
    (he : j.exitScopeNoWrite id outcome t ms ns = .ok (j', rid, payload)) :
    j'.scopeIds = j.scopeIds ∧ j'.nextScopeId = j.nextScopeId := by
  obtain ⟨-, -, -, hnext, -, -, hret, -⟩ := Journal.exitScopeNoWrite_inv hwf he
  refine ⟨?_, hnext⟩
  rw [Journal.scopeIds, Journal.scopes_eq, hret]
  exact Journal.forall₂_updates_ids
    (Journal.updateFirst_updates (Journal.closeIfOpen_updates ms t) _)

theorem setScopeExitMessages_ids {j j' : Journal} (hwf : j.WF) {id : ScopeId} {msgs : ExitMessages}
    {found : Bool} (he : j.setScopeExitMessages id msgs = .ok (j', found)) :
    j'.scopeIds = j.scopeIds ∧ j'.nextScopeId = j.nextScopeId := by
  obtain ⟨scopes, found', hok, -, hret⟩ := Journal.setScopeExitMessages_ok hwf id msgs
  rw [hok] at he
  obtain ⟨rfl, -⟩ := Prod.mk.inj (Except.ok.inj he)
  refine ⟨?_, rfl⟩
  rw [Journal.scopeIds, Journal.scopes_eq, Journal.retained, hret]
  exact Journal.forall₂_updates_ids
    (Journal.updateFirst_updates (Journal.setMessages_updates msgs) _)

/-- What a trim leaves. -/
theorem trim_ids {j j₁ j₂ : Journal} (hwf : j.WF) {max : ℕ} (hrecords : j.trimRecords max = .ok j₁)
    (hscopes : j₁.trimScopes max = .ok j₂) :
    j₂.scopeIds = (dropFirst Scopes.isClosed (j.retained.countP Scopes.isClosed - max)
      j.retained).map (·.scope.id) ∧ j₂.nextScopeId = j.nextScopeId := by
  obtain ⟨records, hok, hr, -⟩ := Journal.trimRecords_ok hwf max
  rw [hok] at hrecords
  obtain rfl := Except.ok.inj hrecords
  obtain ⟨scopes, hok, -, hret⟩ := Journal.trimScopes_ok (j := { j with
    buffer := { j.buffer with records } }) ⟨hr, hwf.scopes⟩ max
  rw [hok] at hscopes
  obtain rfl := Except.ok.inj hscopes
  exact ⟨by rw [Journal.scopeIds_eq, Journal.retained, hret]; rfl, rfl⟩

/-- **A section that does not enter** leaves scopes of before, all of them if it
    neither trims nor clears. -/
theorem Section.narrows (h : Section r th a r' th') (hwf : r.journal.WF)
    (ha : ∀ name startedAt millis, a ≠ .enterScope name startedAt millis) :
    Narrows r r' th th' ∧ (a ≠ .clear → (∀ max record scope, th.pc ≠ .trimming max record scope) →
      r'.journal.scopeIds = r.journal.scopeIds) := by
  have hsame : ∀ {r' : Runtime} {th' : Thread}, r'.journal.scopeIds = r.journal.scopeIds →
      r'.journal.nextScopeId = r.journal.nextScopeId → r'.lives.length = r.lives.length →
      (∀ id, th'.pending = some id → th.pending = some id) → Narrows r r' th th' ∧
        (a ≠ .clear → (∀ max record scope, th.pc ≠ .trimming max record scope) →
          r'.journal.scopeIds = r.journal.scopeIds) :=
    fun hids hnext hlives hpend => ⟨⟨by rw [hids], hnext, hlives, hpend⟩, fun _ _ => hids⟩
  cases h with
  | emit _ h =>
    obtain ⟨records, rfl, -⟩ := Journal.recordNoWriteInScope_inv hwf h
    exact hsame rfl rfl rfl (by rintro id ⟨⟩)
  | count _ hnext =>
    refine hsame rfl rfl rfl ?_
    rcases hnext with rfl | rfl
    · rintro id ⟨⟩
    · rintro id ⟨⟩
  | @trim max record scope j₁ j₂ hpc hrecords hscopes =>
    obtain ⟨hids, hnext⟩ := trim_ids hwf hrecords hscopes
    refine ⟨⟨?_, hnext, rfl, by rintro id ⟨⟩⟩, fun _ htrim => absurd hpc (htrim max record scope)⟩
    rw [hids, Journal.scopeIds_eq]
    exact (dropFirst_sublist _ _).map _
  | enterScope => exact absurd rfl (ha _ _ _)
  | lock hpc =>
    refine hsame rfl rfl rfl ?_
    intro id hid
    rw [Thread.pending, hpc]
    exact hid
  | exitScope _ h =>
    exact hsame (exitScopeNoWrite_ids hwf h).1 (exitScopeNoWrite_ids hwf h).2 (List.length_map ..)
      (by rintro id ⟨⟩)
  | exitNothing _ h =>
    exact hsame (exitScopeNoWrite_ids hwf h).1 (exitScopeNoWrite_ids hwf h).2 rfl fun _ h => h
  | messages _ h =>
    refine hsame (setScopeExitMessages_ids hwf h).1 (setScopeExitMessages_ids hwf h).2 ?_ fun _ h => h
    dsimp only
    split_ifs
    · exact List.length_map ..
    · rfl
  | clear =>
    exact ⟨⟨List.nil_sublist _, rfl, rfl, by rintro id ⟨⟩⟩, fun hclear => absurd rfl hclear⟩
  | updateWriters => exact hsame rfl rfl rfl fun _ h => h
  | retention => exact hsame rfl rfl rfl fun _ h => h
  | _ => exact hsame rfl rfl rfl (by rintro id ⟨⟩)

/-- Only the failed lookup panics. -/
theorem Section.panicked (h : Section r th a r' th') :
    th'.panicked = th.panicked ∨ ∃ id, th.pending = some id ∧ r.journal.getScope id = .ok none := by
  cases h with
  | panic hpc h => exact .inr ⟨_, by rw [Thread.pending, hpc], h⟩
  | _ => exact .inl rfl

end

/-! ## The condition and the invariant -/

/-- A step that is careful with the scopes that threads have pushed and not yet
    looked up: no clear while there are any, no trim that evicts one, and fewer
    than 2⁶⁴ scopes. -/
def Careful (s : Process) : Action → Prop
  | .call _ .clear => ∀ u, (s.threads u).pending = none
  | .call _ (.enterScope ..) => s.runtime.lives.length < 2 ^ 64
  | .call t .next =>
    match (s.threads t).pc with
    | .trimming max _ _ => ∀ u id, (s.threads u).pending = some id →
        s.runtime.journal.survives max id = true
    | _ => True
  | _ => True

structure Retains (s : Process) : Prop where
  journal : s.runtime.journal.WF
  next : s.runtime.journal.nextScopeId = UInt64.ofNat s.runtime.lives.length
  sorted : s.runtime.journal.scopeIds.Pairwise fun a b => a.n < b.n
  before : ∀ id ∈ s.runtime.journal.scopeIds, id.n.toNat < s.runtime.lives.length
  pending : ∀ t id, (s.threads t).pending = some id → id ∈ s.runtime.journal.scopeIds
  calm : ∀ t, (s.threads t).panicked = false

theorem new_retains (runId : String) (wants : Bool) (max : ℕ) : Retains (.new runId wants max) where
  journal := Journal.new_wf runId
  next := rfl
  sorted := .nil
  before _ h := by cases h
  pending _ _ h := by cases h
  calm _ := rfl

section
variable {s s' : Process} (h : Retains s)
include h

/-- **A pending scope is found**, and it is the only one with its id. -/
theorem Retains.found {t : ThreadId} {id : ScopeId} (hid : (s.threads t).pending = some id) :
    ∃ scope, s.runtime.journal.getScope id = .ok (some scope) ∧ scope.id = id ∧
      s.runtime.journal.scopes.filter (fun x => x.id = id) = [scope] := by
  have hmem := h.pending t id hid
  obtain ⟨x, hx, hxid⟩ := List.mem_map.1 hmem
  obtain ⟨scope, hfind⟩ : ∃ scope, s.runtime.journal.scopes.find? (fun x => x.id = id) = some scope := by
    rw [← Option.isSome_iff_exists, List.find?_isSome]
    exact ⟨x, hx, by simpa using hxid⟩
  obtain ⟨pre, post, hsplit, hscope, hpre⟩ := find?_split hfind
  have hscopeId : scope.id = id := by simpa using hscope
  have hnd : (s.runtime.journal.scopes.map (·.id)).Nodup := by
    refine h.sorted.imp ?_
    rintro a b hlt rfl
    exact absurd hlt (UInt64.lt_irrefl _)
  rw [hsplit, List.map_append, List.map_cons, List.nodup_middle, List.nodup_cons] at hnd
  have hpost : ∀ y ∈ post, decide (y.id = id) = false := by
    intro y hy
    have hne : y.id ≠ id := by
      intro he
      exact hnd.1 (List.mem_append_right _ (List.mem_map.2 ⟨y, hy, he.trans hscopeId.symm⟩))
    simpa using hne
  refine ⟨scope, by rw [Journal.getScope_ok h.journal, hfind], hscopeId, ?_⟩
  rw [hsplit, List.filter_append, List.filter_eq_nil_iff.2 (by simpa using hpre), List.nil_append,
    List.filter_cons, if_pos hscope, List.filter_eq_nil_iff.2 (by simpa using hpost)]

section
variable {t : ThreadId} {a : Act} {r : Runtime} {th : Thread}
  (hsec : Section s.runtime (s.threads t) a r th)
  (hthreads : s'.threads = Function.update s.threads t th)
include hsec hthreads

/-- No thread panics: what a thread looks up is found. -/
theorem Retains.calm_call (u : ThreadId) : (s'.threads u).panicked = false := by
  rw [hthreads]
  by_cases hu : u = t
  · subst hu
    rw [Function.update_self]
    rcases hsec.panicked with hp | ⟨id, hid, hnone⟩
    · rw [hp]
      exact h.calm u
    · obtain ⟨scope, hsome, -⟩ := h.found hid
      rw [hnone] at hsome
      cases hsome
  · rw [Function.update_of_ne hu]
    exact h.calm u

/-- A scope that is entered has the next id. -/
theorem Retains.entered {name : String} {startedAt : Instant} {millis : UInt64}
    (ha : a = .enterScope name startedAt millis) (hlt : s.runtime.lives.length < 2 ^ 64)
    (hr : s'.runtime = r) : Retains s' := by
  have hcalm := h.calm_call hsec hthreads
  subst ha
  cases hsec with
  | @enterScope _ _ _ j id hpc henter =>
    obtain ⟨hwf, hid, hret, -, hnext, -, -, -⟩ := Journal.pushScope_inv h.journal henter
    have hids : j.scopeIds = s.runtime.journal.scopeIds ++ [id] := by
      rw [Journal.scopeIds_eq, hret, Journal.scopeIds_eq, List.map_append]
      rfl
    have hidn : id.n.toNat = s.runtime.lives.length := by
      rw [hid, h.next]
      exact UInt64.toNat_ofNat_of_lt' hlt
    have hlen : s'.runtime.lives.length = s.runtime.lives.length + 1 := by
      rw [hr]
      exact List.length_append ..
    have hj : s'.runtime.journal = j := by rw [hr]
    refine ⟨hj ▸ hwf, ?_, ?_, ?_, ?_, hcalm⟩
    · rw [hlen, hj, hnext, h.next, UInt64.ofNat_add]
      rfl
    · rw [hj, hids, List.pairwise_append]
      refine ⟨h.sorted, List.pairwise_singleton _ _, ?_⟩
      intro x hx y hy
      rw [List.mem_singleton.1 hy, UInt64.lt_iff_toNat_lt, hidn]
      exact h.before x hx
    · intro x hx
      rw [hj, hids] at hx
      rw [hlen]
      rcases List.mem_append.1 hx with hx | hx
      · exact (h.before x hx).trans (Nat.lt_succ_self _)
      · rw [List.mem_singleton.1 hx, hidn]
        exact Nat.lt_succ_self _
    · intro u x hx
      rw [hj, hids]
      rw [hthreads] at hx
      by_cases hu : u = t
      · subst hu
        rw [Function.update_self] at hx
        rw [← Option.some.inj hx]
        exact List.mem_append_right _ (List.mem_singleton.2 rfl)
      · rw [Function.update_of_ne hu] at hx
        exact List.mem_append_left _ (h.pending u x hx)

/-- The other calls keep what threads have pushed, when they are careful with it. -/
theorem Retains.narrowed (hne : ∀ name startedAt millis, a ≠ .enterScope name startedAt millis)
    (ha : Careful s (.call t a)) (hr : s'.runtime = r) : Retains s' := by
  subst hr
  have hcalm := h.calm_call hsec hthreads
  obtain ⟨hnar, hsame⟩ := hsec.narrows h.journal hne
  have hpend : ∀ u id, (s'.threads u).pending = some id → ∃ v, (s.threads v).pending = some id := by
    intro u id hid
    rw [hthreads] at hid
    by_cases hu : u = t
    · subst hu
      rw [Function.update_self] at hid
      exact ⟨u, hnar.pending id hid⟩
    · rw [Function.update_of_ne hu] at hid
      exact ⟨u, hid⟩
  refine ⟨hsec.wf h.journal, by rw [hnar.next, hnar.lives, h.next], h.sorted.sublist hnar.ids, ?_, ?_,
    hcalm⟩
  · intro id hid
    rw [hnar.lives]
    exact h.before id (hnar.ids.subset hid)
  · intro u id hid
    obtain ⟨v, hv⟩ := hpend u id hid
    by_cases hclear : a = .clear
    · subst hclear
      have hnone : (s.threads v).pending = none := ha v
      rw [hnone] at hv
      cases hv
    · by_cases htrim : ∃ max record scope, (s.threads t).pc = .trimming max record scope
      · obtain ⟨max, record, scope, hpc⟩ := htrim
        generalize s'.runtime = r at hsec
        cases hsec with
        | trim hpc' hrecords hscopes =>
          obtain ⟨rfl, rfl, rfl⟩ := Pc.trimming.inj (hpc'.symm.trans hpc)
          simp only [Careful, hpc] at ha
          rw [(trim_ids h.journal hrecords hscopes).1]
          exact Journal.mem_of_survives (ha v id hv)
        | _ => simp_all
      · rw [hsame hclear fun max record scope he => htrim ⟨max, record, scope, he⟩]
        exact h.pending v id hv

end

theorem Retains.call {t : ThreadId} {a : Act} (ha : Careful s (.call t a))
    (hs : s.call t a = some s') : Retains s' := by
  obtain ⟨r, th, hsec, hr, hthreads, -, -⟩ := Process.call_inv hs
  by_cases hent : ∃ name startedAt millis, a = .enterScope name startedAt millis
  · obtain ⟨name, startedAt, millis, rfl⟩ := hent
    exact h.entered hsec hthreads rfl ha hr
  · refine h.narrowed hsec hthreads ?_ ha hr
    intro name startedAt millis he
    exact hent ⟨name, startedAt, millis, he⟩

theorem Retains.step {a : Action} (ha : Careful s a) (hs : s.step a = some s') : Retains s' := by
  by_cases hcall : ∃ t b, a = .call t b
  · obtain ⟨t, b, rfl⟩ := hcall
    exact h.call ha hs
  · obtain ⟨hr, hth⟩ := Process.step_context hs fun t b he => hcall ⟨t, b, he⟩
    refine ⟨hr ▸ h.journal, hr ▸ h.next, hr ▸ h.sorted, hr ▸ h.before, ?_, ?_⟩
    · intro t id hid
      rw [hr]
      refine h.pending t id ?_
      rw [← hid, Thread.pending, Thread.pending, (hth t).1]
    · intro t
      rw [(hth t).2]
      exact h.calm t

end

/-- **Entering never panics** in a run whose steps are careful: no thread has
    panicked, a thread that waits for the free writer goes on to the lookup if
    the writer wants metadata and returns if it does not, and a lookup finds the
    only scope with its id and hands it to the writer. -/
theorem enter_never_panics (runId : String) (wants : Bool) (max : ℕ) (actions : List Action)
    (s : Process) (hrun : Machine.run Process.step (.new runId wants max) actions = some s)
    (hmeets : Machine.Meets Process.step Careful (.new runId wants max) actions) :
    (∀ t, (s.threads t).panicked = false) ∧
    (∀ t id, (s.threads t).pc = .entered id → s.runtime.writerLocked = false →
      ∃ s', s.step (.call t .next) = some s' ∧ (s'.threads t).pc =
        if s.runtime.writer.wantsScopeMetadata then .lookingUp id else .user) ∧
    ∀ t id, (s.threads t).pc = .lookingUp id →
      ∃ scope s', s.runtime.journal.scopes.filter (fun x => x.id = id) = [scope] ∧
        s.step (.call t .next) = some s' ∧ (s'.threads t).pc = .user ∧
        s'.runtime.writer.calls = s.runtime.writer.calls ++ [.scope scope] := by
  have h : Retains s := Machine.run_invariant_of_meets (fun s a s' h ha hs => h.step ha hs) hrun
    hmeets (new_retains runId wants max)
  refine ⟨h.calm, ?_, ?_⟩
  · intro t id hpc hfree
    obtain ⟨r, th, hact, hnext⟩ : ∃ r th, s.runtime.act (s.threads t) .next = some (r, th) ∧
        th.pc = if s.runtime.writer.wantsScopeMetadata then .lookingUp id else .user := by
      rw [Runtime.act, Runtime.next, hpc]
      simp only [Runtime.lockWriter, hfree, Bool.false_eq_true, if_false]
      split_ifs
      · exact ⟨_, _, rfl, rfl⟩
      · exact ⟨_, _, rfl, rfl⟩
    obtain ⟨s', hs', -, hth⟩ := Process.call_ok hact
    exact ⟨s', hs', by rw [hth, Function.update_self, hnext]⟩
  · intro t id hpc
    obtain ⟨scope, hget, -, honly⟩ := h.found (t := t) (show (s.threads t).pending = some id by rw [Thread.pending, hpc])
    have hact : s.runtime.act (s.threads t) .next =
        some ({ s.runtime with
          writer := s.runtime.writer.call (.scope scope)
          writerLocked := false }, { s.threads t with pc := .user }) := by
      rw [Runtime.act, Runtime.next, hpc]
      simp only [Runtime.lookUp, hget]
      rfl
    obtain ⟨s', hs', hr, hth⟩ := Process.call_ok hact
    refine ⟨scope, s', honly, hs', by rw [hth, Function.update_self], by rw [hr]; rfl⟩

/-- A thread enters a scope while another exits it. -/
def contended : List Action :=
  [.call 0 (.enterScope "request" 10 1000), .call 1 (.exitScope ⟨0⟩ .success 20 2000 2000),
    .call 0 .next]

theorem contended_careful :
    Machine.Meets Process.step Careful (.new (newRunId (1, 2) 0) true 500) contended := by
  refine ⟨show 0 < 2 ^ 64 by decide, fun s₁ h₁ => ⟨trivial, fun s₂ h₂ => ⟨?_, fun _ _ => trivial⟩⟩⟩
  obtain rfl := Option.some.inj h₁
  obtain rfl := Option.some.inj h₂
  trivial

theorem enter_never_panics_contended : ∃ s scope s',
    Machine.run Process.step (.new (newRunId (1, 2) 0) true 500) contended = some s ∧
      (s.threads 0).pc = .lookingUp ⟨0⟩ ∧ s.step (.call 0 .next) = some s' ∧
      s'.runtime.writer.calls = s.runtime.writer.calls ++ [.scope scope] := by
  obtain ⟨s, hs⟩ : ∃ s, Machine.run Process.step (.new (newRunId (1, 2) 0) true 500) contended =
      some s := ⟨_, rfl⟩
  have hpc : (s.threads 0).pc = .lookingUp ⟨0⟩ := by
    obtain rfl := Option.some.inj hs
    rfl
  obtain ⟨-, -, hlookup⟩ := enter_never_panics (newRunId (1, 2) 0) true 500 contended s hs
    contended_careful
  obtain ⟨scope, s', -, hs', -, hcalls⟩ := hlookup 0 ⟨0⟩ hpc
  exact ⟨s, scope, s', hs, hpc, hs', hcalls⟩

/-! ## A clear between the sections -/

/-- A thread enters a scope, and another clears the journal before the lookup. -/
def clearedScope : List Action :=
  [.call 0 (.enterScope "request" 10 1000), .call 1 .clear, .call 1 .next, .call 0 .next,
    .call 0 .next]

/-- **Entering panics** when the journal is cleared between its two sections. -/
theorem enter_panics : ∃ s,
    Machine.run Process.step (.new (newRunId (1, 2) 0) true 500) clearedScope = some s ∧
      (s.threads 0).panicked = true ∧ s.runtime.writer.calls = [] :=
  ⟨_, rfl, rfl, rfl⟩

end Eventline
