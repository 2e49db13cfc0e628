/-
  The current scope of a journal.

  `exit_scope` makes the parent of the scope it closes current, if that scope
  was current.  The parent may have been exited before, or be gone.

  * `Journal.CurrentLive`: the current scope, if any, is held and open.
  * `current_live`: it is so all along a run exactly when no exit of a current
    scope finds its parent exited or gone.
  * `exits_out_of_order`: a parent exited before its child.
-/
import Eventline.Calls

namespace Eventline

open Checked Slots

namespace Journal

/-- The scope is held, and open. -/
def Live (j : Journal) (id : ScopeId) : Prop := ∃ x ∈ j.scopes, x.id = id ∧ x.exitedAt = none

def CurrentLive (j : Journal) : Prop := ∀ id, j.currentScope = some id → j.Live id

/-- The parent of the first scope with the id. -/
def parentOf (j : Journal) (id : ScopeId) : Option ScopeId :=
  (j.retained.find? (Scopes.hasId id)).bind (·.scope.parent)

theorem live_iff {j : Journal} {id : ScopeId} :
    j.Live id ↔ ∃ b ∈ j.retained, b.scope.id = id ∧ Scopes.isClosed b = false := by
  constructor
  · rintro ⟨x, hx, hid, hopen⟩
    obtain ⟨b, hb, rfl⟩ := List.mem_map.1 hx
    refine ⟨b, hb, hid, ?_⟩
    rw [Scopes.isClosed, hopen]
    rfl
  · rintro ⟨b, hb, hid, hopen⟩
    refine ⟨b.scope, List.mem_map.2 ⟨b, hb, rfl⟩, hid, ?_⟩
    simpa [Scopes.isClosed] using hopen

end Journal

namespace JournalRun

/-- If the call closes the current scope, then that has no parent, or the id of
    its parent is that of an open scope that is held beside it. -/
def ExitsInOrder (s : JournalRun) (c : JournalCall) : Prop :=
  ∀ id outcome, c.exits = some (id, outcome) → s.journal.currentScope = some id →
    s.journal.isOpen id = true → ∀ p, s.journal.parentOf id = some p →
      ∃ b ∈ s.journal.retained.eraseP (Scopes.hasId id),
        b.scope.id = p ∧ Scopes.isClosed b = false

/-- The current scope is live, and so is the one that an event is recorded in. -/
structure CurrentLive (s : JournalRun) : Prop where
  current : s.journal.CurrentLive
  record : ∀ kind name fields nanos s', s.step (.op (.record kind name fields nanos)) = some s' →
    ∃ r, s'.pushed = s.pushed ++ [r] ∧ ∀ id, r.scope = some id → s.journal.Live id

variable {s s' : JournalRun} {c : JournalCall}

/-- An event goes to the current scope. -/
theorem currentLive_iff (hwf : s.journal.WF) : s.CurrentLive ↔ s.journal.CurrentLive := by
  constructor
  · exact CurrentLive.current
  · intro h
    refine ⟨h, ?_⟩
    intro kind name fields nanos s' hs
    obtain ⟨ticket, -, heffect, -, -, hpushed⟩ := step_effect hwf hs
    cases heffect with
    | @record r exits event id noExit retained records =>
      rw [records, List.drop_left] at hpushed
      refine ⟨r, hpushed, fun id hid => h id ?_⟩
      rw [← hid]
      exact Option.some.inj event
    | enter exits event | keep exits event | clear exits event => cases event
    | exit exits | miss exits => cases exits

/-- The entries after the exit of an open scope: the others, and that one closed. -/
theorem mem_exit_iff {l : List BufferedScope} {id : ScopeId} {b x : BufferedScope} {ms : UInt64}
    {t : Instant} (hb : l.find? (Scopes.hasId id) = some b) (hopen : Scopes.isClosed x = false) :
    x ∈ updateFirst (Scopes.hasId id) (Scopes.closeIfOpen ms t) l ↔
      x ∈ l.eraseP (Scopes.hasId id) := by
  obtain ⟨pre, post, rfl, hid, hpre⟩ := find?_split hb
  have herase : (pre ++ b :: post).eraseP (Scopes.hasId id) = pre ++ post := by
    rw [List.eraseP_append_right _ (by simpa using hpre), List.eraseP_cons_of_pos hid]
  have hne : x ≠ Scopes.closeIfOpen ms t b := by
    rintro rfl
    rw [Journal.closeIfOpen_isClosed] at hopen
    cases hopen
  rw [updateFirst_split hid hpre, herase, List.mem_append, List.mem_append, List.mem_cons]
  constructor
  · rintro (hx | hx | hx)
    · exact .inl hx
    · exact absurd hx hne
    · exact .inr hx
  · rintro (hx | hx)
    · exact .inl hx
    · exact .inr (.inr hx)

/-- **A call keeps the current scope live exactly when its exit is in order.** -/
theorem step_currentLive (hwf : s.journal.WF) (hlive : s.journal.CurrentLive)
    (hs : s.step c = some s') : s'.journal.CurrentLive ↔ s.ExitsInOrder c := by
  obtain ⟨ticket, -, heffect, -, -, -⟩ := step_effect hwf hs
  have hlive' : ∀ id, s.journal.currentScope = some id →
      ∃ b ∈ s.journal.retained, b.scope.id = id ∧ Scopes.isClosed b = false :=
    fun id hid => Journal.live_iff.1 (hlive id hid)
  -- what is no exit keeps the live scope and is in order
  have hkeep : c.exits = none → s'.journal.CurrentLive →
      (s'.journal.CurrentLive ↔ s.ExitsInOrder c) := by
    intro hno h
    refine ⟨fun _ id outcome hid => ?_, fun _ => h⟩
    rw [hno] at hid
    cases hid
  cases heffect with
  | @enter b t exits event id opened clock retained records nextScope nextRecord current =>
    refine hkeep exits ?_
    intro id hid
    rw [Journal.live_iff, retained]
    rcases current with hc | hc
    · obtain ⟨x, hx, hxid, hxopen⟩ := hlive' id (hc ▸ hid)
      exact ⟨x, List.mem_append_left _ hx, hxid, hxopen⟩
    · rw [hc] at hid
      exact ⟨b, List.mem_append_right _ List.mem_cons_self, Option.some.inj hid, opened⟩
  | record exits event idr noExit retained records nextScope nextRecord current =>
    refine hkeep exits ?_
    intro id hid
    rw [Journal.live_iff, retained]
    exact hlive' id (current ▸ hid)
  | keep exits event retained records nextScope nextRecord current =>
    refine hkeep exits ?_
    intro id hid
    obtain ⟨x, hx, hxid, hxopen⟩ := hlive' id (current ▸ hid)
    obtain ⟨y, hy, hsame⟩ := retained.opens x hx hxopen
    rw [Journal.live_iff]
    exact ⟨y, hy, hsame.id.trans hxid, hsame.isClosed.trans hxopen⟩
  | clear exits event isClear retained records nextScope nextRecord current =>
    refine hkeep exits ?_
    intro id hid
    rw [current] at hid
    cases hid
  | @miss id outcome exits event closed retained records nextScope nextRecord current =>
    constructor
    · intro _ id' outcome' hid _ hopen
      obtain ⟨rfl, rfl⟩ := Prod.mk.inj (Option.some.inj (exits.symm.trans hid))
      rw [closed] at hopen
      cases hopen
    · intro _ id' hid
      rw [Journal.live_iff, retained]
      exact hlive' id' (current ▸ hid)
  | @exit id outcome b t ms ns exits event found opened retained records nextScope nextRecord
      current =>
    by_cases hcur : some id = s.journal.currentScope
    · -- the parent of the closed scope is current now
      rw [if_pos hcur] at current
      have hparent : s.journal.parentOf id = b.scope.parent := by
        rw [Journal.parentOf, found]
        rfl
      have hisopen : s.journal.isOpen id = true := by
        rw [Journal.isOpen, found, Option.any_some, opened]
        rfl
      constructor
      · intro h id' outcome' hid _ _ p hp
        obtain ⟨rfl, rfl⟩ := Prod.mk.inj (Option.some.inj (exits.symm.trans hid))
        obtain ⟨x, hx, hxid, hxopen⟩ :=
          Journal.live_iff.1 (h p (by rw [current, ← hparent, hp]))
        rw [retained, mem_exit_iff found hxopen] at hx
        exact ⟨x, hx, hxid, hxopen⟩
      · intro h p hp
        obtain ⟨x, hx, hxid, hxopen⟩ :=
          h id outcome exits hcur.symm hisopen p (by rw [hparent, ← current, hp])
        rw [Journal.live_iff, retained]
        exact ⟨x, (mem_exit_iff found hxopen).2 hx, hxid, hxopen⟩
    · -- another scope is closed
      rw [if_neg hcur] at current
      constructor
      · intro _ id' outcome' hid hc
        obtain ⟨rfl, rfl⟩ := Prod.mk.inj (Option.some.inj (exits.symm.trans hid))
        exact absurd hc.symm hcur
      · intro _ id' hid'
        rw [current] at hid'
        obtain ⟨x, hx, hxid, hxopen⟩ := hlive' id' hid'
        rw [Journal.live_iff, retained]
        refine ⟨x, (mem_exit_iff found hxopen).2 ?_, hxid, hxopen⟩
        have hno : ¬ Scopes.hasId id x = true := by
          intro hx'
          have hxid' : x.scope.id = id := by simpa [Scopes.hasId] using hx'
          exact hcur (by rw [hid', ← hxid, hxid'])
        exact (List.mem_eraseP_of_neg hno).2 hx

/-- From a state with a live current scope, it stays live all along a run
    exactly when the exits of the run are in order. -/
theorem run_currentLive {calls : List JournalCall} (hwf : s.journal.WF)
    (hlive : s.journal.CurrentLive) (hs : Machine.run step s calls = some s') :
    (∀ pre t, pre <+: calls → Machine.run step s pre = some t → t.CurrentLive) ↔
      Machine.Meets step ExitsInOrder s calls := by
  induction calls generalizing s with
  | nil =>
    refine ⟨fun _ => trivial, ?_⟩
    intro _ pre t hpre ht
    obtain rfl := List.prefix_nil.1 hpre
    obtain rfl := Option.some.inj ht
    exact (currentLive_iff hwf).2 hlive
  | cons c calls ih =>
    obtain ⟨u, hu, hrun⟩ := Machine.run_cons_eq_some.1 hs
    obtain ⟨ticket, huwf, -⟩ := step_effect hwf hu
    have hstep := step_currentLive hwf hlive hu
    constructor
    · intro h
      have hulive : u.journal.CurrentLive := by
        refine (h [c] u ⟨calls, rfl⟩ ?_).current
        rw [Machine.run_cons_eq_some]
        exact ⟨u, hu, rfl⟩
      refine ⟨hstep.1 hulive, ?_⟩
      intro t ht
      obtain rfl := Option.some.inj (hu.symm.trans ht)
      refine (ih huwf hulive hrun).1 ?_
      intro pre t hpre ht
      exact h (c :: pre) t (List.cons_prefix_cons.2 ⟨rfl, hpre⟩)
        (Machine.run_cons_eq_some.2 ⟨u, hu, ht⟩)
    · rintro ⟨hc, hrest⟩ pre t hpre ht
      have hulive := hstep.2 hc
      cases pre with
      | nil =>
        obtain rfl := Option.some.inj ht
        exact (currentLive_iff hwf).2 hlive
      | cons c' pre =>
        obtain ⟨rfl, hrest'⟩ := List.cons_prefix_cons.1 hpre
        obtain ⟨v, hv, ht⟩ := Machine.run_cons_eq_some.1 ht
        obtain rfl := Option.some.inj (hu.symm.trans hv)
        exact (ih huwf hulive hrun).2 (hrest u hu) pre t hrest' ht

/-- **The current scope is live all along a run exactly when no exit of a current
    scope finds its parent exited or gone.** -/
theorem current_live {runId : String} {calls : List JournalCall}
    (hs : Machine.run step (new runId) calls = some s) :
    (∀ pre t, pre <+: calls → Machine.run step (new runId) pre = some t → t.CurrentLive) ↔
      Machine.Meets step ExitsInOrder (new runId) calls :=
  run_currentLive (Journal.new_wf runId) (by rintro id ⟨⟩) hs

/-- Scopes exited in the order of their nesting. -/
theorem current_live_nested : ∃ s, Machine.run step (new "run")
    [.op (.enterScope "outer" 0 0), .op (.enterScope "inner" 0 0),
      .op (.exitScope ⟨1⟩ .success 0 0 0)] = some s ∧
    ((∀ pre t, pre <+: [.op (.enterScope "outer" 0 0), .op (.enterScope "inner" 0 0),
        .op (.exitScope ⟨1⟩ .success 0 0 0)] →
        Machine.run step (new "run") pre = some t → t.CurrentLive) ↔
      Machine.Meets step ExitsInOrder (new "run")
        [.op (.enterScope "outer" 0 0), .op (.enterScope "inner" 0 0),
          .op (.exitScope ⟨1⟩ .success 0 0 0)]) :=
  ⟨_, rfl, current_live rfl⟩

/-- **A parent exited before its child is current again**, though it is closed. -/
theorem exits_out_of_order : ∃ s, Machine.run step (new "run")
    [.op (.enterScope "outer" 0 0), .op (.enterScope "inner" 0 0),
      .op (.exitScope ⟨0⟩ .success 0 0 0), .op (.exitScope ⟨1⟩ .success 0 0 0)] = some s ∧
    ¬ s.CurrentLive := by
  refine ⟨_, rfl, ?_⟩
  intro h
  obtain ⟨x, hx, -, hopen⟩ := h.current ⟨0⟩ rfl
  have hall : ∀ x ∈ ([⟨⟨0⟩, none, 0, some "outer", some 0, .none⟩,
      ⟨⟨1⟩, some ⟨0⟩, 0, some "inner", some 0, .none⟩] : List Scope), x.exitedAt ≠ none := by
    decide
  exact hall x hx hopen

end JournalRun

end Eventline
