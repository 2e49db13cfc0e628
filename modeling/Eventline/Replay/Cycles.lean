/-
  What the repair of cycles changes.

  * `Repaired`: the scopes with the links of some ids cut, and one issue for
    each of them; the ids are on cycles, no two on one.
  * `walkStep_repaired`, `repair_repaired`: the step and the run lemma.
  * `repair_minimal`: finishing a run cuts one link of each cycle, and nothing
    else.
-/
import Eventline.Replay.Forest

namespace Eventline

open Checked Slots Links

/-- A scope after the repair. -/
def Scope.repaired (cuts : List ScopeId) (s : Scope) : Scope :=
  if s.id ∈ cuts then { s with parent := none } else s

theorem Scope.repaired_id (cuts : List ScopeId) (s : Scope) : (s.repaired cuts).id = s.id := by
  unfold repaired
  split_ifs <;> rfl

theorem map_repaired_nil (all : List Scope) : all.map (.repaired []) = all := by
  have hid : Scope.repaired [] = id := by
    funext s
    simp [Scope.repaired]
  rw [hid, List.map_id]

/-- Cutting links in the list cuts them in the graph. -/
theorem parentOf_repaired (cuts : List ScopeId) (all : List Scope) :
    parentOf (all.map (.repaired cuts)) = cutAll (parentOf all) cuts := by
  funext id
  rw [parentOf, List.find?_map, cutAll, parentOf]
  have hids : ((fun s : Scope => decide (s.id = id)) ∘ Scope.repaired cuts) =
      fun s => decide (s.id = id) := by
    funext s
    simp [Scope.repaired_id]
  rw [hids]
  cases hfind : all.find? fun s => s.id = id with
  | none => simp
  | some s =>
    have hid : s.id = id := by simpa using List.find?_some hfind
    subst hid
    unfold Scope.repaired
    split_ifs <;> simp_all

/-- The scopes and issues of a repair that has cut the links of the given ids. -/
structure Repaired (all : List Scope) (before : List ReplayIssue) (source : Option String)
    (scopes : List Scope) (issues : List ReplayIssue) (cuts : List ScopeId) : Prop where
  scopes : scopes = all.map (.repaired cuts)
  issues : issues = before ++ cuts.map (RunBuilder.cycleIssue source)
  apart : Apart (parentOf all) cuts

section
variable {all : List Scope} {before : List ReplayIssue} {source : Option String}
  (hnd : (all.map (·.id)).Nodup)
include hnd

/-- One more link is cut, on a cycle that is still there. -/
theorem Repaired.cut {scopes : List Scope} {issues : List ReplayIssue} {cuts : List ScopeId}
    (h : Repaired all before source scopes issues cuts) {pre post : List Scope} {s : Scope}
    (hs : scopes = pre ++ s :: post) (hcyc : OnCycle (parentOf scopes) s.id) :
    Repaired all before source (pre ++ { s with parent := none } :: post)
      (issues ++ [RunBuilder.cycleIssue source s.id]) (cuts ++ [s.id]) := by
  have hgraph : parentOf scopes = cutAll (parentOf all) cuts := by
    rw [h.scopes, parentOf_repaired]
  refine ⟨?_, ?_, h.apart.concat (hgraph ▸ hcyc)⟩
  · obtain ⟨pre₀, rest, hall, hpre, hrest⟩ := List.map_eq_append_iff.1 (h.scopes.symm.trans hs)
    obtain ⟨s₀, post₀, rfl, hs₀, hpost⟩ := List.map_eq_cons_iff.1 hrest
    have hid : s.id = s₀.id := by rw [← hs₀, Scope.repaired_id]
    have hother : ∀ x ∈ pre₀ ++ post₀, x.repaired (cuts ++ [s.id]) = x.repaired cuts := by
      intro x hx
      have hne : x.id ≠ s.id := by
        rintro hxs
        rw [hall, List.map_append, List.map_cons, List.nodup_middle, List.nodup_cons,
          ← List.map_append] at hnd
        exact hnd.1 (List.mem_map.2 ⟨x, hx, hxs.trans hid⟩)
      simp [Scope.repaired, hne]
    have hself : s₀.repaired (cuts ++ [s.id]) = { s with parent := none } := by
      rw [Scope.repaired, if_pos (by simp [hid]), ← hs₀]
      unfold Scope.repaired
      split_ifs <;> rfl
    rw [hall, List.map_append, List.map_cons, hself, ← hpre, ← hpost]
    congr 1
    · exact List.map_congr_left fun x hx => (hother x (List.mem_append_left _ hx)).symm
    · congr 1
      exact List.map_congr_left fun x hx => (hother x (List.mem_append_right _ hx)).symm
  · rw [h.issues, List.append_assoc, List.map_append]
    rfl

/-- **One iteration of the walk** cuts at most one link, on a cycle. -/
theorem walkStep_repaired {index : ScopeId → Option ℕ} {r : Repair} {start : ScopeId}
    (hidx : index = fun id => r.scopes.findIdx? fun s => s.id = id) {w w' : Walk}
    (h : WalkInv r start w) (hw : ∃ cuts, Repaired all before source w.scopes w.issues cuts)
    (hstep : walkStep index source r.done w = .ok w') :
    ∃ cuts, Repaired all before source w'.scopes w'.issues cuts := by
  unfold walkStep at hstep
  split at hstep
  · exact Except.ok.inj hstep ▸ hw
  · rename_i id hid
    split_ifs at hstep with hdone
    · exact Except.ok.inj hstep ▸ hw
    · obtain ⟨pre, s, post, hl, rfl, hat⟩ := walkAt_ok hidx source h hid
      rw [hat] at hstep
      obtain rfl := Except.ok.inj hstep
      split_ifs with hpath
      · -- the walk is back at a scope of its path
        obtain ⟨cuts, hcuts⟩ := hw
        have hcyc := h.leads s.id hpath
        rw [hid] at hcyc
        exact ⟨cuts ++ [s.id], hcuts.cut hnd hl hcyc⟩
      · exact hw

/-- **A walk** cuts links of cycles, no two of one. -/
theorem repairFrom_repaired {index : ScopeId → Option ℕ} {r r' : Repair} {start : ScopeId}
    (hidx : index = fun id => r.scopes.findIdx? fun s => s.id = id)
    (hrnd : (r.scopes.map (·.id)).Nodup) (hpar : ParentsWithin r.scopes (r.scopes.map (·.id)))
    (hdone : ∀ x ∈ r.done, Rooted (parentOf r.scopes) x) (hstart : start ∈ r.scopes.map (·.id))
    (hr : ∃ cuts, Repaired all before source r.scopes r.issues cuts)
    (h : repairFrom index source r start = .ok r') :
    ∃ cuts, Repaired all before source r'.scopes r'.issues cuts := by
  obtain ⟨w, hw, h⟩ := bind_eq_ok.1 h
  obtain rfl := Except.ok.inj h
  have hkeep : ∀ w₁ w₂ : Walk,
      (WalkInv r start w₁ ∧ ∃ cuts, Repaired all before source w₁.scopes w₁.issues cuts) →
      w₁.current.isSome = true → walkStep index source r.done w₁ = .ok w₂ →
      WalkInv r start w₂ ∧ ∃ cuts, Repaired all before source w₂.scopes w₂.issues cuts := by
    rintro w₁ w₂ ⟨hinv, hrep⟩ hc hstep
    obtain ⟨w', hw', hinv', -⟩ := walkStep_ok hidx hrnd hpar source hinv hc
    obtain rfl := Except.ok.inj (hstep.symm.trans hw')
    exact ⟨hinv', walkStep_repaired hnd hidx hinv hrep hstep⟩
  exact (whileM_invariant hkeep hw ⟨walkInv_start hdone hstart, hr⟩).2

/-- **The repair** cuts links of cycles, no two of one. -/
theorem repair_repaired {index : ScopeId → Option ℕ} {starts : List ScopeId} {r r' : Repair}
    (hidx : index = fun id => r.scopes.findIdx? fun s => s.id = id)
    (hrnd : (r.scopes.map (·.id)).Nodup) (hpar : ParentsWithin r.scopes (r.scopes.map (·.id)))
    (hdone : ∀ x ∈ r.done, Rooted (parentOf r.scopes) x)
    (hstarts : ∀ x ∈ starts, x ∈ r.scopes.map (·.id))
    (hr : ∃ cuts, Repaired all before source r.scopes r.issues cuts)
    (h : starts.foldlM (repairFrom index source) r = .ok r') :
    ∃ cuts, Repaired all before source r'.scopes r'.issues cuts := by
  induction starts generalizing r with
  | nil => exact Except.ok.inj h ▸ hr
  | cons start starts ih =>
    obtain ⟨hstart, hstarts⟩ := List.forall_mem_cons.1 hstarts
    obtain ⟨r₁, h₁, hcut₁, -, -, hdone₁, -, -⟩ :=
      repairFrom_ok hidx hrnd hpar source hdone hstart
    rw [List.foldlM_cons, h₁, ok_bind] at h
    have hids := hcut₁.ids
    refine ih ?_ (hids ▸ hrnd) (hids ▸ hpar.cut hcut₁) hdone₁ (fun x hx => hids ▸ hstarts x hx)
      (repairFrom_repaired hnd hidx hrnd hpar hdone hstart hr h₁) h
    simp only [hidx, findIdx?_ids, hids]

end

/-! ## Finishing a run -/

namespace RunBuilder

/-- What headers, snapshots and records make of a new builder. -/
inductive Accumulated (serde : SerdeJson) : RunBuilder → Prop
  | new (runId source : Option String) : Accumulated serde (.new runId source)
  | headers {b : RunBuilder} (headers : List String) :
      Accumulated serde b → Accumulated serde (b.withHeaders headers)
  | scope {b b' : RunBuilder} {scope : Scope} {message : Option String} :
      Accumulated serde b → b.addScope scope = .ok (b', message) → Accumulated serde b'
  | record {b b' : RunBuilder} {record : Record} {issue : Option (ReplayIssueKind × String)} :
      Accumulated serde b → b.addRecord serde record = .ok (b', issue) → Accumulated serde b'

theorem Accumulated.wf {serde : SerdeJson} (hs : serde.Lawful) {b : RunBuilder}
    (h : Accumulated serde b) : b.WF := by
  induction h with
  | new runId source => exact new_wf runId source
  | headers hs _ ih => exact ih.withHeaders hs
  | @scope b b' scope message _ hadd ih =>
    obtain ⟨b₁, hok, hwf, -⟩ := addScope_ok ih scope
    obtain ⟨rfl, -⟩ := Prod.mk.inj (Except.ok.inj (hok.symm.trans hadd))
    exact hwf
  | @record b b' record issue _ hadd ih =>
    obtain ⟨b₁, issue₁, hok, hwf, -⟩ := addRecord_ok hs ih record
    obtain ⟨rfl, -⟩ := Prod.mk.inj (Except.ok.inj (hok.symm.trans hadd))
    exact hwf

/-- What finishing a run does: with the links of some ids cut, one on each cycle,
    the scopes are as they were, and so is the rest of the run. -/
structure RepairsMinimally (b : RunBuilder) (run : SavedRun) (issues : List ReplayIssue)
    (cuts : List ScopeId) : Prop where
  scopes : run.scopes = b.allScopes.map fun s => if s.id ∈ cuts then { s with parent := none } else s
  rest : run = { b.run with
    scopes := run.scopes, missingScopeMetadata := b.run.missingScopeMetadata ++ b.missing }
  cyclic : ∀ id ∈ cuts, OnCycle (parentOf b.allScopes) id
  one : ∀ id, OnCycle (parentOf b.allScopes) id →
    ∃! c, c ∈ cuts ∧ Leads (parentOf b.allScopes) id (some c)
  reported : issues = b.missing.map (missingIssue b.source) ++ cuts.map (cycleIssue b.source)
  count : (issues.filter fun i => i.kind = .invalidHierarchy).length =
    (cycles (parentOf b.allScopes)).ncard

/-- Finishing a run cuts one link of each cycle. -/
theorem WF.finish_repairs {b : RunBuilder} (h : b.WF) :
    ∃ run issues cuts, b.finish = .ok (run, issues) ∧ b.RepairsMinimally run issues cuts := by
  obtain ⟨b', hfold, hwf, hrun, hsrc⟩ :=
    addPlaceholders_ok h (neededScopes b.run.scopes b.run.records) []
  have hscopes : b'.run.scopes = b.allScopes := by
    rw [hrun]
    rfl
  have hpar : ParentsWithin b'.run.scopes (b'.run.scopes.map (·.id)) := by
    rw [hscopes]
    exact b.allScopes_parentsWithin
  obtain ⟨r, hr, hcut, hdone, -, -⟩ := repair_ok b'.source (b'.run.scopes.map (·.id))
    (r := ⟨b'.run.scopes, b.missing.map (missingIssue b.source), ∅⟩) hwf.scopes hwf.nodup hpar
    (by simp) (fun x hx => hx)
  have huncut : ∃ cuts, Repaired b'.run.scopes (b.missing.map (missingIssue b.source)) b'.source
      b'.run.scopes (b.missing.map (missingIssue b.source)) cuts :=
    ⟨[], (map_repaired_nil _).symm, (List.append_nil _).symm, apart_nil⟩
  obtain ⟨cuts, hrep⟩ := repair_repaired hwf.nodup hwf.scopes hwf.nodup hpar (by simp)
    (fun x hx => hx) huncut hr
  have hrooted : ∀ s ∈ r.scopes, Rooted (parentOf r.scopes) s.id := by
    intro s hsr
    refine hdone s.id (.inr ?_)
    rw [← hcut.ids]
    exact List.mem_map.2 ⟨s, hsr, rfl⟩
  have hend : ∀ id, ¬ OnCycle (cutAll (parentOf b.allScopes) cuts) id := by
    intro id
    rw [← hscopes, ← parentOf_repaired, ← hrep.scopes]
    exact not_cycle_of_rooted hrooted id
  have hapart : Apart (parentOf b.allScopes) cuts := hscopes ▸ hrep.apart
  have hissues : r.issues =
      b.missing.map (missingIssue b.source) ++ cuts.map (cycleIssue b.source) := by
    rw [hrep.issues, hsrc]
  refine ⟨{ b'.run with scopes := r.scopes }, r.issues, cuts, ?_, ?_, ?_, hapart.onCycle,
    fun id hid => hapart.exists_unique hend hid, hissues, ?_⟩
  · rw [finish, hfold]
    simp only [List.nil_append]
    rw [missing] at hr
    rw [hr]
    rfl
  · rw [← hscopes]
    exact hrep.scopes
  · rw [hrun]
    rfl
  · have hmissing : (b.missing.map (missingIssue b.source)).filter
        (fun i => i.kind = .invalidHierarchy) = [] := by
      simp [List.filter_eq_nil_iff, missingIssue]
    have hcycles : (cuts.map (cycleIssue b.source)).filter (fun i => i.kind = .invalidHierarchy) =
        cuts.map (cycleIssue b.source) := by
      simp [List.filter_eq_self, cycleIssue]
    rw [hissues, List.filter_append, hmissing, hcycles, List.nil_append, List.length_map,
      hapart.ncard_cycles hend]

/-- **The repair is minimal**: it cuts one link of each cycle, with one issue. -/
theorem repair_minimal {serde : SerdeJson} (hs : serde.Lawful) {b : RunBuilder}
    (h : Accumulated serde b) :
    ∃ run issues cuts, b.finish = .ok (run, issues) ∧ b.RepairsMinimally run issues cuts :=
  (h.wf hs).finish_repairs

/-- A run with two scopes that are each other's parents. -/
def mutualParents : Checked RunBuilder := do
  let (b, _) ← (RunBuilder.new (some "run") none).addScope ⟨⟨1⟩, some ⟨2⟩, 5, none, none, .none⟩
  let (b, _) ← b.addScope ⟨⟨2⟩, some ⟨1⟩, 5, none, none, .none⟩
  pure b

theorem repair_minimal_mutual : ∃ b run issues cuts, mutualParents = .ok b ∧
    b.finish = .ok (run, issues) ∧ b.RepairsMinimally run issues cuts ∧
    run.scopes.map (·.parent) = [none, some ⟨1⟩] := by
  obtain ⟨b, run, issues, hb, hfinish, hparents⟩ : ∃ b run issues, mutualParents = .ok b ∧
      b.finish = .ok (run, issues) ∧ run.scopes.map (·.parent) = [none, some ⟨1⟩] :=
    ⟨_, _, _, rfl, rfl, rfl⟩
  have hacc : Accumulated compactSerde b := by
    obtain ⟨⟨b₁, m₁⟩, h₁, hb⟩ := bind_eq_ok.1 hb
    obtain ⟨⟨b₂, m₂⟩, h₂, hb⟩ := bind_eq_ok.1 hb
    exact Except.ok.inj hb ▸ .scope (.scope (.new _ _) h₁) h₂
  obtain ⟨run', issues', cuts, hfinish', hrep⟩ := repair_minimal compactSerde_lawful hacc
  obtain ⟨rfl, -⟩ := Prod.mk.inj (Except.ok.inj (hfinish.symm.trans hfinish'))
  exact ⟨b, run, issues', cuts, hb, hfinish', hrep, hparents⟩

end RunBuilder

/-- The scopes of a run are the given ones, with one link of each cycle cut. -/
def SavedRun.MendedFrom (run : SavedRun) (scopes : List Scope) : Prop :=
  ∃ cuts : List ScopeId,
    run.scopes = scopes.map (fun s => if s.id ∈ cuts then { s with parent := none } else s) ∧
    (∀ id ∈ cuts, OnCycle (parentOf scopes) id) ∧
    ∀ id, OnCycle (parentOf scopes) id → ∃! c, c ∈ cuts ∧ Leads (parentOf scopes) id (some c)

/-- **A completed run** has the scopes that were gathered, mended. -/
theorem finishes_mended {b : RunBuilder} {run : SavedRun} (h : b.WF)
    (hmiss : b.run.missingScopeMetadata = []) (hf : Finishes b run) :
    run.MendedFrom (b.run.scopes ++ run.missingScopeMetadata.map placeholder) := by
  obtain ⟨issues, hf⟩ := hf
  obtain ⟨run', issues', cuts, hok, hrep⟩ := h.finish_repairs
  obtain ⟨rfl, -⟩ := Prod.mk.inj (Except.ok.inj (hok.symm.trans hf))
  have hmissing : run'.missingScopeMetadata = b.missing := by
    rw [hrep.rest, hmiss, List.nil_append]
  rw [hmissing]
  exact ⟨cuts, hrep.scopes, hrep.cyclic, hrep.one⟩

end Eventline
