/-
  The contexts of threads and wrapped futures are isolated.

  * `ContextLog.stack` is the stack that a context should have: the captured
    one with the ids that its code entered, those that it exited removed.
  * `Isolated`: the stack of a thread, and those saved by the contexts that it
    has installed, are the stacks of the contexts in question.
  * `contexts_isolated`: every step keeps that, whatever the interleaving.
-/
import Eventline.Runtime.Machine
import Eventline.Wire.Render

namespace Eventline

open Checked

/-! ## The stack of a context -/

/-- A list without the last occurrence of an element. -/
def eraseLast (stack : List ScopeId) (id : ScopeId) : List ScopeId :=
  (stack.reverse.erase id).reverse

def StackStep.apply (stack : List ScopeId) : StackStep → List ScopeId
  | .entered id => stack ++ [id]
  | .exited id => eraseLast stack id

def ContextLog.stack (log : ContextLog) : List ScopeId := log.steps.foldl StackStep.apply log.captured

/-- **Removing an id** takes its last occurrence. -/
theorem removeScopeFromStack_eq (stack : List ScopeId) (id : ScopeId) :
    removeScopeFromStack stack id = eraseLast stack id := by
  unfold removeScopeFromStack eraseLast
  split_ifs with hlast
  · obtain ⟨init, rfl⟩ := List.getLast?_eq_some_iff.1 hlast
    simp
  · unfold rposition
    cases hi : stack.reverse.findIdx? fun scopeId => decide (scopeId = id) with
    | none =>
      have hnot : id ∉ stack.reverse := by
        intro hm
        simpa using List.findIdx?_eq_none_iff.1 hi id hm
      rw [List.erase_of_not_mem hnot, List.reverse_reverse]
      rfl
    | some i =>
      obtain ⟨hlt, hid, hmin⟩ := List.findIdx?_eq_some_iff_getElem.1 hi
      have hsplit : stack.reverse = stack.reverse.take i ++ id :: stack.reverse.drop (i + 1) := by
        conv_lhs => rw [← List.take_append_drop i stack.reverse, List.drop_eq_getElem_cons hlt]
        rw [show stack.reverse[i] = id by simpa using hid]
      have hnot : id ∉ stack.reverse.take i := by
        intro hm
        obtain ⟨j, hj, hjid⟩ := List.mem_take_iff_getElem.1 hm
        have hne := hmin j (by omega)
        rw [hjid] at hne
        simp at hne
      have hlen : (stack.reverse.take i).length = i := List.length_take_of_le hlt.le
      generalize stack.reverse.take i = later at *
      generalize stack.reverse.drop (i + 1) = earlier at *
      have hstack : stack = earlier.reverse ++ id :: later.reverse := by
        rw [← List.reverse_reverse stack, hsplit]
        simp
      have hpos : stack.length - 1 - i = earlier.reverse.length := by
        rw [hstack, ← hlen]
        simp
      rw [hsplit, List.erase_append_right _ hnot, List.erase_cons_head, Option.map_some, hpos]
      dsimp only
      rw [hstack, List.eraseIdx_append_of_length_le le_rfl]
      simp

/-! ## What a call does to a stack -/

/-- A section of a thread that does not clear leaves the installed contexts
    alone, and does to the stack what it logs. -/
theorem Section.stack_eq {r r' : Runtime} {th th' : Thread} {a : Act} (h : Section r th a r' th')
    (hclear : a ≠ .clear) (hpc : th.pc ≠ .clearing) :
    th'.frames = th.frames ∧ th'.pc ≠ .clearing ∧
      th'.stack = (Process.logged a th').foldl StackStep.apply th.stack := by
  cases h with
  | clear => exact absurd rfl hclear
  | finishClear hclearing => exact absurd hclearing hpc
  | count _ hnext =>
    refine ⟨rfl, ?_, rfl⟩
    rcases hnext with rfl | rfl
    · rintro ⟨⟩
    · rintro ⟨⟩
  | exitScope => exact ⟨rfl, by rintro ⟨⟩, removeScopeFromStack_eq ..⟩
  | exitNothing => exact ⟨rfl, hpc, removeScopeFromStack_eq ..⟩
  | messages => exact ⟨rfl, hpc, rfl⟩
  | updateWriters => exact ⟨rfl, hpc, rfl⟩
  | retention => exact ⟨rfl, hpc, rfl⟩
  | _ => exact ⟨rfl, by rintro ⟨⟩, rfl⟩

/-! ## The invariant -/

/-- The contexts that a thread has installed, the innermost first, and its own. -/
def contextsOf (t : ThreadId) (frames : List InstalledContext) : List Context :=
  frames.map (fun frame => .future frame.future) ++ [.ambient t]

theorem contextsOf_eq_cons (t : ThreadId) (frames : List InstalledContext) :
    ∃ below, contextsOf t frames = contextOf t frames :: below := by
  cases frames with
  | nil => exact ⟨[], rfl⟩
  | cons frame frames => exact ⟨contextsOf t frames, rfl⟩

/-- The stack that a context should have. -/
def Process.expected (s : Process) (c : Context) : List ScopeId := (s.contexts c).stack

structure Isolated (s : Process) : Prop where
  running : ∀ t, (s.threads t).pc ≠ .clearing
  saved : ∀ t, (s.threads t).stack :: (s.threads t).frames.map (·.before) =
    (contextsOf t (s.threads t).frames).map s.expected
  stored : ∀ f w, s.futures f = some w → w.installed = false → w.stack = s.expected (.future f)
  installed : ∀ t, ∀ frame ∈ (s.threads t).frames,
    s.futures frame.future = some ⟨frame.before, true⟩
  distinct : ∀ t, (contextsOf t (s.threads t).frames).Nodup
  apart : ∀ t u, t ≠ u →
    List.Disjoint (contextsOf t (s.threads t).frames) (contextsOf u (s.threads u).frames)

theorem new_isolated (runId : String) (wants : Bool) (max : ℕ) :
    Isolated (.new runId wants max) where
  running _ := by rintro ⟨⟩
  saved _ := rfl
  stored _ _ h := by cases h
  installed _ _ h := by cases h
  distinct _ := List.nodup_singleton _
  apart t u htu := by
    rw [List.disjoint_left]
    intro c hc hc'
    rw [List.mem_singleton.1 hc] at hc'
    exact htu (Context.ambient.inj (List.mem_singleton.1 hc'))

section
variable {s s' : Process} (h : Isolated s)
include h

/-- The stack of a thread is that of the context whose code it runs. -/
theorem Isolated.current (t : ThreadId) :
    (s.threads t).stack = s.expected (contextOf t (s.threads t).frames) := by
  have hsaved := h.saved t
  obtain ⟨below, hb⟩ := contextsOf_eq_cons t (s.threads t).frames
  rw [hb] at hsaved
  exact (List.cons.inj hsaved).1

/-- A future that is not installed is in no thread. -/
theorem Isolated.not_mem {f : FutureId}
    (hf : ∀ stack, s.futures f ≠ some ⟨stack, true⟩) (t : ThreadId) :
    Context.future f ∉ contextsOf t (s.threads t).frames := by
  intro hm
  rcases List.mem_append.1 hm with hm | hm
  · obtain ⟨frame, hframe, hc⟩ := List.mem_map.1 hm
    obtain rfl := Context.future.inj hc
    exact hf _ (h.installed t frame hframe)
  · cases List.mem_singleton.1 hm

theorem Isolated.call {t : ThreadId} {a : Act} (ha : a ≠ .clear) (hs : s.call t a = some s') :
    Isolated s' := by
  obtain ⟨r, th, hsec, -, hthreads, hfutures, hcontexts⟩ := Process.call_inv hs
  obtain ⟨hframes, hpc, hstack⟩ := hsec.stack_eq ha (h.running t)
  have hself : s'.threads t = th := by rw [hthreads, Function.update_self]
  have hother : ∀ u, u ≠ t → s'.threads u = s.threads u := by
    intro u hu
    rw [hthreads, Function.update_of_ne hu]
  have hall : ∀ u, (s'.threads u).frames = (s.threads u).frames := by
    intro u
    by_cases hu : u = t
    · subst hu
      rw [hself, hframes]
    · rw [hother u hu]
  have hexp : ∀ c, c ≠ contextOf t (s.threads t).frames → s'.expected c = s.expected c := by
    intro c hc
    rw [Process.expected, Process.expected, hcontexts, Function.update_of_ne hc]
  have hown : s'.expected (contextOf t (s.threads t).frames) = th.stack := by
    rw [hstack, h.current t, Process.expected, hcontexts, Function.update_self, Process.expected,
      ContextLog.stack, ContextLog.stack, List.foldl_append]
  obtain ⟨below, hb⟩ := contextsOf_eq_cons t (s.threads t).frames
  refine ⟨?_, ?_, ?_, ?_, ?_, ?_⟩
  · intro u
    by_cases hu : u = t
    · subst hu
      rw [hself]
      exact hpc
    · rw [hother u hu]
      exact h.running u
  · intro u
    have hsaved := h.saved u
    by_cases hu : u = t
    · subst hu
      -- only the innermost of the thread's contexts is concerned
      have hnd := h.distinct u
      rw [hb, List.nodup_cons] at hnd
      have hsame : below.map s'.expected = below.map s.expected :=
        List.map_congr_left fun c hc => hexp c fun he => hnd.1 (he ▸ hc)
      rw [hb] at hsaved
      rw [hself, hframes, hb, List.map_cons, hown, hsame, (List.cons.inj hsaved).2]
    · rw [hother u hu, hsaved]
      refine List.map_congr_left fun c hc => (hexp c ?_).symm
      rintro rfl
      exact List.disjoint_left.1 (h.apart u t hu) hc (by rw [hb]; exact List.mem_cons_self)
  · intro f w hf hw
    rw [hfutures] at hf
    rw [h.stored f w hf hw]
    refine (hexp _ ?_).symm
    intro hc
    refine h.not_mem (f := f) ?_ t (by rw [hb, ← hc]; exact List.mem_cons_self)
    intro stack hstack
    rw [hstack] at hf
    rw [← Option.some.inj hf] at hw
    cases hw
  · intro u frame hframe
    rw [hall u] at hframe
    rw [hfutures]
    exact h.installed u frame hframe
  · intro u
    rw [hall u]
    exact h.distinct u
  · intro u v huv
    rw [hall u, hall v]
    exact h.apart u v huv

theorem Isolated.wrap {t : ThreadId} {f : FutureId} {capture : Bool}
    (hs : s.wrap t f capture = some s') : Isolated s' := by
  obtain ⟨stack, -, hf, -, rfl⟩ := Process.wrap_inv hs
  have hnot := h.not_mem (f := f) (by simp [hf])
  have hexp : ∀ c, c ≠ .future f → Process.expected { s with
      futures := Function.update s.futures f (some ⟨stack, false⟩)
      contexts := Function.update s.contexts (.future f) ⟨stack, []⟩ } c = s.expected c := by
    intro c hc
    unfold Process.expected
    dsimp only
    rw [Function.update_of_ne hc]
  refine ⟨h.running, ?_, ?_, ?_, h.distinct, h.apart⟩
  · intro u
    refine (h.saved u).trans (List.map_congr_left fun c hc => (hexp c ?_).symm)
    rintro rfl
    exact hnot u hc
  · intro g w hg hw
    by_cases hgf : g = f
    · subst hgf
      dsimp only at hg
      rw [Function.update_self] at hg
      rw [← Option.some.inj hg]
      unfold Process.expected
      dsimp only
      rw [Function.update_self]
      rfl
    · dsimp only at hg
      rw [Function.update_of_ne hgf] at hg
      rw [hexp _ fun hc => hgf (Context.future.inj hc)]
      exact h.stored g w hg hw
  · intro u frame hframe
    have hne : frame.future ≠ f := by
      intro he
      have hin := h.installed u frame hframe
      rw [he, hf] at hin
      cases hin
    dsimp only
    rw [Function.update_of_ne hne]
    exact h.installed u frame hframe

theorem Isolated.install {t : ThreadId} {f : FutureId} (hs : s.install t f = some s') :
    Isolated s' := by
  obtain ⟨stack, hpc, hf, rfl⟩ := Process.install_inv hs
  have hnot := h.not_mem (f := f) (by simp [hf])
  have hchain : ∀ u, contextsOf u ((Function.update s.threads t
      { s.threads t with stack, frames := ⟨f, (s.threads t).stack⟩ :: (s.threads t).frames }) u).frames =
      if u = t then .future f :: contextsOf t (s.threads t).frames
      else contextsOf u (s.threads u).frames := by
    intro u
    by_cases hu : u = t
    · subst hu
      rw [Function.update_self, if_pos rfl]
      rfl
    · rw [Function.update_of_ne hu, if_neg hu]
  refine ⟨?_, ?_, ?_, ?_, ?_, ?_⟩
  · intro u
    by_cases hu : u = t
    · subst hu
      dsimp only
      rw [Function.update_self, hpc]
      rintro ⟨⟩
    · dsimp only
      rw [Function.update_of_ne hu]
      exact h.running u
  · intro u
    dsimp only
    rw [hchain u]
    by_cases hu : u = t
    · subst hu
      rw [Function.update_self, if_pos rfl, List.map_cons, List.map_cons]
      exact congrArg₂ List.cons (h.stored f _ hf rfl) (h.saved u)
    · rw [Function.update_of_ne hu, if_neg hu]
      exact h.saved u
  · intro g w hg hw
    by_cases hgf : g = f
    · subst hgf
      dsimp only at hg
      rw [Function.update_self] at hg
      rw [← Option.some.inj hg] at hw
      cases hw
    · dsimp only at hg
      rw [Function.update_of_ne hgf] at hg
      exact h.stored g w hg hw
  · intro u frame hframe
    have hold : frame ∈ (s.threads u).frames → Function.update s.futures f
        (some ⟨(s.threads t).stack, true⟩) frame.future = some ⟨frame.before, true⟩ := by
      intro hm
      have hin := h.installed u frame hm
      have hne : frame.future ≠ f := by
        intro he
        rw [he, hf] at hin
        cases hin
      rw [Function.update_of_ne hne, hin]
    dsimp only at hframe ⊢
    by_cases hu : u = t
    · subst hu
      rw [Function.update_self] at hframe
      rcases List.mem_cons.1 hframe with rfl | hm
      · rw [Function.update_self]
      · exact hold hm
    · rw [Function.update_of_ne hu] at hframe
      exact hold hframe
  · intro u
    dsimp only
    rw [hchain u]
    split_ifs
    · exact List.nodup_cons.2 ⟨hnot t, h.distinct t⟩
    · exact h.distinct u
  · intro u v huv
    dsimp only
    rw [hchain u, hchain v]
    split_ifs with hu hv hv
    · exact absurd (hu.trans hv.symm) huv
    · rw [List.disjoint_cons_left]
      exact ⟨hnot v, h.apart t v fun he => hv he.symm⟩
    · rw [List.disjoint_cons_right]
      exact ⟨hnot u, h.apart u t hu⟩
    · exact h.apart u v huv

theorem Isolated.uninstall {t : ThreadId} {dropped : Bool}
    (hs : s.uninstall t dropped = some s') : Isolated s' ∧
      ∃ frame frames, (s.threads t).frames = frame :: frames ∧
        (s'.threads t).frames = frames ∧ (s'.threads t).stack = frame.before := by
  obtain ⟨frame, frames, w, hpc, hframes, hw, rfl⟩ := Process.uninstall_inv hs
  have hin := h.installed t frame (by rw [hframes]; exact List.mem_cons_self)
  obtain rfl := Option.some.inj (hw.symm.trans hin)
  have hown := h.saved t
  have hnd := h.distinct t
  rw [hframes] at hown hnd
  obtain ⟨htop, hrest⟩ := List.cons.inj hown
  obtain ⟨hnot, hnd'⟩ := List.nodup_cons.1 hnd
  have hsub : ∀ u, contextsOf u ((Function.update s.threads t
      { s.threads t with stack := frame.before, frames }) u).frames ⊆
        contextsOf u (s.threads u).frames := by
    intro u c hc
    by_cases hu : u = t
    · subst hu
      rw [Function.update_self] at hc
      rw [hframes]
      exact List.mem_cons_of_mem _ hc
    · rwa [Function.update_of_ne hu] at hc
  refine ⟨⟨?_, ?_, ?_, ?_, ?_, ?_⟩, frame, frames, hframes, ?_, ?_⟩
  · intro u
    by_cases hu : u = t
    · subst hu
      dsimp only
      rw [Function.update_self, hpc]
      rintro ⟨⟩
    · dsimp only
      rw [Function.update_of_ne hu]
      exact h.running u
  · intro u
    by_cases hu : u = t
    · subst hu
      dsimp only
      rw [Function.update_self]
      exact hrest
    · dsimp only
      rw [Function.update_of_ne hu]
      exact h.saved u
  · intro g v hg hv
    dsimp only at hg
    by_cases hgf : g = frame.future
    · subst hgf
      rw [Function.update_self] at hg
      split_ifs at hg
      rw [← Option.some.inj hg]
      exact htop
    · rw [Function.update_of_ne hgf] at hg
      exact h.stored g v hg hv
  · intro u g hg
    dsimp only at hg ⊢
    have hne : g.future ≠ frame.future := by
      intro he
      by_cases hu : u = t
      · subst hu
        rw [Function.update_self] at hg
        refine hnot (List.mem_append_left _ (List.mem_map.2 ⟨g, hg, ?_⟩))
        rw [he]
      · rw [Function.update_of_ne hu] at hg
        refine List.disjoint_left.1 (h.apart u t hu)
          (List.mem_append_left _ (List.mem_map.2 ⟨g, hg, rfl⟩)) ?_
        rw [he, hframes]
        exact List.mem_cons_self
    rw [Function.update_of_ne hne]
    by_cases hu : u = t
    · subst hu
      rw [Function.update_self] at hg
      exact h.installed u g (by rw [hframes]; exact List.mem_cons_of_mem _ hg)
    · rw [Function.update_of_ne hu] at hg
      exact h.installed u g hg
  · intro u
    dsimp only
    by_cases hu : u = t
    · subst hu
      rw [Function.update_self]
      exact hnd'
    · rw [Function.update_of_ne hu]
      exact h.distinct u
  · intro u v huv c hc hc'
    exact h.apart u v huv (hsub u hc) (hsub v hc')
  · dsimp only
    rw [Function.update_self]
  · dsimp only
    rw [Function.update_self]

end

/-! ## Runs without `clear` -/

/-- The actions of programs that do not call `clear`. -/
def Action.Clears : Action → Prop
  | .call _ a => a = .clear
  | _ => False

/-- The invariant of runs without `clear`. -/
structure Contexts (s : Process) : Prop where
  isolated : Isolated s
  journal : s.runtime.journal.WF

theorem Contexts.step {s s' : Process} (h : Contexts s) {a : Action} (ha : ¬ a.Clears)
    (hs : s.step a = some s') : Contexts s' := by
  cases a with
  | call t a =>
    refine ⟨h.isolated.call ha hs, ?_⟩
    obtain ⟨r, th, hsec, hr, -⟩ := Process.call_inv hs
    rw [hr]
    exact hsec.wf h.journal
  | wrap t f capture =>
    refine ⟨h.isolated.wrap hs, ?_⟩
    obtain ⟨stack, -, -, -, rfl⟩ := Process.wrap_inv hs
    exact h.journal
  | install t f =>
    refine ⟨h.isolated.install hs, ?_⟩
    obtain ⟨stack, -, -, rfl⟩ := Process.install_inv hs
    exact h.journal
  | uninstall t dropped =>
    refine ⟨(h.isolated.uninstall hs).1, ?_⟩
    obtain ⟨frame, frames, w, -, -, -, rfl⟩ := Process.uninstall_inv hs
    exact h.journal

theorem Contexts.run {s s' : Process} {actions : List Action} (h : Contexts s)
    (ha : ∀ a ∈ actions, ¬ a.Clears) (hrun : Machine.run Process.step s actions = some s') :
    Contexts s' := by
  induction actions generalizing s with
  | nil => exact Option.some.inj hrun ▸ h
  | cons a actions ih =>
    obtain ⟨ha, hactions⟩ := List.forall_mem_cons.1 ha
    obtain ⟨u, hu, hrest⟩ := Machine.run_cons_eq_some.1 hrun
    exact ih (h.step ha hu) hactions hrest

theorem recordNoWriteInScope_scope {j j' : Journal} {kind : EventKind} {message : String}
    {fields : Fields} {scopeId : Option ScopeId} {nanos : UInt64} {id : RecordId} {record : Record}
    {scope : Option Scope} (h : j.WF)
    (he : j.recordNoWriteInScope kind message fields scopeId nanos = .ok (j', id, record, scope)) :
    j'.records = j.records ++ [record] ∧ record.scope = scopeId := by
  obtain ⟨records, rfl, -, hents, -, hrecord, -⟩ := Journal.recordNoWriteInScope_inv h he
  exact ⟨hents, by rw [hrecord]⟩

/-- **Contexts are isolated**, in every run without `clear`.  When a poll or a
    drop ends, with the context that its start installed on top again, the stack
    of the thread is what it was.  An event is recorded in, and a scope entered
    under, the last scope of the context whose code does it. -/
theorem contexts_isolated (runId : String) (wants : Bool) (max : ℕ) (actions : List Action)
    (s : Process) (hrun : Machine.run Process.step (.new runId wants max) actions = some s)
    (hclear : ∀ a ∈ actions, ¬ a.Clears) :
    (∀ t f s₁ later s₂ dropped s₃, s.step (.install t f) = some s₁ → (∀ a ∈ later, ¬ a.Clears) →
      Machine.run Process.step s₁ later = some s₂ →
      (s₂.threads t).frames = (s₁.threads t).frames →
      s₂.step (.uninstall t dropped) = some s₃ → (s₃.threads t).stack = (s.threads t).stack) ∧
    (∀ t kind message fields nanos s', s.step (.call t (.emit kind message fields nanos)) = some s' →
      ∃ record, s'.runtime.journal.records = s.runtime.journal.records ++ [record] ∧
        record.scope = (s.contexts (contextOf t (s.threads t).frames)).stack.getLast?) ∧
    ∀ t name startedAt millis s', s.step (.call t (.enterScope name startedAt millis)) = some s' →
      ∃ scope, s'.runtime.journal.scopes = s.runtime.journal.scopes ++ [scope] ∧
        scope.parent = (s.contexts (contextOf t (s.threads t).frames)).stack.getLast? := by
  have h := Contexts.run ⟨new_isolated runId wants max, Journal.new_wf runId⟩ hclear hrun
  refine ⟨?_, ?_, ?_⟩
  · intro t f s₁ later s₂ dropped s₃ hinstall hlater hmid hframes huninstall
    have h₁ := h.step (a := .install t f) id hinstall
    have h₂ := h₁.run hlater hmid
    obtain ⟨-, frame, frames, htop, -, hstack⟩ := h₂.isolated.uninstall huninstall
    obtain ⟨stack, -, -, rfl⟩ := Process.install_inv hinstall
    rw [htop] at hframes
    dsimp only at hframes
    rw [Function.update_self] at hframes
    rw [hstack, (List.cons.inj hframes).1]
  · intro t kind message fields nanos s' hs
    obtain ⟨r, th, hsec, hr, -⟩ := Process.call_inv hs
    cases hsec with
    | emit hpc hemit =>
      obtain ⟨hrecords, hscope⟩ := recordNoWriteInScope_scope h.journal hemit
      refine ⟨_, by rw [hr]; exact hrecords, ?_⟩
      rw [hscope, Thread.currentScope, h.isolated.current t]
      rfl
  · intro t name startedAt millis s' hs
    obtain ⟨r, th, hsec, hr, -⟩ := Process.call_inv hs
    cases hsec with
    | enterScope hpc henter =>
      obtain ⟨-, -, hret, -⟩ := Journal.pushScope_inv h.journal henter
      refine ⟨_, by rw [hr, Journal.scopes_eq, hret, List.map_append]; rfl, ?_⟩
      dsimp only
      rw [Thread.currentScope, h.isolated.current t]
      rfl

/-- A future wrapped by thread 0 in a scope enters one when thread 1 polls it,
    and is polled again by thread 2. -/
def migration : List Action :=
  [.call 0 (.enterScope "request" 10 1000), .call 0 .next, .wrap 0 5 true, .install 1 5,
    .call 1 (.enterScope "child" 20 2000), .call 1 .next, .uninstall 1 false, .install 2 5]

theorem contexts_isolated_migration :
    ∃ s s' record, Machine.run Process.step (.new (newRunId (1, 2) 0) false 500) migration = some s ∧
      s.step (.call 2 (.emit .info "resumed" .new 3000)) = some s' ∧
      s'.runtime.journal.records = s.runtime.journal.records ++ [record] ∧
      record.scope = some ⟨1⟩ := by
  obtain ⟨s, hs⟩ : ∃ s, Machine.run Process.step (.new (newRunId (1, 2) 0) false 500) migration =
      some s := ⟨_, rfl⟩
  obtain ⟨s', hs'⟩ : ∃ s', s.step (.call 2 (.emit .info "resumed" .new 3000)) = some s' := by
    obtain rfl := Option.some.inj hs
    exact ⟨_, rfl⟩
  obtain ⟨-, hemit, -⟩ := contexts_isolated (newRunId (1, 2) 0) false 500 migration s hs
    (by simp [migration, Action.Clears])
  obtain ⟨record, hrecord, hscope⟩ := hemit 2 _ _ _ _ s' hs'
  refine ⟨s, s', record, hs, hs', hrecord, hscope.trans ?_⟩
  obtain rfl := Option.some.inj hs
  rfl

end Eventline
