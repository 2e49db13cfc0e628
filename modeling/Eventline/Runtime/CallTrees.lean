/-
  The programs of all contexts are recovered, however they interleave.

  * `Book.section`: what a section of a call does to the book.
  * `Crew.Underway`: what holds in every run of a crew that loses nothing.
  * `pruneAll`: a forest without the scopes of others.
  * `call_trees_recovered`: what is loaded from the export of the journal shows
    the program of every context that has done it.
-/
import Eventline.Runtime.Books
import Eventline.Runtime.PostMortem

namespace Eventline

open Text Checked Shared Slots

/-! ## What a section does -/

namespace Journal

variable {j j' j₁ j₂ : Journal} (h : j.WF)
include h

theorem setScopeExitMessages_core {id : ScopeId} {msgs : ExitMessages} {found : Bool}
    (he : j.setScopeExitMessages id msgs = .ok (j', found)) : j'.records = j.records ∧
      j'.retained.map BufferedScope.core = j.retained.map BufferedScope.core ∧
      j'.runId = j.runId := by
  obtain ⟨scopes, found', hok, -, hret⟩ := setScopeExitMessages_ok h id msgs
  rw [hok] at he
  obtain ⟨rfl, -⟩ := Prod.mk.inj (Except.ok.inj he)
  refine ⟨rfl, ?_, rfl⟩
  have hsame : ∀ b : BufferedScope, (b.setMessages msgs).core = b.core := fun _ => rfl
  rw [retained, hret]
  exact map_updateFirst_of_eq hsame _

/-- What the trims of `emit` do. -/
theorem trims_inv {max : ℕ} (h₁ : j.trimRecords max = .ok j₁) (h₂ : j₁.trimScopes max = .ok j₂) :
    j₂.records = j.records.drop (j.records.length - max) ∧
      j₂.retained =
        dropFirst Scopes.isClosed (j.retained.countP Scopes.isClosed - max) j.retained ∧
      j₂.runId = j.runId := by
  obtain ⟨records, hok, hwf, hents⟩ := trimRecords_ok h max
  rw [hok] at h₁
  obtain rfl := Except.ok.inj h₁
  obtain ⟨scopes, hok, -, hret⟩ := trimScopes_ok (j := { j with buffer := { j.buffer with records } })
    ⟨hwf, h.scopes⟩ max
  rw [hok] at h₂
  obtain rfl := Except.ok.inj h₂
  exact ⟨hents, hret, rfl⟩

/-- A journal within its retention is not trimmed. -/
theorem trims_nothing {max : ℕ} (hrecords : j.records.length ≤ max)
    (hscopes : j.scopes.length ≤ max) (h₁ : j.trimRecords max = .ok j₁)
    (h₂ : j₁.trimScopes max = .ok j₂) : j₂.records = j.records ∧ j₂.retained = j.retained := by
  obtain ⟨hents, hret, -⟩ := trims_inv h h₁ h₂
  have hfew : j.retained.countP Scopes.isClosed - max = 0 := by
    have hle : j.retained.countP Scopes.isClosed ≤ j.retained.length := List.countP_le_length
    rw [scopes_eq, List.length_map] at hscopes
    omega
  rw [Nat.sub_eq_zero_of_le hrecords, List.drop_zero] at hents
  rw [hfew, dropFirst_zero] at hret
  exact ⟨hents, hret⟩

end Journal

/-- No section changes the run of the journal. -/
theorem Section.runId {r r' : Runtime} {th th' : Thread} {a : Act} (h : Section r th a r' th')
    (hwf : r.journal.WF) : r'.journal.runId = r.journal.runId := by
  cases h with
  | emit _ h =>
    obtain ⟨records, rfl, -⟩ := Journal.recordNoWriteInScope_inv hwf h
    rfl
  | trim _ hrecords hscopes => exact (Journal.trims_inv hwf hrecords hscopes).2.2
  | enterScope _ h =>
    obtain ⟨-, -, -, -, -, -, -, hrun⟩ := Journal.pushScope_inv hwf h
    exact hrun
  | exitScope _ h => exact (Journal.exitScopeNoWrite_inv hwf h).2.2.2.2.1
  | exitNothing _ h => exact (Journal.exitScopeNoWrite_inv hwf h).2.2.2.2.1
  | messages _ h => exact (Journal.setScopeExitMessages_core hwf h).2.2
  | _ => rfl

theorem eraseLast_concat (stack : List ScopeId) (id : ScopeId) : eraseLast (stack ++ [id]) id = stack := by
  simp [eraseLast]

namespace Strand

variable {x x' : Strand} {th th' : Thread} {a : Act} {r r' : Runtime}

/-- The last scope of the stack is the one that a strand works in. -/
theorem getLast?_stack (x : Strand) (captured : List ScopeId) :
    (x.stack captured).getLast? = x.current captured.getLast? := by
  rw [stack, current, List.getLast?_append, List.getLast?_reverse, List.head?_map]

/-- What a section does of a program, it logs. -/
theorem Does.stack (h : x.Does th a x') (captured : List ScopeId) :
    (Process.logged a th).foldl StackStep.apply (x.stack captured) = x'.stack captured := by
  cases h with
  | enter hrest hpc => simp [Process.logged, hpc, Strand.stack, StackStep.apply]
  | exit hrest hopened =>
    simp only [Process.logged, Strand.stack, hopened, List.map_cons, List.reverse_cons,
      List.foldl_cons, List.foldl_nil, StackStep.apply]
    rw [← List.append_assoc, eraseLast_concat]
  | _ => rfl

/-- Programs leave the retention alone. -/
theorem Does.retention (h : x.Does th' a x') (hsec : Section r th a r' th') :
    r'.maxJournalRecords = r.maxJournalRecords ∧ ∀ m record scope,
      th'.pc = .trimming m record scope → m = r.maxJournalRecords ∨ th.pc = th'.pc := by
  cases hsec with
  | retention => cases h
  | due =>
    refine ⟨rfl, ?_⟩
    rintro m record scope ⟨⟩
    exact .inl rfl
  | count _ hnext =>
    refine ⟨rfl, ?_⟩
    intro m record scope hm
    dsimp only at hm
    rcases hnext with rfl | rfl <;> cases hm
  | messages => exact ⟨rfl, fun _ _ _ _ => .inr rfl⟩
  | updateWriters => exact ⟨rfl, fun _ _ _ _ => .inr rfl⟩
  | exitNothing => exact ⟨rfl, fun _ _ _ _ => .inr rfl⟩
  | _ => exact ⟨rfl, by rintro m record scope ⟨⟩⟩

end Strand

/-- **A section of a program** keeps the book of the journal. -/
theorem Book.section {owner : ScopeId → Context} {author : RecordId → Context}
    {captured : Context → List ScopeId} {strands : Context → Option Strand} {r r' : Runtime}
    {th th' : Thread} {a : Act} {c : Context} {x x' : Strand} {max : ℕ}
    (h : Book owner author captured strands r.journal r.lives.length r.recordIds)
    (hsec : Section r th a r' th') (hdoes : x.Does th' a x') (hx : strands c = some x)
    (hstack : th.stack = x.stack (captured c)) (hpc : th.pc ≠ .clearing)
    (htrim : ∀ m record scope, th.pc = .trimming m record scope → m = max)
    (hn : r'.lives.length ≤ max) (hm : r'.recordIds ≤ max) (hmax : max ≤ 2 ^ 64)
    (howner : ∀ id : ScopeId, r.lives.length ≤ id.n.toNat → owner id = c)
    (hauthor : ∀ id : RecordId, r.recordIds ≤ id.n.toNat → author id = c) :
    Book owner author captured (Function.update strands c (some x')) r'.journal r'.lives.length
      r'.recordIds := by
  have hcurrent : th.currentScope = x.current (captured c).getLast? := by
    rw [Thread.currentScope, hstack, x.getLast?_stack]
  cases hdoes with
  | event hrest =>
    cases hsec with
    | emit _ he =>
      dsimp only at hm
      rw [hcurrent] at he
      obtain ⟨-, hid, -⟩ := h.issued.record (by omega) he
      exact h.event (by omega) hx hrest he (hauthor _ hid.ge)
  | enter hrest hentered =>
    cases hsec with
    | enterScope _ he =>
      obtain rfl := Pc.entered.inj hentered
      dsimp only at hn
      rw [List.length_append, List.length_singleton] at hn
      rw [hcurrent] at he
      obtain ⟨-, hid, -⟩ := h.issued.enter (by omega) (fun q hq => h.current_known hx hq) he
      dsimp only
      rw [List.length_append, List.length_singleton]
      exact h.enter (by omega) hx hrest he (howner _ hid.ge)
  | exit hrest hopened =>
    cases hsec with
    | exitScope _ he =>
      dsimp only at hm
      obtain ⟨-, hid⟩ := h.issued.exit (by omega) he
      dsimp only
      rw [List.length_map]
      exact (h.exit (by omega) hx hrest hopened he (hauthor _ hid.ge)).2
    | exitNothing _ he =>
      dsimp only at hm
      obtain ⟨-, hid⟩ := h.issued.exit (by omega) he
      have hsome := (h.exit (by omega) hx hrest hopened he (hauthor _ hid.ge)).1
      cases hsome
  | next =>
    rw [Function.update_eq_self_iff.2 hx.symm]
    cases hsec with
    | finishClear hclearing => exact absurd hclearing hpc
    | trim htrimming hrecords hscopes =>
      obtain rfl := htrim _ _ _ htrimming
      obtain ⟨hkept, hret⟩ := Journal.trims_nothing h.issued.wf (h.records.le.trans hm)
        (h.scopes.le.trans hn) hrecords hscopes
      exact h.keep ((h.issued.trimmedRecords hrecords).trimmedScopes hscopes) hkept (by rw [hret])
    | _ => exact h
  | messages =>
    rw [Function.update_eq_self_iff.2 hx.symm]
    cases hsec with
    | messages _ he =>
      obtain ⟨hrecords, hcore, -⟩ := Journal.setScopeExitMessages_core h.issued.wf he
      have hkeep := h.keep (h.issued.messages he) hrecords hcore
      dsimp only
      split_ifs
      · rwa [List.length_map]
      · exact hkeep
  | writers =>
    rw [Function.update_eq_self_iff.2 hx.symm]
    cases hsec with
    | updateWriters => exact h

/-! ## The run of a crew -/

namespace Crew

theorem call_inv {s s' : Crew} {t : ThreadId} {a : Act} (h : s.step (.call t a) = some s') :
    ∃ x x', s.process.call t a = some s'.process ∧
      s.strands (contextOf t (s.process.threads t).frames) = some x ∧
      x.Does (s'.process.threads t) a x' ∧
      s'.strands = Function.update s.strands (contextOf t (s.process.threads t).frames) (some x') ∧
      s'.owner = grant (·.n.toNat) s.process.runtime.lives.length
        (contextOf t (s.process.threads t).frames) s.owner ∧
      s'.author = grant (·.n.toNat) s.process.runtime.recordIds
        (contextOf t (s.process.threads t).frames) s.author := by
  simp only [step, Option.bind_eq_bind, Option.bind_eq_some_iff] at h
  obtain ⟨process, hcall, x, hx, x', hfollow, h⟩ := h
  cases h
  exact ⟨x, x', hcall, hx, Strand.follow_cases hfollow, rfl, rfl, rfl⟩

/-- A step of a crew is one of its process. -/
theorem step_process {s s' : Crew} {a : CrewAction} (h : s.step a = some s') :
    ∃ b, s.process.step b = some s'.process := by
  cases a with
  | call t a =>
    obtain ⟨x, x', hcall, -⟩ := call_inv h
    exact ⟨.call t a, hcall⟩
  | wrap t f capture program =>
    simp only [step] at h
    split_ifs at h
    obtain ⟨process, hwrap, rfl⟩ := Option.map_eq_some_iff.1 h
    exact ⟨.wrap t f capture, hwrap⟩
  | install t f =>
    obtain ⟨process, hinstall, rfl⟩ := Option.map_eq_some_iff.1 h
    exact ⟨.install t f, hinstall⟩
  | uninstall t dropped =>
    obtain ⟨process, huninstall, rfl⟩ := Option.map_eq_some_iff.1 h
    exact ⟨.uninstall t dropped, huninstall⟩

/-- The stack that the code of a context was captured with. -/
def captured (s : Crew) (c : Context) : List ScopeId := (s.process.contexts c).captured

/-- What holds in every run that the retention does not cut. -/
structure Underway (runId : String) (max : ℕ) (s : Crew) : Prop where
  book : Book s.owner s.author s.captured s.strands s.process.runtime.journal
    s.process.runtime.lives.length s.process.runtime.recordIds
  isolated : Isolated s.process
  onStack : ∀ c x, s.strands c = some x → s.process.expected c = x.stack (s.captured c)
  unstarted : ∀ c, s.strands c = none → s.process.expected c = []
  run : s.process.runtime.journal.runId = runId
  retention : s.process.runtime.maxJournalRecords = max
  trims : ∀ t m record scope, (s.process.threads t).pc = .trimming m record scope → m = max

theorem new_underway (runId : String) (wants : Bool) (max : ℕ) (programs : ThreadId → Work) :
    Underway runId max (new runId wants max programs) where
  book := {
    issued := Journal.new_issued runId
    scopes := rfl
    records := rfl
    named := by
      intro r hr
      cases hr
    known := by
      intro c q hq
      cases hq
    inside := by
      constructor
      case entered =>
        intro c x hx o ho
        cases c with
        | ambient t =>
          cases hx
          cases ho
        | future f => cases hx
      case distinct =>
        intro c x hx
        cases c with
        | ambient t =>
          cases hx
          exact .nil
        | future f => cases hx
      case exits =>
        intro b hb
        cases hb
    shares := by
      constructor
      case unstarted => exact fun c _ => ⟨rfl, rfl⟩
      case soFar =>
        intro c x hx
        cases c with
        | ambient t =>
          cases hx
          exact soFar_start _ _
        | future f => cases hx }
  isolated := new_isolated runId wants max
  onStack := by
    intro c x hx
    cases c with
    | ambient t =>
      cases hx
      rfl
    | future f => cases hx
  unstarted := fun c _ => rfl
  run := rfl
  retention := rfl
  trims := by
    intro t m record scope hpc
    cases hpc

section
variable {runId : String} {max : ℕ} {s s' : Crew} (h : s.Underway runId max)
include h

/-- The scopes on a stack have been entered. -/
theorem Underway.stack_known (t : ThreadId) : ∀ q ∈ (s.process.threads t).stack,
    q.n.toNat < s.process.runtime.lives.length := by
  intro q hq
  rw [h.isolated.current t] at hq
  cases hx : s.strands (contextOf t (s.process.threads t).frames) with
  | none =>
    rw [h.unstarted _ hx] at hq
    cases hq
  | some x =>
    rw [h.onStack _ x hx, Strand.stack, List.mem_append, List.mem_reverse, List.mem_map] at hq
    rcases hq with hq | ⟨o, ho, rfl⟩
    · exact h.book.known _ q hq
    · obtain ⟨-, b, hb, hid, -⟩ := h.book.inside.entered _ x hx o ho
      rw [← hid]
      exact h.book.issued.scopesBefore _ (List.mem_map_of_mem hb)

theorem Underway.call {t : ThreadId} {a : Act} (hs : s.step (.call t a) = some s')
    (hn : s'.process.runtime.lives.length ≤ max) (hm : s'.process.runtime.recordIds ≤ max)
    (hmax : max ≤ 2 ^ 64) : s'.Underway runId max := by
  obtain ⟨x, x', hcall, hx, hdoes, hstrands, howner, hauthor⟩ := call_inv hs
  obtain ⟨r, th, hsec, rfl, hthreads, -, hcontexts⟩ := Process.call_inv hcall
  obtain rfl : s'.process.threads t = th := by rw [hthreads, Function.update_self]
  generalize hc : contextOf t (s.process.threads t).frames = c at *
  have hclear : a ≠ .clear := by
    rintro rfl
    cases hdoes
  have hcaptured : s'.captured = s.captured := by
    funext d
    rw [captured, captured, hcontexts]
    by_cases hd : d = c
    · rw [hd, Function.update_self]
    · rw [Function.update_of_ne hd]
  have hexpected : s'.process.expected c =
      (Process.logged a (s'.process.threads t)).foldl StackStep.apply (s.process.expected c) := by
    rw [Process.expected, hcontexts, Function.update_self, ContextLog.stack, List.foldl_append]
    rfl
  have hothers : ∀ d, d ≠ c → s'.process.expected d = s.process.expected d := by
    intro d hd
    rw [Process.expected, hcontexts, Function.update_of_ne hd]
    rfl
  have hstack : (s.process.threads t).stack = x.stack (s.captured c) := by
    rw [h.isolated.current t, hc, h.onStack c x hx]
  have hbook : Book s'.owner s'.author s.captured s.strands s.process.runtime.journal
      s.process.runtime.lives.length s.process.runtime.recordIds := by
    rw [howner, hauthor]
    exact h.book.congr (fun id hid => grant_of_lt hid) fun id hid => grant_of_lt hid
  obtain ⟨hretention, htrims⟩ := hdoes.retention hsec
  constructor
  case book =>
    rw [hstrands, hcaptured]
    refine hbook.section hsec hdoes hx hstack (h.isolated.running t) (h.trims t) hn hm hmax ?_ ?_
    · intro id hid
      rw [howner]
      exact grant_of_le hid
    · intro id hid
      rw [hauthor]
      exact grant_of_le hid
  case isolated => exact h.isolated.call hclear hcall
  case onStack =>
    intro d y hy
    rw [hstrands] at hy
    rw [hcaptured]
    rcases update_strand hy with ⟨rfl, rfl⟩ | ⟨hd, hy⟩
    · rw [hexpected, h.onStack d x hx, hdoes.stack]
    · rw [hothers d hd, h.onStack d y hy]
  case unstarted =>
    intro d hd
    rw [hstrands] at hd
    obtain ⟨hdc, hd⟩ := update_strand_none hd
    rw [hothers d hdc, h.unstarted d hd]
  case run => rw [hsec.runId h.book.issued.wf, h.run]
  case retention => rw [hretention, h.retention]
  case trims =>
    intro u m record scope hpc
    by_cases hu : u = t
    · subst hu
      rcases htrims m record scope hpc with rfl | heq
      · exact h.retention
      · exact h.trims u m record scope (heq.trans hpc)
    · rw [hthreads, Function.update_of_ne hu] at hpc
      exact h.trims u m record scope hpc

theorem Underway.wrap {t : ThreadId} {f : FutureId} {capture : Bool} {program : Work}
    (hs : s.step (.wrap t f capture program) = some s') : s'.Underway runId max := by
  simp only [step] at hs
  split_ifs at hs with hstarted
  obtain ⟨process, hwrap, rfl⟩ := Option.map_eq_some_iff.1 hs
  have hf : s.strands (.future f) = none := by simpa using hstarted
  have hisolated := h.isolated.wrap hwrap
  obtain ⟨stack, -, -, hstack, rfl⟩ := Process.wrap_inv hwrap
  have hknown : ∀ q ∈ stack, q.n.toNat < s.process.runtime.lives.length := by
    rw [hstack]
    split_ifs
    · exact h.stack_known t
    · simp
  have hcontext : ∀ c, c ≠ .future f →
      Function.update s.process.contexts (.future f) ⟨stack, []⟩ c = s.process.contexts c := by
    intro c hc
    rw [Function.update_of_ne hc]
  constructor
  case book =>
    have hcaptured : captured ⟨{ s.process with
        futures := Function.update s.process.futures f (some ⟨stack, false⟩)
        contexts := Function.update s.process.contexts (.future f) ⟨stack, []⟩ },
        Function.update s.strands (.future f) (some (.start program)), s.owner, s.author⟩ =
          Function.update s.captured (.future f) stack := by
      funext c
      by_cases hc : c = .future f
      · subst hc
        rw [captured]
        dsimp only
        rw [Function.update_self, Function.update_self]
      · rw [captured]
        dsimp only
        rw [hcontext c hc, Function.update_of_ne hc, captured]
    rw [hcaptured]
    exact h.book.wrap hf hknown program
  case isolated => exact hisolated
  case onStack =>
    intro c x hx
    rw [captured, Process.expected]
    dsimp only at hx ⊢
    rcases update_strand hx with ⟨rfl, rfl⟩ | ⟨hc, hx⟩
    · rw [Function.update_self]
      simp [ContextLog.stack, Strand.stack, Strand.start]
    · rw [hcontext c hc]
      exact h.onStack c x hx
  case unstarted =>
    intro c hc
    obtain ⟨hcf, hc⟩ := update_strand_none hc
    rw [Process.expected]
    dsimp only
    rw [hcontext c hcf]
    exact h.unstarted c hc
  case run => exact h.run
  case retention => exact h.retention
  case trims => exact h.trims

/-- Polls and drops change only what threads run. -/
theorem Underway.context {process : Process} {b : Action} (hb : s.process.step b = some process)
    (hcall : ∀ t a, b ≠ .call t a) (hcontexts : process.contexts = s.process.contexts)
    (hisolated : Isolated process) : Underway runId max { s with process } := by
  obtain ⟨hruntime, hpcs⟩ := Process.step_context hb hcall
  constructor
  case book =>
    have hcaptured : captured { s with process } = s.captured := by
      funext c
      rw [captured, captured]
      dsimp only
      rw [hcontexts]
    rw [hcaptured]
    dsimp only
    rw [hruntime]
    exact h.book
  case isolated => exact hisolated
  case onStack =>
    intro c x hx
    rw [captured, Process.expected]
    dsimp only
    rw [hcontexts]
    exact h.onStack c x hx
  case unstarted =>
    intro c hc
    rw [Process.expected]
    dsimp only
    rw [hcontexts]
    exact h.unstarted c hc
  case run =>
    dsimp only
    rw [hruntime, h.run]
  case retention =>
    dsimp only
    rw [hruntime, h.retention]
  case trims =>
    intro t m record scope hpc
    exact h.trims t m record scope ((hpcs t).1.symm.trans hpc)

theorem Underway.step {a : CrewAction} (hs : s.step a = some s')
    (hn : s'.process.runtime.lives.length ≤ max) (hm : s'.process.runtime.recordIds ≤ max)
    (hmax : max ≤ 2 ^ 64) : s'.Underway runId max := by
  cases a with
  | call t a => exact h.call hs hn hm hmax
  | wrap t f capture program => exact h.wrap hs
  | install t f =>
    obtain ⟨process, hinstall, rfl⟩ := Option.map_eq_some_iff.1 hs
    obtain ⟨stack, -, -, hprocess⟩ := Process.install_inv hinstall
    exact h.context (b := .install t f) hinstall (by rintro _ _ ⟨⟩) (by rw [hprocess])
      (h.isolated.install hinstall)
  | uninstall t dropped =>
    obtain ⟨process, huninstall, rfl⟩ := Option.map_eq_some_iff.1 hs
    obtain ⟨frame, frames, w, -, -, -, hprocess⟩ := Process.uninstall_inv huninstall
    exact h.context (b := .uninstall t dropped) huninstall (by rintro _ _ ⟨⟩) (by rw [hprocess])
      (h.isolated.uninstall huninstall).1

end

/-- **Every run of a crew** that the retention does not cut. -/
theorem run_underway {runId : String} {wants : Bool} {max : ℕ} {programs : ThreadId → Work}
    {actions : List CrewAction} {s : Crew}
    (hrun : Machine.run step (new runId wants max programs) actions = some s)
    (hn : s.process.runtime.lives.length ≤ max) (hm : s.process.runtime.recordIds ≤ max)
    (hmax : max ≤ 2 ^ 64) : s.Underway runId max := by
  refine Machine.run_invariant (I := fun s => s.process.runtime.lives.length ≤ max →
    s.process.runtime.recordIds ≤ max → s.Underway runId max) ?_ hrun
    (fun _ _ => new_underway runId wants max programs) hn hm
  intro s a s' h hs hn hm
  obtain ⟨b, hb⟩ := step_process hs
  obtain ⟨hn', hm'⟩ := Process.step_counts hb
  exact (h (hn'.trans hn) (hm'.trans hm)).step hs hn hm hmax

end Crew

/-! ## The tree without the scopes of others -/

def ScopeNode.scope : ScopeNode → Scope
  | .node s _ => s

mutual

def ScopeNode.prune (keep : ScopeId → Bool) : ScopeNode → ScopeNode
  | .node s children => .node s (pruneAll keep children)

/-- The trees of the scopes to keep, each without the others and what is below
    those. -/
def pruneAll (keep : ScopeId → Bool) : List ScopeNode → List ScopeNode
  | [] => []
  | t :: ts => if keep t.scope.id then t.prune keep :: pruneAll keep ts else pruneAll keep ts

end

section
variable {keep : ScopeId → Bool}

theorem pruneAll_eq (ts : List ScopeNode) :
    pruneAll keep ts = (ts.filter fun t => keep t.scope.id).map (·.prune keep) := by
  induction ts with
  | nil => rfl
  | cons t ts ih =>
    rw [pruneAll, ih, List.filter_cons]
    split_ifs <;> rfl

theorem treeOf_scope (scopes : List Scope) (n : ℕ) (path : Finset ScopeId) (s : Scope) :
    (treeOf scopes n path s).scope = s := by
  cases n <;> rfl

/-- **A pruned tree** is the tree of the scopes that are kept. -/
theorem treeOf_prune (scopes : List Scope) (n : ℕ) (path : Finset ScopeId) (s : Scope) :
    (treeOf scopes n path s).prune keep =
      treeOf (scopes.filter fun s => keep s.id) n path s := by
  induction n generalizing path s with
  | zero => rfl
  | succ n ih =>
    have hchildren : childrenOf (scopes.filter fun s => keep s.id) s.id =
        (childrenOf scopes s.id).filter fun s => keep s.id := by
      rw [childrenOf, childrenOf, List.filter_filter, List.filter_filter]
      simp only [Bool.and_comm]
    rw [treeOf, treeOf, ScopeNode.prune, pruneAll_eq, subtrees, subtrees, hchildren, List.filter_map,
      List.map_map, List.filter_filter, List.filter_filter]
    simp only [Function.comp_def, treeOf_scope, ih, Bool.and_comm]

/-- The pruned forest of a list of scopes. -/
theorem forest_prune (scopes : List Scope) :
    pruneAll keep (forest scopes) = (scopesUnder none (scopes.filter fun s => keep s.id)).map
      fun s => treeOf (scopes.filter fun s => keep s.id) scopes.length {s.id} s := by
  have htops : (scopes.filter fun s => s.parent.isNone).filter (fun s => keep s.id) =
      scopesUnder none (scopes.filter fun s => keep s.id) := by
    rw [scopesUnder, List.filter_filter, List.filter_filter]
    refine List.filter_congr ?_
    intro s _
    cases s.parent <;> simp
  rw [pruneAll_eq, forest, List.filter_map, List.map_map, ← htops]
  simp only [Function.comp_def, treeOf_scope, treeOf_prune]

end

/-! ## The round trip -/

namespace Book

section
variable {owner : ScopeId → Context} {author : RecordId → Context}
  {captured : Context → List ScopeId} {strands : Context → Option Strand} {j : Journal} {n m : ℕ}
  (h : Book owner author captured strands j n m)
include h

/-- Every scope that has been entered is held. -/
theorem held {id : ScopeId} (hid : id.n.toNat < n) : id ∈ j.scopes.map (·.id) := by
  have hnodup : (j.scopes.map (·.id.n.toNat)).Nodup := by
    refine List.pairwise_map.2 (h.issued.scopeIds.imp ?_)
    intro s t hst
    exact (UInt64.lt_iff_toNat_lt.1 hst).ne
  have hall : (j.scopes.map (·.id.n.toNat)).toFinset = Finset.range n := by
    refine Finset.eq_of_subset_of_card_le ?_ ?_
    · intro k hk
      obtain ⟨s, hs, rfl⟩ := List.mem_map.1 (List.mem_toFinset.1 hk)
      exact Finset.mem_range.2 (h.issued.scopesBefore s hs)
    · rw [Finset.card_range, List.toFinset_card_of_nodup hnodup, List.length_map, h.scopes]
  obtain ⟨s, hs, hn⟩ := List.mem_map.1 (List.mem_toFinset.1 (hall ▸ Finset.mem_range.2 hid))
  have hsid : s.id = id := congrArg ScopeId.mk (UInt64.toNat_inj.1 hn)
  exact hsid ▸ List.mem_map_of_mem hs

/-- No record or scope names a scope that is not held. -/
theorem missing : missingOf (j.scopes.map (·.id)) (neededScopes j.scopes j.records) = [] := by
  rw [List.eq_nil_iff_forall_not_mem]
  intro id hid
  obtain ⟨hneeded, hno⟩ := mem_missingOf.1 hid
  simp only [neededScopes, List.mem_append, List.mem_filterMap] at hneeded
  refine hno (h.held ?_)
  rcases hneeded with ⟨s, hs, hparent⟩ | ⟨r, hr, hscope⟩
  · exact (UInt64.lt_iff_toNat_lt.1 (h.issued.parents s hs id hparent)).trans
      (h.issued.scopesBefore s hs)
  · exact h.named r hr id hscope

/-- The scopes that are open are those that programs are in. -/
theorem open_iff {s : Scope} (hs : s ∈ j.scopes) : s.exitedAt = none ↔
    ∃ x, strands (owner s.id) = some x ∧ s.id ∈ x.opened.map (·.id) := by
  obtain ⟨b, hb, rfl⟩ := List.mem_map.1 hs
  constructor
  · exact h.inside.exits b hb
  · rintro ⟨x, hx, hid⟩
    obtain ⟨o, ho, hid⟩ := List.mem_map.1 hid
    obtain ⟨-, b', hb', hid', hopen, -⟩ := h.inside.entered _ x hx o ho
    have hsame : b'.scope = b.scope := List.inj_on_of_nodup_map h.issued.scope_nodup
      (List.mem_map_of_mem hb') hs (hid'.trans hid)
    rwa [hsame] at hopen

/-- A program that has been done is realised by the part of its context. -/
theorem realises {c : Context} {x : Strand} (hx : strands c = some x) (hfinished : x.Finished) :
    Realises (captured c).getLast? x.program (part Scope.id owner c j.scopes)
      (part Record.id author c j.records) := by
  refine (h.shares.soFar c x hx).realises hfinished ?_
  intro s hs
  obtain ⟨hs, hc⟩ := mem_part.1 hs
  rw [Option.isSome_iff_ne_none]
  intro hopen
  obtain ⟨y, hy, hid⟩ := (h.open_iff hs).1 hopen
  rw [hc, hx] at hy
  obtain rfl := Option.some.inj hy
  rw [hfinished.2] at hid
  cases hid

/-- So do the records as they are read. -/
theorem realises_reread (serde : SerdeJson) {c : Context} {x : Strand} (hx : strands c = some x)
    (hfinished : x.Finished) : Realises (captured c).getLast? (x.program.reread serde)
      (part Scope.id owner c j.scopes) (part Record.id author c (j.rereadRecords serde)) := by
  rw [Journal.rereadRecords, part_map fun r => r.reread_id serde]
  exact (h.realises hx hfinished).mapDoubles serde.reread

/-- The forest of the scopes of a context that captured none. -/
theorem tree (serde : SerdeJson) {c : Context} {x : Strand} (hx : strands c = some x)
    (hfinished : x.Finished) (hcaptured : captured c = []) :
    (pruneAll (fun id => owner id = c) (forest j.scopes)).map
      (fun t => t.outline (part Record.id author c (j.rereadRecords serde))) =
        (x.program.reread serde).outline := by
  have hrealises := h.realises_reread serde hx hfinished
  rw [hcaptured] at hrealises
  have hsub : (part Scope.id owner c j.scopes).Sublist j.scopes := List.filter_sublist
  rw [forest_prune, List.map_map]
  refine hrealises.outline (by simp) (h.issued.scope_nodup.sublist (hsub.map _))
    (fun y _ => ⟨rfl, rfl⟩) (fun s hs => h.issued.parents s (hsub.subset hs)) hsub.length_le
    (fun s => {s.id}) ?_
  intro s _ q hq
  rw [Finset.mem_singleton.1 hq]
  exact UInt64.le_refl _

end

end Book

/-- What a loaded run shows of a crew: each program that has been done, in the
    part of its context and, if that captured no scope, in the tree without the
    scopes of others; and the scopes that programs are still in.  The doubles of
    events are as they are read. -/
structure SavedRun.ShowsCrew (run : SavedRun) (serde : SerdeJson) (s : Crew) : Prop where
  realises : ∀ c x, s.strands c = some x → x.Finished →
    Realises (s.captured c).getLast? (x.program.reread serde) (part Scope.id s.owner c run.scopes)
      (part Record.id s.author c run.records)
  tree : ∀ c x, s.strands c = some x → x.Finished → s.captured c = [] →
    ∃ trees, scopeTree run.scopes = .ok trees ∧
      (pruneAll (fun id => s.owner id = c) trees).map
        (fun t => t.outline (part Record.id s.author c run.records)) =
          (x.program.reread serde).outline
  unfinished : ∀ y ∈ run.scopes, y ∈ run.unfinishedScopes ↔
    ∃ x, s.strands (s.owner y.id) = some x ∧ y.id ∈ x.opened.map (·.id)

/-- **The programs of all contexts are recovered.**  Threads, and futures that
    any threads poll, run structured programs in any interleaving.  Unless the
    retention has cut it, the export of the journal is loaded as one run without
    issues: the part of each context that has done its program realises it in the
    scope that the context captured, and only the scopes that programs are still
    in are unfinished. -/
theorem call_trees_recovered {serde : SerdeJson} (hs : serde.Lawful) (process : UInt64 × UInt64)
    (next : UInt64) (wants : Bool) (max : ℕ) (programs : ThreadId → Work)
    {actions : List CrewAction} {s : Crew}
    (hrun : Machine.run Crew.step (.new (newRunId process next) wants max programs) actions = some s)
    (hn : s.process.runtime.lives.length ≤ max) (hm : s.process.runtime.recordIds ≤ max)
    (hmax : max ≤ 2 ^ 64) (hsome : s.process.runtime.recordIds ≠ 0) {bytes : Bytes}
    (hb : bytes = unlines (s.process.runtime.journal.recordsJsonl serde) ∨
      bytes = [newline].intercalate (s.process.runtime.journal.recordsJsonl serde))
    (source : Option String) :
    ∃ run, load serde [⟨source, bytes⟩] = .ok ⟨[run], []⟩ ∧
      run.runId = some (newRunId process next) ∧ run.missingScopeMetadata = [] ∧
      run.ShowsCrew serde s := by
  have h := Crew.run_underway hrun hn hm hmax
  have hne : s.process.runtime.journal.runId ≠ "" := by
    rw [h.run]
    exact newRunId_ne process next
  have hrecords : s.process.runtime.journal.records ≠ [] := by
    rw [← h.book.records] at hsome
    exact List.ne_nil_of_length_pos (Nat.pos_of_ne_zero hsome)
  refine ⟨_, h.book.issued.load_export hs hne hrecords h.book.missing hb source, ?_, rfl, ?_⟩
  · rw [h.run]
  · constructor
    case realises => exact fun c x hx hfinished => h.book.realises_reread serde hx hfinished
    case tree =>
      intro c x hx hfinished hcaptured
      exact ⟨_, scopeTree_eq _, h.book.tree serde hx hfinished hcaptured⟩
    case unfinished =>
      intro y hy
      rw [SavedRun.mem_unfinishedScopes, ← h.book.open_iff hy]
      constructor
      · exact fun hy => hy.2.1
      · intro hopen
        refine ⟨hy, hopen, ?_⟩
        intro x hx hexit hscope
        obtain ⟨r, hr, rfl⟩ := List.mem_map.1 hx
        obtain ⟨o, ho⟩ := isExit_iff.1 ⟨hexit, hscope⟩
        rw [Record.reread, RunBuilder.exitOf_mapDoubles] at ho
        exact h.book.issued.openNoExit y hy hopen r hr o ho

/-- A request, and a query that a future makes in it. -/
def served : Work :=
  .scope "request" .success 10 90 (.event .info "accepted" .new .done) .done

def queried : Work := .scope "query" .failure 20 50 .done .done

def crewPrograms : ThreadId → Work
  | 0 => served
  | 1 => .event .warning "tick" .new .done
  | _ => .done

/-- Thread 0 wraps a future in the request, which enters its scope on thread 1
    and exits it on thread 2, when the request is over. -/
def interleaved : List CrewAction :=
  [.call 0 (.enterScope "request" 10 1000), .call 0 .next, .wrap 0 5 true queried, .install 1 5,
    .call 0 (.emit .info "accepted" .new 1001), .call 1 (.enterScope "query" 20 1002), .call 0 .next,
    .call 1 .next, .uninstall 1 false, .call 0 .next, .call 1 (.emit .warning "tick" .new 1003),
    .call 0 .next, .call 1 .next, .call 0 .next, .call 0 (.exitScope ⟨0⟩ .success 90 1004 1005),
    .install 2 5, .call 0 .next, .call 2 (.exitScope ⟨1⟩ .failure 50 1006 1007)]

theorem call_trees_recovered_interleaved : ∃ s run trees,
    Machine.run Crew.step (.new (newRunId (1, 2) 0) false 500 crewPrograms) interleaved = some s ∧
    load compactSerde [⟨none, unlines (s.process.runtime.journal.recordsJsonl compactSerde)⟩] =
      .ok ⟨[run], []⟩ ∧
    Realises (some ⟨0⟩) queried (part Scope.id s.owner (.future 5) run.scopes)
      (part Record.id s.author (.future 5) run.records) ∧
    scopeTree run.scopes = .ok trees ∧
    (pruneAll (fun id => s.owner id = .ambient 0) trees).map
        (fun t => t.outline (part Record.id s.author (.ambient 0) run.records)) =
      [.node (some "request") [.event .info "accepted" .new, .exit .success 80] []] := by
  obtain ⟨s, hs⟩ : ∃ s, Machine.run Crew.step (.new (newRunId (1, 2) 0) false 500 crewPrograms)
      interleaved = some s := ⟨_, rfl⟩
  obtain ⟨hlives, hrecords, hquery, hrequest, hfuture, hthread⟩ : s.process.runtime.lives.length = 2 ∧
      s.process.runtime.recordIds = 4 ∧ s.strands (.future 5) = some ⟨queried, .done, []⟩ ∧
      s.strands (.ambient 0) = some ⟨served, .done, []⟩ ∧ s.captured (.future 5) = [⟨0⟩] ∧
      s.captured (.ambient 0) = [] := by
    obtain rfl := Option.some.inj hs
    exact ⟨rfl, rfl, rfl, rfl, rfl, rfl⟩
  obtain ⟨run, hload, -, -, hshows⟩ := call_trees_recovered compactSerde_lawful (1, 2) 0 false 500
    crewPrograms hs (by omega) (by omega) (by decide) (by omega) (.inl rfl) none
  have hrealises := hshows.realises _ _ hquery ⟨rfl, rfl⟩
  rw [hfuture] at hrealises
  obtain ⟨trees, htrees, hshown⟩ := hshows.tree _ _ hrequest ⟨rfl, rfl⟩ hthread
  exact ⟨s, run, trees, hs, hload, hrealises, htrees, hshown⟩

end Eventline
