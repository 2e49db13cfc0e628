/-
  Structured programs in the contexts of a process.

  Every thread, and every wrapped future on whatever threads poll it, runs a
  program of its own; the process interleaves the sections of their calls.

  * `Strand`: a program, and what of it is still to be done; `Strand.follow` is
    what one section does of it.
  * `Crew.step`: a step of the process in which each context follows its program;
    `owner` and `author` say whose the scopes and records are.
  * `SoFar`: the scopes and records of a strand realise its program as soon as
    those of what is left are added.
-/
import Eventline.Lib.Shared
import Eventline.Replay.CallTree
import Eventline.Runtime.Context

namespace Eventline

/-! ## Strands -/

/-- A scope that a program is in: how it will exit it, and what it does then. -/
structure OpenScope where
  id : ScopeId
  outcome : Outcome
  startedAt : Instant
  finishedAt : Instant
  rest : Work

/-- A program, what its innermost block has yet to do, and the scopes that it is
    in, the innermost first. -/
structure Strand where
  program : Work
  rest : Work
  opened : List OpenScope

namespace Strand

def start (program : Work) : Strand := ⟨program, program, []⟩

/-- The program has been done. -/
def Finished (x : Strand) : Prop := x.rest = .done ∧ x.opened = []

/-- The stack of a context that was captured with the given one. -/
def stack (x : Strand) (captured : List ScopeId) : List ScopeId :=
  captured ++ (x.opened.map (·.id)).reverse

/-- The scope that a strand works in, if its program was started in `p`. -/
def current (x : Strand) (p : Option ScopeId) : Option ScopeId := (x.opened.head?.map (·.id)).or p

/-- What is left after a section, which left its thread as `th`.  Setting exit
    messages and writers is no part of a program, and can be done at any time. -/
def follow (x : Strand) (a : Act) (th : Thread) : Option Strand :=
  match a, x.rest, x.opened with
  | .emit kind message fields _, .event kind' message' fields' rest, _ =>
    if kind = kind' ∧ message = message' ∧ fields = fields' then some { x with rest } else none
  | .enterScope name startedAt _, .scope name' outcome startedAt' finishedAt body rest, opened =>
    match th.pc with
    | .entered id =>
      if name = name' ∧ startedAt = startedAt' then
        some { x with
          rest := body, opened := ⟨id, outcome, startedAt, finishedAt, rest⟩ :: opened }
      else none
    | _ => none
  | .exitScope id outcome finishedAt _ _, .done, o :: opened =>
    if id = o.id ∧ outcome = o.outcome ∧ finishedAt = o.finishedAt then
      some { x with rest := o.rest, opened }
    else none
  | .next, _, _ | .setScopeExitMessages .., _, _ | .updateWriters _, _, _ => some x
  | _, _, _ => none

/-- What a section does of a program. -/
inductive Does (x : Strand) (th : Thread) : Act → Strand → Prop
  | event {kind : EventKind} {message : String} {fields : Fields} {rest : Work} {nanos : UInt64}
      (hrest : x.rest = .event kind message fields rest) :
      Does x th (.emit kind message fields nanos) { x with rest }
  | enter {name : String} {outcome : Outcome} {startedAt finishedAt : Instant} {body rest : Work}
      {id : ScopeId} {millis : UInt64}
      (hrest : x.rest = .scope name outcome startedAt finishedAt body rest)
      (hpc : th.pc = .entered id) :
      Does x th (.enterScope name startedAt millis)
        { x with rest := body, opened := ⟨id, outcome, startedAt, finishedAt, rest⟩ :: x.opened }
  | exit {o : OpenScope} {opened : List OpenScope} {millis nanos : UInt64} (hrest : x.rest = .done)
      (hopened : x.opened = o :: opened) :
      Does x th (.exitScope o.id o.outcome o.finishedAt millis nanos)
        { x with rest := o.rest, opened }
  | next : Does x th .next x
  | messages {id : ScopeId} {msgs : ExitMessages} : Does x th (.setScopeExitMessages id msgs) x
  | writers {wants : Bool} : Does x th (.updateWriters wants) x

theorem follow_cases {x x' : Strand} {a : Act} {th : Thread} (h : x.follow a th = some x') :
    x.Does th a x' := by
  unfold follow at h
  split at h
  case h_1 hrest =>
    split_ifs at h with heq
    obtain ⟨rfl, rfl, rfl⟩ := heq
    cases h
    exact .event hrest
  case h_2 hrest =>
    split at h
    · rename_i hpc
      split_ifs at h with heq
      obtain ⟨rfl, rfl⟩ := heq
      cases h
      exact .enter hrest hpc
    · cases h
  case h_3 hrest hopened =>
    split_ifs at h with heq
    obtain ⟨rfl, rfl, rfl⟩ := heq
    cases h
    exact .exit hrest hopened
  case h_4 =>
    cases h
    exact .next
  case h_5 =>
    cases h
    exact .messages
  case h_6 =>
    cases h
    exact .writers
  case h_7 => cases h

end Strand

/-! ## The crew -/

structure Crew where
  process : Process
  /-- what the contexts do; a future has no program before it is wrapped -/
  strands : Context → Option Strand
  /-- who entered the scope with an id -/
  owner : ScopeId → Context
  /-- whose call made the record with an id -/
  author : RecordId → Context

inductive CrewAction where
  | call (t : ThreadId) (a : Act)
  /-- a future that has the given program is wrapped -/
  | wrap (t : ThreadId) (f : FutureId) (capture : Bool) (program : Work)
  | install (t : ThreadId) (f : FutureId)
  | uninstall (t : ThreadId) (dropped : Bool)

namespace Crew

/-- A process before any activity, whose threads have the given programs. -/
def new (runId : String) (wantsScopeMetadata : Bool) (maxJournalRecords : ℕ)
    (programs : ThreadId → Work) : Crew where
  process := .new runId wantsScopeMetadata maxJournalRecords
  strands
    | .ambient t => some (.start (programs t))
    | .future _ => none
  owner _ := .ambient 0
  author _ := .ambient 0

/-- A step of the process; the code of the context that runs follows its
    program, and the ids that it takes are its own.  No future is wrapped twice,
    and no code clears the journal or sets its retention. -/
def step (s : Crew) : CrewAction → Option Crew
  | .call t a => do
    let process ← s.process.call t a
    let c := contextOf t (s.process.threads t).frames
    let x ← s.strands c
    let x ← x.follow a (process.threads t)
    some {
      process
      strands := Function.update s.strands c (some x)
      owner := Shared.grant (·.n.toNat) s.process.runtime.lives.length c s.owner
      author := Shared.grant (·.n.toNat) s.process.runtime.recordIds c s.author }
  | .wrap t f capture program =>
    if (s.strands (.future f)).isSome then none
    else
      (s.process.wrap t f capture).map fun process =>
        { s with process, strands := Function.update s.strands (.future f) (some (.start program)) }
  | .install t f => (s.process.install t f).map fun process => { s with process }
  | .uninstall t dropped => (s.process.uninstall t dropped).map fun process => { s with process }

end Crew

/-! ## What a strand has left so far -/

/-- What never changes of a scope. -/
def Scope.face (s : Scope) : ScopeId × Option ScopeId × Option String := (s.id, s.parent, s.name)

/-- The scopes and records of what a strand has still to do, if its program was
    started in `p`. -/
inductive Remains (p : Option ScopeId) : Work → List OpenScope → List Scope → List Record → Prop
  | last {w : Work} {ss : List Scope} {rs : List Record} (h : Realises p w ss rs) :
      Remains p w [] ss rs
  | inside {w : Work} {o : OpenScope} {opened : List OpenScope} {exit : Record}
      {ss ss' : List Scope} {rs rs' : List Record} (h : Realises (some o.id) w ss rs)
      (hscope : exit.scope = some o.id)
      (hkind : exit.kind =
        .scopeExit o.outcome (durationNanos (o.finishedAt.saturatingDurationSince o.startedAt)))
      (hrest : Remains p o.rest opened ss' rs') :
      Remains p w (o :: opened) (ss ++ ss') (rs ++ exit :: rs')

/-- The scopes `ss`, once they are closed, and the records `rs` are what a strand
    has done of its program. -/
def SoFar (p : Option ScopeId) (x : Strand) (ss : List Scope) (rs : List Record) : Prop :=
  ∀ closed ss' rs', closed.map Scope.face = ss.map Scope.face →
    (∀ s ∈ closed, s.exitedAt.isSome) → Remains p x.rest x.opened ss' rs' →
    Realises p x.program (closed ++ ss') (rs ++ rs')

section
variable {p : Option ScopeId} {x : Strand} {ss : List Scope} {rs : List Record}

theorem soFar_start (p : Option ScopeId) (program : Work) : SoFar p (.start program) [] [] := by
  intro closed ss' rs' hfaces _ hremains
  obtain rfl : closed = [] := by simpa using hfaces
  cases hremains with
  | last h => exact h

/-- Only the faces of the scopes matter. -/
theorem SoFar.congr (h : SoFar p x ss rs) {ss₁ : List Scope}
    (hfaces : ss₁.map Scope.face = ss.map Scope.face) : SoFar p x ss₁ rs := by
  intro closed ss' rs' hclosed
  exact h closed ss' rs' (hclosed.trans hfaces)

/-- An event, before what remains. -/
theorem Remains.event {kind : EventKind} {message : String} {fields : Fields} {rest : Work}
    {opened : List OpenScope} {r : Record} {ss' : List Scope} {rs' : List Record}
    (h : Remains p rest opened ss' rs') (hscope : r.scope = (opened.head?.map (·.id)).or p)
    (hkind : r.kind = .event kind message fields) :
    Remains p (.event kind message fields rest) opened ss' (r :: rs') := by
  cases h with
  | last h => exact .last (.event hscope hkind h)
  | inside h hexit hexitKind hrest => exact .inside (.event hscope hkind h) hexit hexitKind hrest

/-- A scope and its exit, around and before what remains. -/
theorem Remains.scope {name : String} {o : OpenScope} {body : Work} {opened : List OpenScope}
    {s : Scope} {ss' : List Scope} {rs' : List Record}
    (h : Remains p body (o :: opened) ss' rs') (hid : s.id = o.id)
    (hparent : s.parent = (opened.head?.map (·.id)).or p) (hname : s.name = some name)
    (hclosed : s.exitedAt.isSome) :
    Remains p (.scope name o.outcome o.startedAt o.finishedAt body o.rest) opened (s :: ss') rs' := by
  cases h with
  | @inside _ _ _ exit ss₁ ss₂ rs₁ rs₂ hbody hscope hkind hrest =>
    rw [← hid] at hbody hscope
    cases hrest with
    | last hrest => exact .last (.scope hparent hname hclosed hbody hscope hkind hrest)
    | @inside _ _ _ outer ss₃ ss₄ rs₃ rs₄ hrest houter houterKind houtside =>
      have hscopes : s :: (ss₁ ++ (ss₃ ++ ss₄)) = s :: (ss₁ ++ ss₃) ++ ss₄ := by simp
      have hrecords : rs₁ ++ exit :: (rs₃ ++ outer :: rs₄) =
          rs₁ ++ exit :: rs₃ ++ outer :: rs₄ := by simp
      rw [hscopes, hrecords]
      exact .inside (.scope hparent hname hclosed hbody hscope hkind hrest) houter houterKind
        houtside

theorem SoFar.event (h : SoFar p x ss rs) {kind : EventKind} {message : String} {fields : Fields}
    {rest : Work} (hrest : x.rest = .event kind message fields rest) {r : Record}
    (hscope : r.scope = x.current p) (hkind : r.kind = .event kind message fields) :
    SoFar p { x with rest } ss (rs ++ [r]) := by
  intro closed ss' rs' hfaces hclosed hremains
  have hall := h closed ss' (r :: rs') hfaces hclosed (hrest ▸ hremains.event hscope hkind)
  rwa [List.append_assoc]

theorem SoFar.enter (h : SoFar p x ss rs) {name : String} {o : OpenScope} {body : Work}
    (hrest : x.rest = .scope name o.outcome o.startedAt o.finishedAt body o.rest) {s : Scope}
    (hid : s.id = o.id) (hparent : s.parent = x.current p) (hname : s.name = some name) :
    SoFar p { x with rest := body, opened := o :: x.opened } (ss ++ [s]) rs := by
  intro closed ss' rs' hfaces hclosed hremains
  rw [List.map_append, List.map_eq_append_iff] at hfaces
  obtain ⟨before, last, rfl, hbefore, hlast⟩ := hfaces
  obtain ⟨y, rfl, hy⟩ := List.map_eq_singleton_iff.1 hlast
  obtain ⟨hyid, hyparent, hyname⟩ : y.id = s.id ∧ y.parent = s.parent ∧ y.name = s.name := by
    simpa [Scope.face] using hy
  have hall := h before (y :: ss') rs' hbefore (fun z hz => hclosed z (by simp [hz])) <| by
    rw [hrest]
    exact hremains.scope (hyid.trans hid) (hyparent.trans hparent) (hyname.trans hname)
      (hclosed y (by simp))
  rwa [List.append_assoc]

theorem SoFar.exit (h : SoFar p x ss rs) {o : OpenScope} {opened : List OpenScope}
    (hrest : x.rest = .done) (hopened : x.opened = o :: opened) {exit : Record}
    (hscope : exit.scope = some o.id)
    (hkind : exit.kind =
      .scopeExit o.outcome (durationNanos (o.finishedAt.saturatingDurationSince o.startedAt))) :
    SoFar p { x with rest := o.rest, opened } ss (rs ++ [exit]) := by
  intro closed ss' rs' hfaces hclosed hremains
  have hall := h closed ss' (exit :: rs') hfaces hclosed <| by
    rw [hrest, hopened]
    exact .inside (.done _) hscope hkind hremains
  rwa [List.append_assoc]

/-- **A program that is done is realised**, once its scopes are closed. -/
theorem SoFar.realises (h : SoFar p x ss rs) (hfinished : x.Finished)
    (hclosed : ∀ s ∈ ss, s.exitedAt.isSome) : Realises p x.program ss rs := by
  obtain ⟨hrest, hopened⟩ := hfinished
  have hall := h ss [] [] rfl hclosed (by rw [hrest, hopened]; exact .last (.done p))
  simpa using hall

end

end Eventline
