/-
  The wrappers of `scope_async` and `scope_async_result`
  (`runtime/scope_context.rs`).

  A world is a process with one wrapper, from before it is made until it is gone.
  The code of the wrapper polls and drops the future it was given, which is user
  code and can do whatever user code can: call, poll other wrappers, panic.  A
  panic is counted on its thread as long as it unwinds.

  `polls` and the fields after it are history: no code reads them.

  * `World.step`: a move of the wrapper, or of any other code.
  * `World.ExitsOnce`: the scope of the wrapper exits once.
  * `World.At`: what holds while the wrapper is at a point of its code.
  * `Inv.step`, `Inv.of_run`: moves and runs keep that, as long as user code leaves
    the scope alone and its id is a new one.
-/
import Eventline.Runtime.Guards
import Eventline.Runtime.Retention
import Eventline.History

namespace Eventline

open Checked Slots

namespace AsyncScope

/-! ## The wrapper -/

/-- A wrapper: its future, the name of its scope, and how its guard is exited
    when the future it was given has completed. -/
structure Wrapping (T : Type) where
  future : FutureId
  name : String
  finish : RuntimeScopeGuard → T → RuntimeScopeGuard × List ExitCall

def scopeAsync {T : Type} (future : FutureId) (name : String) : Wrapping T :=
  ⟨future, name, fun guard _ => guard.exit .success⟩

def scopeAsyncResult {ε α : Type} (future : FutureId) (name : String) : Wrapping (Except ε α) :=
  ⟨future, name, fun guard result => guard.exitResult result⟩

/-- The async block between its polls. -/
inductive Block where
  | unresumed
  | suspended (guard : AsyncScopeGuard)
  | returned
  | panicked

/-- How a poll or drop of the wrapper ends. -/
inductive Left (T : Type) where
  | ready (output : T)
  /-- the poll is pending or unwinds -/
  | back (block : Block)
  | dropped

/-- Where the wrapper is.  `depth` is the number of panics on the thread when
    user code was called. -/
inductive Point (T : Type) where
  | absent
  | idle (block : Block)
  /-- the first poll is to enter the scope -/
  | entering (t : ThreadId) (depth : ℕ)
  | waiting (t : ThreadId) (depth : ℕ) (id : ScopeId)
  /-- the future is polled -/
  | polling (t : ThreadId) (depth : ℕ) (guard : AsyncScopeGuard)
  /-- the future is dropped: it has completed -/
  | completing (t : ThreadId) (depth : ℕ) (guard : AsyncScopeGuard) (output : T)
  /-- what the block holds is dropped since a panic unwinds -/
  | unwinding (t : ThreadId) (depth : ℕ) (guard : Option AsyncScopeGuard) (left : Left T)
  /-- the future is dropped with the wrapper -/
  | dropping (t : ThreadId) (depth : ℕ) (guard : Option AsyncScopeGuard)
  /-- the guard exits, then the context is uninstalled -/
  | leaving (t : ThreadId) (calls : List ExitCall) (left : Left T)
  | gone

/-- The thread that runs the code of the wrapper itself. -/
def Point.runs {T : Type} : Point T → Option ThreadId
  | .entering t _ | .waiting t _ _ | .leaving t _ _ => some t
  | _ => none

/-- The panics that were there when a thread was given to user code. -/
def Point.depth {T : Type} (t : ThreadId) : Point T → ℕ
  | .polling u depth _ | .completing u depth _ _ | .unwinding u depth _ _ | .dropping u depth _ =>
    if u = t then depth else 0
  | _ => 0

/-- How the scope came to its end. -/
inductive Ending (T : Type) where
  | completed (output : T)
  /-- the future, or a destructor of it, unwound -/
  | unwound
  /-- the wrapper was dropped while pending -/
  | cancelled (panicking : Bool)

/-- The outcome that an end is to record. -/
def Ending.outcome {T : Type} (completion : T → Outcome) : Ending T → Outcome
  | .completed output => completion output
  | .unwound => .failure
  | .cancelled panicking => if panicking then .failure else .aborted

/-! ## The world -/

structure World (T : Type) where
  process : Process
  /-- how many panics unwind on a thread -/
  panics : ThreadId → ℕ
  point : Point T
  polls : ℕ
  /-- the calls that the code of the wrapper has made -/
  calls : List Act
  /-- its scope, and how many records had been pushed when it was entered -/
  entered : Option (ScopeId × ℕ)
  ending : Option (Ending T)
  /-- what the future completed with -/
  produced : Option T
  /-- what a poll of the wrapper returned -/
  returned : Option T

inductive Move (T : Type) where
  /-- any code but that of the wrapper -/
  | other (a : Action)
  | panic (t : ThreadId)
  | catchPanic (t : ThreadId)
  | create (t : ThreadId)
  | poll (t : ThreadId)
  | drop (t : ThreadId)
  | enter (startedAt : Instant) (millis : UInt64)
  /-- the next section of the call that the wrapper is in -/
  | next
  /-- the poll of the future returns or unwinds -/
  | pending
  | ready (output : T)
  | panics
  /-- the drop of the future returns or unwinds -/
  | dropped
  | dropPanics
  | exit (finishedAt : Instant) (millis nanos : UInt64)
  /-- the poll or drop of the wrapper returns or unwinds -/
  | leave

def Pc.isUser : Pc → Bool
  | .user => true
  | _ => false

/-- The `expect` of `enter_scope` is to panic. -/
def lookupFails (s : Process) (t : ThreadId) : Bool :=
  match (s.threads t).pc with
  | .lookingUp id =>
    match s.runtime.journal.getScope id with
    | .ok none => true
    | _ => false
  | _ => false

namespace World

variable {T : Type}

def new (runId : String) (wantsScopeMetadata : Bool) (maxJournalRecords : ℕ) : World T where
  process := .new runId wantsScopeMetadata maxJournalRecords
  panics _ := 0
  point := .absent
  polls := 0
  calls := []
  entered := none
  ending := none
  produced := none
  returned := none

/-- The future whose code a thread runs. -/
def running (w : World T) (t : ThreadId) : Option FutureId :=
  (w.process.threads t).frames.head?.map (·.future)

def panicking (w : World T) (t : ThreadId) : Bool := 0 < w.panics t

/-- One more panic on a thread. -/
def startPanic (w : World T) (t : ThreadId) : ThreadId → ℕ :=
  Function.update w.panics t (w.panics t + 1)

/-- Other code than that of the wrapper can do this. -/
def permits (x : Wrapping T) (w : World T) : Action → Bool
  | .call t _ => w.point.runs ≠ some t
  | .wrap t f _ | .install t f => w.point.runs ≠ some t && f ≠ x.future
  | .uninstall t _ => w.point.runs ≠ some t && w.running t ≠ some x.future

/-- The call of `enter_scope` that an action goes on with may panic. -/
def panicsAfter (w : World T) : Action → ThreadId → ℕ
  | .call t .next => if lookupFails w.process t then w.startPanic t else w.panics
  | _ => w.panics

/-- A thread that is in user code, other than that of the wrapper. -/
def inUserCode (w : World T) (t : ThreadId) : Bool :=
  w.point.runs ≠ some t && Pc.isUser (w.process.threads t).pc

/-- User code that the wrapper called is done, with so many panics on its thread. -/
def isBack (x : Wrapping T) (w : World T) (t : ThreadId) (panics : ℕ) : Bool :=
  Pc.isUser (w.process.threads t).pc && w.running t = some x.future && w.panics t = panics

/-- The drop of the guard of a block, if it has one. -/
def dropGuard (w : World T) (t : ThreadId) (guard : Option AsyncScopeGuard) : List ExitCall :=
  (guard.map fun guard => guard.drop (w.panicking t)).getD []

/-- How the scope ends, if the block has its guard. -/
def ends (w : World T) (guard : Option AsyncScopeGuard) (ending : Ending T) : Option (Ending T) :=
  if guard.isSome then some ending else w.ending

/-- A poll: what it does depends on the state of the block. -/
def poll (w : World T) (process : Process) (t : ThreadId) : Block → World T
  | .unresumed => { w with process, polls := w.polls + 1, point := .entering t (w.panics t) }
  | .suspended guard =>
    { w with process, polls := w.polls + 1, point := .polling t (w.panics t) guard }
  | block =>
    -- polled again after it has completed or panicked
    { w with
      process
      polls := w.polls + 1
      panics := w.startPanic t
      point := .leaving t [] (.back block) }

def drop (w : World T) (process : Process) (t : ThreadId) : Block → World T
  | .unresumed => { w with process, point := .dropping t (w.panics t) none }
  | .suspended guard => { w with process, point := .dropping t (w.panics t) (some guard) }
  | _ => { w with process, point := .leaving t [] .dropped }

/-- The poll that enters the scope. -/
def enter (x : Wrapping T) (w : World T) (t : ThreadId) (depth : ℕ) (startedAt : Instant)
    (millis : UInt64) : Option (World T) := do
  let act : Act := .enterScope x.name startedAt millis
  let process ← w.process.call t act
  match (process.threads t).pc with
  | .entered id =>
    some { w with
      process
      point := .waiting t depth id
      calls := w.calls ++ [act]
      entered := some (id, w.process.runtime.pushed.length) }
  | _ => none

/-- `enter_scope` goes on, and gives the block its guard when it returns. -/
def await (w : World T) (t : ThreadId) (depth : ℕ) (id : ScopeId) : Option (World T) := do
  let process ← w.process.call t .next
  some <|
    if lookupFails w.process t then
      { w with
        process
        panics := w.startPanic t
        point := .unwinding t (depth + 1) none (.back .panicked) }
    else if Pc.isUser (process.threads t).pc then
      { w with process, point := .polling t depth ⟨⟨id, false⟩⟩ }
    else { w with process }

/-- The end of the block: the guard is exited, and dropped. -/
def complete (x : Wrapping T) (w : World T) (t : ThreadId) (guard : AsyncScopeGuard) (output : T) :
    World T :=
  let (inner, calls) := x.finish guard.inner output
  { w with
    point := .leaving t (calls ++ AsyncScopeGuard.drop ⟨inner⟩ (w.panicking t)) (.ready output)
    ending := some (.completed output) }

/-- The next call of a guard that exits. -/
def exit (w : World T) (t : ThreadId) (calls : List ExitCall) (left : Left T)
    (finishedAt : Instant) (millis nanos : UInt64) : Option (World T) :=
  match calls with
  | [] => none
  | (id, outcome) :: calls => do
    let act : Act := .exitScope id outcome finishedAt millis nanos
    let process ← w.process.call t act
    some { w with process, point := .leaving t calls left, calls := w.calls ++ [act] }

/-- The wrapper after a poll or drop whose context was uninstalled. -/
def settle (w : World T) (process : Process) : Left T → World T
  | .ready output => { w with process, point := .idle .returned, returned := some output }
  | .back block => { w with process, point := .idle block }
  | .dropped => { w with process, point := .gone }

def Left.isDropped : Left T → Bool
  | .dropped => true
  | _ => false

/-- What user code does: the calls and polls of any thread, and its panics. -/
def userStep (x : Wrapping T) (w : World T) : Move T → Option (World T)
  | .other a =>
    if w.permits x a then
      (w.process.step a).map fun process => { w with process, panics := w.panicsAfter a }
    else none
  | .panic t => if w.inUserCode t then some { w with panics := w.startPanic t } else none
  | .catchPanic t =>
    if w.inUserCode t ∧ w.point.depth t < w.panics t then
      some { w with panics := Function.update w.panics t (w.panics t - 1) }
    else none
  | .create t =>
    match w.point with
    | .absent =>
      (w.process.wrap t x.future true).map fun process =>
        { w with process, point := .idle .unresumed }
    | _ => none
  | .poll t =>
    match w.point with
    | .idle block => (w.process.install t x.future).map fun process => w.poll process t block
    | _ => none
  | .drop t =>
    match w.point with
    | .idle block => (w.process.install t x.future).map fun process => w.drop process t block
    | _ => none
  | _ => none

/-- A move of the wrapper, at a point of its code. -/
def codeStep (x : Wrapping T) (w : World T) : Point T → Move T → Option (World T)
  | .entering t depth, .enter startedAt millis => w.enter x t depth startedAt millis
  | .waiting t depth id, .next => w.await t depth id
  | .polling t depth guard, .pending =>
    if w.isBack x t depth then
      some { w with point := .leaving t [] (.back (.suspended guard)) }
    else none
  | .polling t depth guard, .ready output =>
    if w.isBack x t depth then
      some { w with point := .completing t depth guard output, produced := some output }
    else none
  | .polling t depth guard, .panics =>
    if w.isBack x t (depth + 1) then
      some { w with
        point := .unwinding t (depth + 1) (some guard) (.back .panicked)
        ending := some .unwound }
    else none
  | .completing t depth guard output, .dropped =>
    if w.isBack x t depth then some (w.complete x t guard output) else none
  | .completing t depth guard _, .dropPanics =>
    if w.isBack x t (depth + 1) then
      some { w with
        point := .unwinding t (depth + 1) (some guard) (.back .panicked)
        ending := some .unwound }
    else none
  | .unwinding t depth guard left, .dropped =>
    if w.isBack x t depth then some { w with point := .leaving t (w.dropGuard t guard) left }
    else none
  | .dropping t depth guard, .dropped =>
    if w.isBack x t depth then
      some { w with
        point := .leaving t (w.dropGuard t guard) .dropped
        ending := w.ends guard (.cancelled (w.panicking t)) }
    else none
  | .dropping t depth guard, .dropPanics =>
    if w.isBack x t (depth + 1) then
      some { w with
        point := .unwinding t (depth + 1) guard .dropped
        ending := w.ends guard .unwound }
    else none
  | .leaving t calls left, .exit finishedAt millis nanos =>
    w.exit t calls left finishedAt millis nanos
  | .leaving t _ _, .next => (w.process.call t .next).map fun process => { w with process }
  | .leaving t [] left, .leave =>
    (w.process.uninstall t (Left.isDropped left)).map fun process => w.settle process left
  | _, _ => none

def step (x : Wrapping T) (w : World T) (m : Move T) : Option (World T) :=
  match m with
  | .other _ | .panic _ | .catchPanic _ | .create _ | .poll _ | .drop _ => w.userStep x m
  | _ => w.codeStep x w.point m

/-! ## What the claims about user code are -/

/-- User code leaves the scope of the wrapper to the wrapper: it does not exit it
    by id, and does not clear the journal. -/
def Spares (w : World T) : Move T → Prop
  | .other (.call _ .clear) => w.entered = none
  | .other (.call _ (.exitScope id ..)) => w.entered.map Prod.fst ≠ some id
  | _ => True

/-- The id that the scope is given is not that of a scope that is retained. -/
def Fresh (w : World T) : Move T → Prop
  | .enter .. => ∀ s ∈ w.process.runtime.journal.scopes,
      s.id ≠ ⟨w.process.runtime.journal.nextScopeId⟩
  | _ => True

end World

/-- The outcomes of the exits of a scope. -/
def exitsOf (id : ScopeId) (records : List Record) : List Outcome :=
  records.filterMap fun r =>
    (Journal.exitOf r).bind fun (scope, outcome, _) => if scope = id then some outcome else none

namespace World

variable {T : Type}

/-- The outcomes that the scope of the wrapper has exited with. -/
def exits (w : World T) : List Outcome :=
  match w.entered with
  | none => []
  | some (id, start) => exitsOf id (w.process.runtime.pushed.drop start)

/-- **The scope exits once**, with the right outcome. -/
structure ExitsOnce (completion : T → Outcome) (w : World T) : Prop where
  /-- a wrapper that was not polled has made no call -/
  unpolled : w.polls = 0 → w.calls = [] ∧ w.entered = none
  exits : w.exits = [] ∨ ∃ ending, w.ending = some ending ∧ w.exits = [ending.outcome completion]
  gone : w.point = .gone → w.polls ≠ 0 →
    ∃ ending, w.ending = some ending ∧ w.exits = [ending.outcome completion]
  returned : w.returned = none ∨
    w.returned = w.produced ∧ w.ending = w.produced.map .completed ∧
      ∃ ending, w.ending = some ending ∧ w.exits = [ending.outcome completion]

end World

end AsyncScope

namespace Journal

/-! ## Scopes that stay open -/

variable {j j' : Journal} {id : ScopeId}

theorem isOpen_iff : j.isOpen id = true ↔
    ∃ b, j.retained.find? (Scopes.hasId id) = some b ∧ Scopes.isClosed b = false := by
  rw [isOpen]
  cases j.retained.find? (Scopes.hasId id) with
  | none => simp
  | some b => simp

/-- An open scope is found. -/
theorem getScope_isOpen (hwf : j.WF) (h : j.isOpen id = true) :
    ∃ scope, j.getScope id = .ok (some scope) := by
  obtain ⟨b, hb, -⟩ := isOpen_iff.1 h
  refine ⟨b.scope, ?_⟩
  rw [getScope, Scopes.getScopeById_ok hwf.scopes]
  simp only [retained] at hb
  rw [hb, Option.map_some]

theorem isOpen_enter (hwf : j.WF) {name : Option String} {parent : Option ScopeId} {t : Instant}
    {ms : UInt64} {new : ScopeId} (he : j.pushScope name parent t ms = .ok (j', new))
    (h : j.isOpen id = true) : j'.isOpen id = true := by
  obtain ⟨-, -, hret, -⟩ := pushScope_inv hwf he
  obtain ⟨b, hb, hopen⟩ := isOpen_iff.1 h
  exact isOpen_iff.2 ⟨b, by rw [hret, List.find?_append, hb, Option.some_or], hopen⟩

/-- A new scope is open, if no scope with its id is held. -/
theorem isOpen_new (hwf : j.WF) {name : Option String} {parent : Option ScopeId} {t : Instant}
    {ms : UInt64} (he : j.pushScope name parent t ms = .ok (j', id))
    (hnew : ∀ s ∈ j.scopes, s.id ≠ id) : j'.isOpen id = true := by
  obtain ⟨-, -, hret, -⟩ := pushScope_inv hwf he
  have hnone : j.retained.find? (Scopes.hasId id) = none := by
    refine List.find?_eq_none.2 fun b hb => ?_
    simpa [Scopes.hasId] using hnew b.scope (List.mem_map.2 ⟨b, hb, rfl⟩)
  refine isOpen_iff.2 ⟨_, by rw [hret, List.find?_append, hnone, Option.none_or,
    List.find?_cons_of_pos (by simp [Scopes.hasId])], rfl⟩

theorem isOpen_messages (hwf : j.WF) {other : ScopeId} {msgs : ExitMessages} {found : Bool}
    (he : j.setScopeExitMessages other msgs = .ok (j', found)) (h : j.isOpen id = true) :
    j'.isOpen id = true := by
  obtain ⟨scopes, found', hok, -, hret⟩ := setScopeExitMessages_ok hwf other msgs
  rw [hok] at he
  obtain ⟨rfl, -⟩ := Prod.mk.inj (Except.ok.inj he)
  obtain ⟨b, hb, hopen⟩ := isOpen_iff.1 h
  rw [isOpen_iff, retained, hret]
  by_cases heq : other = id
  · subst heq
    refine ⟨b.setMessages msgs, ?_, hopen⟩
    rw [find?_updateFirst (p := Scopes.hasId other) (f := (·.setMessages msgs)) (fun _ hx => hx), hb,
      Option.map_some]
  · refine ⟨b, ?_, hopen⟩
    rw [find?_updateFirst_of_not (fun x hx => ?_), hb]
    have hid : x.scope.id = other := by simpa [Scopes.hasId] using hx
    exact ⟨by simp [Scopes.hasId, hid, heq], by simp [Scopes.hasId, BufferedScope.setMessages, hid, heq]⟩

theorem isOpen_exit (hwf : j.WF) {other : ScopeId} {outcome : Outcome} {t : Instant}
    {ms ns : UInt64} {rid : RecordId} {payload : Option (Record × Scope)}
    (he : j.exitScopeNoWrite other outcome t ms ns = .ok (j', rid, payload)) (hne : other ≠ id)
    (h : j.isOpen id = true) : j'.isOpen id = true := by
  obtain ⟨-, -, -, -, -, -, hret, -⟩ := exitScopeNoWrite_inv hwf he
  obtain ⟨b, hb, hopen⟩ := isOpen_iff.1 h
  refine isOpen_iff.2 ⟨b, ?_, hopen⟩
  rw [hret, find?_updateFirst_of_not (fun x hx => ?_), hb]
  have hid : x.scope.id = other := by simpa [Scopes.hasId] using hx
  have hid' : (Scopes.closeIfOpen ms t x).scope.id = other :=
    (closeIfOpen_updates ms t x).1.trans hid
  exact ⟨by simp [Scopes.hasId, hid, hne], by simp [Scopes.hasId, hid', hne]⟩

/-- The record of an exit. -/
theorem exit_payload (hwf : j.WF) {outcome : Outcome} {t : Instant} {ms ns : UInt64}
    {rid : RecordId} {record : Record} {scope : Scope}
    (he : j.exitScopeNoWrite id outcome t ms ns = .ok (j', rid, some (record, scope))) :
    (∃ d, record.kind = .scopeExit outcome d) ∧ record.scope = some id := by
  obtain ⟨-, -, -, -, -, -, -, hcase⟩ := exitScopeNoWrite_inv hwf he
  cases hx : (j.retained.find? (Scopes.hasId id)).bind (Scopes.exitOf ms t) with
  | none =>
    rw [hx] at hcase
    exact nomatch hcase.1
  | some closed =>
    rw [hx] at hcase
    obtain ⟨record', heq, rfl, -⟩ := hcase
    obtain ⟨rfl, -⟩ := Prod.mk.inj (Option.some.inj heq)
    exact ⟨⟨_, rfl⟩, rfl⟩

/-- An exit of an open scope pushes its record. -/
theorem exit_isOpen (hwf : j.WF) {outcome : Outcome} {t : Instant} {ms ns : UInt64}
    {rid : RecordId} (he : j.exitScopeNoWrite id outcome t ms ns = .ok (j', rid, none)) :
    j.isOpen id = false := (closedScopes_exit hwf he).1.symm

theorem isOpen_trim (hwf : j.WF) {max : ℕ} {j₁ : Journal} (hrecords : j.trimRecords max = .ok j₁)
    (hscopes : j₁.trimScopes max = .ok j') (h : j.isOpen id = true) : j'.isOpen id = true := by
  obtain ⟨records, hok, hr, -⟩ := trimRecords_ok hwf max
  rw [hok] at hrecords
  obtain rfl := Except.ok.inj hrecords
  obtain ⟨scopes, hok, -, hret⟩ := trimScopes_ok (j := { j with
    buffer := { j.buffer with records } }) ⟨hr, hwf.scopes⟩ max
  rw [hok] at hscopes
  obtain rfl := Except.ok.inj hscopes
  obtain ⟨b, hb, hopen⟩ := isOpen_iff.1 h
  refine isOpen_iff.2 ⟨b, ?_, hopen⟩
  rw [retained, hret]
  exact find?_dropFirst hb hopen

end Journal

namespace AsyncScope

/-! ## Steps that leave the scope alone -/

theorem exitsOf_append (id : ScopeId) (xs ys : List Record) :
    exitsOf id (xs ++ ys) = exitsOf id xs ++ exitsOf id ys := List.filterMap_append

theorem exitsOf_event {id : ScopeId} {r : Record} {kind : EventKind} {message : String}
    {fields : Fields} (h : r.kind = .event kind message fields) : exitsOf id [r] = [] := by
  have hno : Journal.exitOf r = none := by
    rw [Journal.exitOf, RunBuilder.exitOf, h]
  simp [exitsOf, hno]

theorem exitsOf_exit {id : ScopeId} {r : Record} {outcome : Outcome} {d : UInt64}
    (hkind : r.kind = .scopeExit outcome d) {other : ScopeId} (hscope : r.scope = some other) :
    exitsOf id [r] = if other = id then [outcome] else [] := by
  have hexit : Journal.exitOf r = some (other, outcome, d) := by
    rw [Journal.exitOf, RunBuilder.exitOf, hkind, hscope]
  by_cases hid : other = id
  · simp [exitsOf, hexit, hid]
  · simp [exitsOf, hexit, hid]

/-- What a step leaves alone of a scope: it stays open, and no exit of it is
    pushed. -/
structure Leaves (id : ScopeId) (r r' : Runtime) : Prop where
  opens : r.journal.isOpen id = true → r'.journal.isOpen id = true
  pushed : ∃ records, r'.pushed = r.pushed ++ records ∧ exitsOf id records = []

theorem Leaves.of_eq {id : ScopeId} {r r' : Runtime} (hjournal : r'.journal = r.journal)
    (hpushed : r'.pushed = r.pushed) : Leaves id r r' :=
  ⟨fun h => hjournal ▸ h, [], by rw [hpushed, List.append_nil], rfl⟩

/-- An act that does not close the scope with the id. -/
def Keeps (id : ScopeId) : Act → Prop
  | .clear => False
  | .exitScope other .. => other ≠ id
  | _ => True

theorem leaves_of_section {r r' : Runtime} {th th' : Thread} {a : Act} {id : ScopeId}
    (h : Section r th a r' th') (hwf : r.journal.WF) (ha : Keeps id a) : Leaves id r r' := by
  cases h with
  | emit hpc he =>
    obtain ⟨records, rfl, -, -, -, hrecord, -⟩ := Journal.recordNoWriteInScope_inv hwf he
    exact ⟨fun h => h, _, rfl, exitsOf_event (by rw [hrecord])⟩
  | trim hpc hrecords hscopes =>
    exact ⟨Journal.isOpen_trim hwf hrecords hscopes, [], (List.append_nil _).symm, rfl⟩
  | enterScope hpc he => exact ⟨Journal.isOpen_enter hwf he, [], (List.append_nil _).symm, rfl⟩
  | exitScope hpc he =>
    refine ⟨Journal.isOpen_exit hwf he ha, _, rfl, ?_⟩
    obtain ⟨⟨d, hkind⟩, hscope⟩ := Journal.exit_payload hwf he
    rw [exitsOf_exit hkind hscope, if_neg ha]
  | exitNothing hpc he =>
    exact ⟨Journal.isOpen_exit hwf he ha, [], (List.append_nil _).symm, rfl⟩
  | messages hpc he => exact ⟨Journal.isOpen_messages hwf he, [], (List.append_nil _).symm, rfl⟩
  | clear => exact ha.elim
  | _ => exact .of_eq rfl rfl

/-- What a step of the process leaves alone. -/
theorem leaves_of_step {s s' : Process} {a : Action} {id : ScopeId} (h : s.step a = some s')
    (hwf : s.runtime.journal.WF) (ha : ∀ t b, a = .call t b → Keeps id b) :
    Leaves id s.runtime s'.runtime := by
  cases a with
  | call t b =>
    obtain ⟨r, th, hsec, hr, -⟩ := Process.call_inv h
    rw [hr]
    exact leaves_of_section hsec hwf (ha t b rfl)
  | wrap | install | uninstall =>
    have hr := (Process.step_context h (by nofun)).1
    exact .of_eq (by rw [hr]) (by rw [hr])

theorem wf_of_step {s s' : Process} {a : Action} (h : s.step a = some s')
    (hwf : s.runtime.journal.WF) : s'.runtime.journal.WF := by
  cases a with
  | call t b =>
    obtain ⟨r, th, hsec, hr, -⟩ := Process.call_inv h
    rw [hr]
    exact hsec.wf hwf
  | wrap | install | uninstall => rwa [(Process.step_context h (by nofun)).1]

/-- The call that enters a scope: it is open, if its id is a new one. -/
theorem enter_opens {s s' : Process} {t : ThreadId} {name : String} {startedAt : Instant}
    {millis : UInt64} {id : ScopeId} (h : s.call t (.enterScope name startedAt millis) = some s')
    (hwf : s.runtime.journal.WF) (hpc : (s'.threads t).pc = .entered id)
    (hfresh : ∀ scope ∈ s.runtime.journal.scopes, scope.id ≠ ⟨s.runtime.journal.nextScopeId⟩) :
    s'.runtime.journal.isOpen id = true ∧ s'.runtime.pushed = s.runtime.pushed := by
  obtain ⟨r, th, hsec, hr, hthreads, -⟩ := Process.call_inv h
  rw [hthreads, Function.update_self] at hpc
  rw [hr]
  cases hsec with
  | enterScope huser he =>
    obtain rfl := Pc.entered.inj hpc
    have hid := (Journal.pushScope_inv hwf he).2.1
    exact ⟨Journal.isOpen_new hwf he (hid ▸ hfresh), rfl⟩

/-- The call that exits an open scope pushes its record. -/
theorem exit_pushes {s s' : Process} {t : ThreadId} {id : ScopeId} {outcome : Outcome}
    {finishedAt : Instant} {millis nanos : UInt64}
    (h : s.call t (.exitScope id outcome finishedAt millis nanos) = some s')
    (hwf : s.runtime.journal.WF) (hopen : s.runtime.journal.isOpen id = true) :
    ∃ record, s'.runtime.pushed = s.runtime.pushed ++ [record] ∧
      exitsOf id [record] = [outcome] := by
  obtain ⟨r, th, hsec, hr, -⟩ := Process.call_inv h
  rw [hr]
  cases hsec with
  | exitScope hpc he =>
    obtain ⟨⟨d, hkind⟩, hscope⟩ := Journal.exit_payload hwf he
    exact ⟨_, rfl, by rw [exitsOf_exit hkind hscope, if_pos rfl]⟩
  | exitNothing hpc he =>
    rw [Journal.exit_isOpen hwf he] at hopen
    cases hopen

/-! ## What holds at a point -/

namespace World

variable {T : Type} {completion : T → Outcome} {x : Wrapping T} {w w' : World T}

/-- The wrapper has made no call. -/
structure Untouched (w : World T) : Prop where
  calls : w.calls = []
  entered : w.entered = none
  ending : w.ending = none
  returned : w.returned = none

/-- The scope is open. -/
structure Opened (w : World T) (id : ScopeId) : Prop where
  entered : ∃ start, w.entered = some (id, start) ∧ start ≤ w.process.runtime.pushed.length
  opened : w.process.runtime.journal.isOpen id = true
  exits : w.exits = []
  returned : w.returned = none

/-- The block holds the guard of the scope. -/
structure Holds (w : World T) (guard : AsyncScopeGuard) : Prop where
  opened : w.Opened guard.inner.id
  exited : guard.inner.exited = false

/-- The scope has exited. -/
structure Done (completion : T → Outcome) (w : World T) : Prop where
  entered : ∃ id start, w.entered = some (id, start) ∧ start ≤ w.process.runtime.pushed.length
  exits : ∃ ending, w.ending = some ending ∧ w.exits = [ending.outcome completion]
  returned : w.returned = none ∨
    w.returned = w.produced ∧ w.ending = w.produced.map .completed

/-- The guard is about to exit the scope, or it has. -/
def Closing (completion : T → Outcome) (w : World T) (calls : List ExitCall) : Prop :=
  (∃ id ending, calls = [(id, ending.outcome completion)] ∧ w.Opened id ∧
    w.ending = some ending) ∨ calls = [] ∧ w.Done completion

/-- No scope was entered, and none will be. -/
def Never (w : World T) : Prop := w.Untouched ∧ w.polls = 0

/-- What holds while a poll or drop ends. -/
def AtEnd (completion : T → Outcome) (w : World T) (calls : List ExitCall) : Left T → Prop
  | .ready output => w.Closing completion calls ∧ w.produced = some output ∧
      w.ending = some (.completed output)
  | .back .unresumed => False
  | .back (.suspended guard) => calls = [] ∧ w.Holds guard ∧ w.ending = none
  | .back _ => w.Closing completion calls
  | .dropped => w.Closing completion calls ∨ calls = [] ∧ w.Never

/-- What holds at a point of the code of the wrapper. -/
def At (completion : T → Outcome) (w : World T) : Point T → Prop
  | .absent | .idle .unresumed | .dropping _ _ none => w.Never
  | .entering _ _ => w.Untouched ∧ w.polls ≠ 0
  | .waiting _ _ id => w.Opened id ∧ w.ending = none
  | .idle (.suspended guard) | .polling _ _ guard | .dropping _ _ (some guard) =>
    w.Holds guard ∧ w.ending = none
  | .completing _ _ guard output => w.Holds guard ∧ w.produced = some output
  | .unwinding _ _ none left => w.Never ∧ left = .dropped
  | .unwinding _ depth (some guard) left =>
    0 < depth ∧ w.Holds guard ∧ w.ending = some .unwound ∧
      (left = .back .panicked ∨ left = .dropped)
  | .idle _ => w.Done completion
  | .leaving _ calls left => w.AtEnd completion calls left
  | .gone => w.Done completion ∨ w.Never

/-- The invariant of the worlds whose user code spares the scope. -/
structure Inv (completion : T → Outcome) (w : World T) : Prop where
  journal : w.process.runtime.journal.WF
  here : w.At completion w.point
  /-- `enter_scope` is about the scope that it has entered -/
  entering : ∀ t depth id, w.point = .waiting t depth id →
    (w.process.threads t).pc = .entered id ∨ (w.process.threads t).pc = .lookingUp id
  unpolled : w.polls = 0 → w.calls = [] ∧ w.entered = none

/-! ## What a move keeps -/

/-- The process goes on, and the scope is left alone. -/
def Spared (w : World T) (process : Process) : Prop :=
  ∀ id start, w.entered = some (id, start) → Leaves id w.process.runtime process.runtime

variable {process : Process} {panics : ThreadId → ℕ} {point : Point T}

theorem exits_eq {id : ScopeId} {start : ℕ} (h : w.entered = some (id, start)) :
    w.exits = exitsOf id (w.process.runtime.pushed.drop start) := by
  rw [exits, h]

/-- Records that are pushed after the scope was entered. -/
theorem exits_append {id : ScopeId} {start : ℕ} {records : List Record}
    (h : w.entered = some (id, start)) (h' : w'.entered = some (id, start))
    (hstart : start ≤ w.process.runtime.pushed.length)
    (hpushed : w'.process.runtime.pushed = w.process.runtime.pushed ++ records) :
    w'.exits = w.exits ++ exitsOf id records := by
  rw [exits_eq h, exits_eq h', hpushed, List.drop_append_of_le_length hstart, exitsOf_append]

/-- What the code does between its calls to the runtime. -/
theorem Opened.move {id : ScopeId} (h : w.Opened id) (hprocess : w'.process = w.process)
    (hentered : w'.entered = w.entered) (hreturned : w'.returned = w.returned) :
    w'.Opened id where
  entered := by
    rw [hentered, hprocess]
    exact h.entered
  opened := by
    rw [hprocess]
    exact h.opened
  exits := by
    have hexits := h.exits
    unfold World.exits at hexits ⊢
    rw [hentered, hprocess]
    exact hexits
  returned := hreturned.trans h.returned

theorem Holds.move {guard : AsyncScopeGuard} (h : w.Holds guard)
    (hprocess : w'.process = w.process) (hentered : w'.entered = w.entered)
    (hreturned : w'.returned = w.returned) : w'.Holds guard :=
  ⟨h.opened.move hprocess hentered hreturned, h.exited⟩

theorem Untouched.move (h : w.Untouched) (hcalls : w'.calls = w.calls)
    (hentered : w'.entered = w.entered) (hending : w'.ending = w.ending)
    (hreturned : w'.returned = w.returned) : w'.Untouched :=
  ⟨hcalls.trans h.calls, hentered.trans h.entered, hending.trans h.ending,
    hreturned.trans h.returned⟩

/-- What a process that spares the scope keeps. -/
theorem Spared.keep (h : w.Spared process) (panics : ThreadId → ℕ) (point : Point T)
    {id : ScopeId} {start : ℕ} (hentered : w.entered = some (id, start))
    (hstart : start ≤ w.process.runtime.pushed.length) :
    start ≤ process.runtime.pushed.length ∧
      ({ w with process, panics, point } : World T).exits = w.exits := by
  obtain ⟨-, records, hpushed, hnone⟩ := h id start hentered
  constructor
  · rw [hpushed, List.length_append]
    omega
  · rw [exits_append hentered (by exact hentered) hstart hpushed, hnone, List.append_nil]

theorem Opened.keep {id : ScopeId} (h : w.Opened id) (hs : w.Spared process) :
    ({ w with process, panics, point } : World T).Opened id := by
  obtain ⟨start, hentered, hstart⟩ := h.entered
  obtain ⟨hlength, hexits⟩ := hs.keep panics point hentered hstart
  exact ⟨⟨start, hentered, hlength⟩, (hs id start hentered).opens h.opened, hexits.trans h.exits,
    h.returned⟩

theorem Holds.keep {guard : AsyncScopeGuard} (h : w.Holds guard) (hs : w.Spared process) :
    ({ w with process, panics, point } : World T).Holds guard := ⟨h.opened.keep hs, h.exited⟩

theorem Done.keep (h : w.Done completion) (hs : w.Spared process) :
    ({ w with process, panics, point } : World T).Done completion := by
  obtain ⟨id, start, hentered, hstart⟩ := h.entered
  obtain ⟨hlength, hexits⟩ := hs.keep panics point hentered hstart
  obtain ⟨ending, hending, hw⟩ := h.exits
  exact ⟨⟨id, start, hentered, hlength⟩, ⟨ending, hending, hexits.trans hw⟩, h.returned⟩

theorem Untouched.keep (h : w.Untouched) :
    ({ w with process, panics, point } : World T).Untouched :=
  ⟨h.calls, h.entered, h.ending, h.returned⟩

theorem Never.keep (h : w.Never) : ({ w with process, panics, point } : World T).Never :=
  ⟨h.1.keep, h.2⟩

theorem Closing.keep {calls : List ExitCall} (h : w.Closing completion calls)
    (hs : w.Spared process) :
    ({ w with process, panics, point } : World T).Closing completion calls := by
  rcases h with ⟨id, ending, hcalls, hopened, hending⟩ | ⟨hcalls, hdone⟩
  · exact .inl ⟨id, ending, hcalls, hopened.keep hs, hending⟩
  · exact .inr ⟨hcalls, hdone.keep hs⟩

theorem AtEnd.keep {calls : List ExitCall} {left : Left T} (h : w.AtEnd completion calls left)
    (hs : w.Spared process) :
    ({ w with process, panics, point } : World T).AtEnd completion calls left := by
  cases left with
  | ready output => exact ⟨h.1.keep hs, h.2⟩
  | back block =>
    cases block with
    | unresumed => exact h.elim
    | suspended guard => exact ⟨h.1, h.2.1.keep hs, h.2.2⟩
    | returned | panicked => exact Closing.keep h hs
  | dropped =>
    rcases h with h | ⟨hcalls, hnever⟩
    · exact .inl (h.keep hs)
    · exact .inr ⟨hcalls, hnever.keep⟩

/-- Code that spares the scope keeps what holds at the point. -/
theorem At.keep {here : Point T} (h : w.At completion here) (hs : w.Spared process) :
    ({ w with process, panics, point } : World T).At completion here := by
  cases here with
  | absent => exact Never.keep h
  | idle block =>
    cases block with
    | unresumed => exact Never.keep h
    | suspended guard => exact ⟨h.1.keep hs, h.2⟩
    | returned | panicked => exact Done.keep h hs
  | entering t depth => exact ⟨h.1.keep, h.2⟩
  | waiting t depth id => exact ⟨h.1.keep hs, h.2⟩
  | polling t depth guard => exact ⟨h.1.keep hs, h.2⟩
  | completing t depth guard output => exact ⟨h.1.keep hs, h.2⟩
  | unwinding t depth guard left =>
    cases guard with
    | none => exact ⟨h.1.keep, h.2⟩
    | some guard => exact ⟨h.1, h.2.1.keep hs, h.2.2⟩
  | dropping t depth guard =>
    cases guard with
    | none => exact Never.keep h
    | some guard => exact ⟨h.1.keep hs, h.2⟩
  | leaving t calls left => exact AtEnd.keep h hs
  | gone =>
    rcases h with h | h
    · exact .inl (h.keep hs)
    · exact .inr h.keep

/-- A step of the process that does not close the scope. -/
theorem spared_of_step {a : Action} (hwf : w.process.runtime.journal.WF)
    (hs : w.process.step a = some process)
    (ha : ∀ id start, w.entered = some (id, start) → ∀ t b, a = .call t b → Keeps id b) :
    w.Spared process := fun id start hentered => leaves_of_step hs hwf (ha id start hentered)

theorem spared_of_next {t : ThreadId} (hwf : w.process.runtime.journal.WF)
    (hs : w.process.call t .next = some process) : w.Spared process :=
  spared_of_step (a := .call t .next) hwf hs fun _ _ _ _ _ heq => by
    obtain ⟨-, rfl⟩ := Action.call.inj heq
    trivial

/-- The steps of contexts spare the scope. -/
theorem spared_of_context {a : Action} (hwf : w.process.runtime.journal.WF)
    (hs : w.process.step a = some process) (ha : ∀ t b, a ≠ .call t b) : w.Spared process :=
  spared_of_step hwf hs fun _ _ _ t b heq => absurd heq (ha t b)

theorem spared_of_other {a : Action} (hwf : w.process.runtime.journal.WF)
    (hs : w.process.step a = some process) (hspares : w.Spares (.other a)) : w.Spared process := by
  refine spared_of_step hwf hs fun id start hentered t b heq => ?_
  subst heq
  cases b with
  | clear =>
    have hnone : w.entered = none := hspares
    rw [hentered] at hnone
    cases hnone
  | exitScope other outcome finishedAt millis nanos =>
    have hne : w.entered.map Prod.fst ≠ some other := hspares
    rw [hentered] at hne
    exact fun heq => hne (by rw [heq]; rfl)
  | _ => trivial

/-- Other code leaves the thread alone that runs the code of the wrapper. -/
theorem pc_of_other {a : Action} {t : ThreadId} (hs : w.process.step a = some process)
    (hpermits : w.permits x a = true) (ht : w.point.runs = some t) :
    (process.threads t).pc = (w.process.threads t).pc := by
  cases a with
  | call u b =>
    obtain ⟨r, th, -, -, hthreads, -⟩ := Process.call_inv hs
    have hne : t ≠ u := by
      rintro rfl
      simp [permits, ht] at hpermits
    rw [hthreads, Function.update_of_ne hne]
  | wrap | install | uninstall => exact ((Process.step_context hs (by nofun)).2 t).1

/-! ## The moves -/

/-- User code, and the start of a poll or drop. -/
theorem Inv.userStep {m : Move T} (h : w.Inv completion) (hm : w.Spares m)
    (hs : w.userStep x m = some w') : w'.Inv completion := by
  cases m with
  | other a =>
    simp only [World.userStep] at hs
    split_ifs at hs with hpermits
    obtain ⟨process, hp, rfl⟩ := Option.map_eq_some_iff.1 hs
    refine ⟨wf_of_step hp h.journal, h.here.keep (spared_of_other h.journal hp hm), ?_, h.unpolled⟩
    intro t depth id hpoint
    have hwaits : w.point = .waiting t depth id := hpoint
    rw [pc_of_other hp hpermits (by rw [hwaits]; rfl)]
    exact h.entering t depth id hwaits
  | panic t =>
    simp only [World.userStep] at hs
    split_ifs at hs with huser
    cases hs
    exact ⟨h.journal, h.here.keep fun _ _ _ => .of_eq rfl rfl, h.entering, h.unpolled⟩
  | catchPanic t =>
    simp only [World.userStep] at hs
    split_ifs at hs with huser
    cases hs
    exact ⟨h.journal, h.here.keep fun _ _ _ => .of_eq rfl rfl, h.entering, h.unpolled⟩
  | create t =>
    simp only [World.userStep] at hs
    split at hs
    case h_2 => cases hs
    case h_1 hpoint =>
      obtain ⟨process, hp, rfl⟩ := Option.map_eq_some_iff.1 hs
      have hstep : w.process.step (.wrap t x.future true) = some process := hp
      have hhere : w.Never := by
        have hat := h.here
        rwa [hpoint] at hat
      exact ⟨wf_of_step hstep h.journal, hhere.keep, by nofun, h.unpolled⟩
  | poll t =>
    simp only [World.userStep] at hs
    split at hs
    case h_2 => cases hs
    case h_1 block hpoint =>
      obtain ⟨process, hp, rfl⟩ := Option.map_eq_some_iff.1 hs
      have hstep : w.process.step (.install t x.future) = some process := hp
      have hspared := spared_of_context h.journal hstep (by nofun)
      have hwf := wf_of_step hstep h.journal
      have hhere := h.here
      rw [hpoint] at hhere
      cases block with
      | unresumed =>
        have hnever : w.Never := hhere
        exact ⟨hwf, ⟨hnever.1.move rfl rfl rfl rfl, by nofun⟩, by nofun, by nofun⟩
      | suspended guard =>
        obtain ⟨hholds, hending⟩ := hhere
        have hkept : ({ w with process } : World T).Holds guard := hholds.keep hspared
        exact ⟨hwf, ⟨hkept.move rfl rfl rfl, hending⟩, by nofun, by nofun⟩
      | returned =>
        obtain ⟨hentered, hexits, hreturned⟩ : ({ w with process } : World T).Done completion :=
          Done.keep hhere hspared
        exact ⟨hwf, .inr ⟨rfl, hentered, hexits, hreturned⟩, by nofun, by nofun⟩
      | panicked =>
        obtain ⟨hentered, hexits, hreturned⟩ : ({ w with process } : World T).Done completion :=
          Done.keep hhere hspared
        exact ⟨hwf, .inr ⟨rfl, hentered, hexits, hreturned⟩, by nofun, by nofun⟩
  | drop t =>
    simp only [World.userStep] at hs
    split at hs
    case h_2 => cases hs
    case h_1 block hpoint =>
      obtain ⟨process, hp, rfl⟩ := Option.map_eq_some_iff.1 hs
      have hstep : w.process.step (.install t x.future) = some process := hp
      have hspared := spared_of_context h.journal hstep (by nofun)
      have hwf := wf_of_step hstep h.journal
      have hhere := h.here
      rw [hpoint] at hhere
      cases block with
      | unresumed => exact ⟨hwf, Never.keep hhere, by nofun, h.unpolled⟩
      | suspended guard => exact ⟨hwf, ⟨hhere.1.keep hspared, hhere.2⟩, by nofun, h.unpolled⟩
      | returned => exact ⟨hwf, .inl (.inr ⟨rfl, Done.keep hhere hspared⟩), by nofun, h.unpolled⟩
      | panicked => exact ⟨hwf, .inl (.inr ⟨rfl, Done.keep hhere hspared⟩), by nofun, h.unpolled⟩
  | _ => cases hs

/-- The poll that enters the scope. -/
theorem Inv.enter {t : ThreadId} {depth : ℕ} {startedAt : Instant} {millis : UInt64}
    (h : w.Inv completion) (hpoint : w.point = .entering t depth)
    (hfresh : w.Fresh (.enter startedAt millis)) (hs : w.enter x t depth startedAt millis = some w') :
    w'.Inv completion := by
  simp only [World.enter, Option.bind_eq_bind, Option.bind_eq_some_iff] at hs
  obtain ⟨process, hp, hs⟩ := hs
  split at hs
  case h_2 => cases hs
  case h_1 id hpc =>
    cases hs
    have hat := h.here
    rw [hpoint] at hat
    obtain ⟨huntouched, hpolls⟩ := hat
    obtain ⟨hopen, hpushed⟩ := enter_opens hp h.journal hpc hfresh
    refine ⟨wf_of_step (a := .call t _) hp h.journal,
      ⟨⟨⟨_, rfl, ?_⟩, hopen, ?_, huntouched.returned⟩, huntouched.ending⟩, ?_, ?_⟩
    · exact hpushed ▸ le_rfl
    · rw [exits_eq rfl]
      show exitsOf id (process.runtime.pushed.drop w.process.runtime.pushed.length) = []
      rw [hpushed, List.drop_length]
      rfl
    · intro u depth' id' heq
      obtain ⟨rfl, rfl, rfl⟩ := Point.waiting.inj heq
      exact .inl hpc
    · exact fun hnone => absurd hnone hpolls

/-- An open scope is found by the call that entered it. -/
theorem lookupFails_of_opened {s : Process} {t : ThreadId} (hwf : s.runtime.journal.WF)
    (h : ∀ id, (s.threads t).pc = .lookingUp id → s.runtime.journal.isOpen id = true) :
    lookupFails s t = false := by
  unfold lookupFails
  split
  case h_2 => rfl
  case h_1 id hpc =>
    obtain ⟨scope, hscope⟩ := Journal.getScope_isOpen hwf (h id hpc)
    rw [hscope]

/-- `enter_scope` goes on with the scope that it has entered. -/
theorem entered_next {s s' : Process} {t : ThreadId} {id : ScopeId}
    (hs : s.call t .next = some s')
    (hpc : (s.threads t).pc = .entered id ∨ (s.threads t).pc = .lookingUp id) :
    (s'.threads t).pc = .lookingUp id ∨ (s'.threads t).pc = .user := by
  obtain ⟨r, th, hsec, -, hthreads, -⟩ := Process.call_inv hs
  rw [hthreads, Function.update_self]
  cases hsec with
  | lock hat =>
    rw [hat] at hpc
    rcases hpc with hpc | hpc
    · obtain rfl := Pc.entered.inj hpc
      exact .inl rfl
    · cases hpc
  | unwanted | found | panic | write | finishClear => exact .inr rfl
  | count hat | due hat | trim hat => simp [hat] at hpc

theorem Inv.await {t : ThreadId} {depth : ℕ} {id : ScopeId} (h : w.Inv completion)
    (hpoint : w.point = .waiting t depth id) (hs : w.await t depth id = some w') :
    w'.Inv completion := by
  simp only [World.await, Option.bind_eq_bind, Option.bind_eq_some_iff] at hs
  obtain ⟨process, hp, hs⟩ := hs
  have hat := h.here
  rw [hpoint] at hat
  obtain ⟨hopened, hending⟩ := hat
  have hpc := h.entering t depth id hpoint
  have hfound : lookupFails w.process t = false := by
    refine lookupFails_of_opened h.journal fun id' hid' => ?_
    rcases hpc with hpc | hpc
    · rw [hpc] at hid'
      cases hid'
    · rw [hpc] at hid'
      obtain rfl := Pc.lookingUp.inj hid'
      exact hopened.opened
  have hwf := wf_of_step (a := .call t .next) hp h.journal
  have hspared := spared_of_next h.journal hp
  rw [if_neg (by simp [hfound])] at hs
  split_ifs at hs with huser
  · cases hs
    exact ⟨hwf, ⟨⟨hopened.keep hspared, rfl⟩, hending⟩, by nofun, h.unpolled⟩
  · cases hs
    refine ⟨hwf, At.keep (w := w) (h := h.here) hspared, ?_, h.unpolled⟩
    intro u depth' id' heq
    have hwaits : w.point = .waiting u depth' id' := heq
    rw [hpoint] at hwaits
    obtain ⟨rfl, rfl, rfl⟩ := Point.waiting.inj hwaits
    rcases entered_next hp hpc with hpc | hpc
    · exact .inr hpc
    · exact absurd (by rw [hpc]; rfl) huser

theorem isBack_panics {t : ThreadId} {n : ℕ} (h : w.isBack x t n = true) : w.panics t = n := by
  simp only [isBack, Bool.and_eq_true, decide_eq_true_eq] at h
  exact h.2

/-- The drop of a guard that has not exited. -/
theorem dropGuard_of_holds {t : ThreadId} {guard : AsyncScopeGuard} (h : w.Holds guard) :
    w.dropGuard t (some guard) =
      [(guard.inner.id, if w.panicking t then .failure else .aborted)] := by
  rw [dropGuard, Option.map_some, Option.getD_some, AsyncScopeGuard.drop_eq,
    Guard.exit_of_open h.exited]

/-- The exit of a guard when the future has completed. -/
theorem Inv.complete (hx : ∀ guard v, x.finish guard v = guard.exit (completion v))
    {t : ThreadId} {depth : ℕ} {guard : AsyncScopeGuard} {output : T} (h : w.Inv completion)
    (hpoint : w.point = .completing t depth guard output) :
    (w.complete x t guard output).Inv completion := by
  have hat := h.here
  rw [hpoint] at hat
  obtain ⟨hholds, hproduced⟩ := hat
  rw [World.complete, hx, Guard.exit_of_open hholds.exited]
  refine ⟨h.journal, ⟨.inl ⟨guard.inner.id, .completed output, ?_, ?_, rfl⟩, hproduced, rfl⟩,
    by nofun, h.unpolled⟩
  · simp [AsyncScopeGuard.drop_eq, Ending.outcome]
  · exact hholds.opened.move rfl rfl rfl

/-- An exit that the guard makes. -/
theorem Inv.exit {t : ThreadId} {calls : List ExitCall} {left : Left T} {finishedAt : Instant}
    {millis nanos : UInt64} (h : w.Inv completion) (hpoint : w.point = .leaving t calls left)
    (hs : w.exit t calls left finishedAt millis nanos = some w') : w'.Inv completion := by
  cases calls with
  | nil => cases hs
  | cons call calls =>
    obtain ⟨id, outcome⟩ := call
    simp only [World.exit, Option.bind_eq_bind, Option.bind_eq_some_iff] at hs
    obtain ⟨process, hp, hs⟩ := hs
    cases hs
    have hat := h.here
    rw [hpoint] at hat
    have hwf := wf_of_step (a := .call t _) hp h.journal
    -- the scope is open, so the call pushes the record of its exit
    have hdone : ∀ {m : World T}, w.Closing completion ((id, outcome) :: calls) →
        m.process = process → m.entered = w.entered → m.ending = w.ending →
        m.returned = w.returned → calls = [] ∧ m.Done completion := by
      rintro m (⟨id', ending, hcalls, hopened, hending⟩ | ⟨hcalls, -⟩) hprocess hsame hend hret
      · obtain ⟨hcall, rfl⟩ := List.cons.inj hcalls
        obtain ⟨rfl, rfl⟩ := Prod.mk.inj hcall
        obtain ⟨start, hentered, hstart⟩ := hopened.entered
        obtain ⟨record, hpushed, hexits⟩ := exit_pushes hp h.journal hopened.opened
        rw [← hprocess] at hpushed
        refine ⟨rfl, ⟨id, start, hsame.trans hentered, ?_⟩, ⟨ending, hend.trans hending, ?_⟩,
          .inl (hret.trans hopened.returned)⟩
        · rw [hpushed, List.length_append]
          omega
        · rw [exits_append hentered (hsame.trans hentered) hstart hpushed, hopened.exits, hexits,
            List.nil_append]
      · cases hcalls
    have hpolled : w.Closing completion ((id, outcome) :: calls) → w.polls ≠ 0 := by
      rintro (⟨id', ending, -, hopened, -⟩ | ⟨hcalls, -⟩) hpolls
      · obtain ⟨start, hentered, -⟩ := hopened.entered
        rw [(h.unpolled hpolls).2] at hentered
        cases hentered
      · cases hcalls
    cases left with
    | ready output =>
      obtain ⟨hclosing, hproduced, hending⟩ := hat
      exact ⟨hwf, ⟨.inr (hdone hclosing rfl rfl rfl rfl), hproduced, hending⟩, by nofun,
        fun hnone => absurd hnone (hpolled hclosing)⟩
    | back block =>
      cases block with
      | unresumed => exact hat.elim
      | suspended guard => cases hat.1
      | returned | panicked =>
        exact ⟨hwf, .inr (hdone hat rfl rfl rfl rfl), by nofun,
          fun hnone => absurd hnone (hpolled hat)⟩
    | dropped =>
      rcases hat with hclosing | ⟨hcalls, -⟩
      · exact ⟨hwf, .inl (.inr (hdone hclosing rfl rfl rfl rfl)), by nofun,
          fun hnone => absurd hnone (hpolled hclosing)⟩
      · cases hcalls

/-- The end of a poll or drop. -/
theorem Inv.leave {t : ThreadId} {left : Left T} (h : w.Inv completion)
    (hpoint : w.point = .leaving t [] left)
    (hs : w.process.uninstall t (Left.isDropped left) = some process) :
    (w.settle process left).Inv completion := by
  have hstep : w.process.step (.uninstall t (Left.isDropped left)) = some process := hs
  have hspared := spared_of_context h.journal hstep (by nofun)
  have hwf := wf_of_step hstep h.journal
  have hat := h.here
  rw [hpoint] at hat
  have hdone : w.Closing completion [] → w.Done completion := by
    rintro (⟨id, ending, hcalls, -⟩ | ⟨-, hdone⟩)
    · cases hcalls
    · exact hdone
  cases left with
  | ready output =>
    obtain ⟨hclosing, hproduced, hending⟩ := hat
    obtain ⟨hentered, hexits, -⟩ : ({ w with process } : World T).Done completion :=
      (hdone hclosing).keep hspared
    refine ⟨hwf, ⟨hentered, hexits, .inr ⟨hproduced.symm, ?_⟩⟩, by nofun, h.unpolled⟩
    show w.ending = w.produced.map .completed
    rw [hending, hproduced]
    rfl
  | back block =>
    cases block with
    | unresumed => exact hat.elim
    | suspended guard => exact ⟨hwf, ⟨hat.2.1.keep hspared, hat.2.2⟩, by nofun, h.unpolled⟩
    | returned | panicked => exact ⟨hwf, (hdone hat).keep hspared, by nofun, h.unpolled⟩
  | dropped =>
    rcases hat with hclosing | ⟨-, hnever⟩
    · exact ⟨hwf, .inl ((hdone hclosing).keep hspared), by nofun, h.unpolled⟩
    · exact ⟨hwf, .inr hnever.keep, by nofun, h.unpolled⟩

/-- A move of the wrapper. -/
theorem Inv.codeStep (hx : ∀ guard v, x.finish guard v = guard.exit (completion v)) {m : Move T}
    {here : Point T} (h : w.Inv completion) (hfresh : w.Fresh m) (hpoint : w.point = here)
    (hs : w.codeStep x here m = some w') : w'.Inv completion := by
  have hat := h.here
  rw [hpoint] at hat
  unfold World.codeStep at hs
  split at hs
  case h_1 t depth startedAt millis => exact h.enter hpoint hfresh hs
  case h_2 t depth id => exact h.await hpoint hs
  case h_3 t depth guard =>
    split_ifs at hs with hback
    cases hs
    exact ⟨h.journal, ⟨rfl, hat.1.move rfl rfl rfl, hat.2⟩, by nofun, h.unpolled⟩
  case h_4 t depth guard output =>
    split_ifs at hs with hback
    cases hs
    exact ⟨h.journal, ⟨hat.1.move rfl rfl rfl, rfl⟩, by nofun, h.unpolled⟩
  case h_5 t depth guard =>
    split_ifs at hs with hback
    cases hs
    exact ⟨h.journal, ⟨Nat.succ_pos depth, hat.1.move rfl rfl rfl, rfl, .inl rfl⟩, by nofun,
      h.unpolled⟩
  case h_6 t depth guard output =>
    split_ifs at hs with hback
    cases hs
    exact h.complete hx hpoint
  case h_7 t depth guard output =>
    split_ifs at hs with hback
    cases hs
    exact ⟨h.journal, ⟨Nat.succ_pos depth, hat.1.move rfl rfl rfl, rfl, .inl rfl⟩, by nofun,
      h.unpolled⟩
  case h_8 t depth guard left =>
    split_ifs at hs with hback
    cases hs
    cases guard with
    | none =>
      obtain ⟨⟨huntouched, hpolls⟩, rfl⟩ := hat
      exact ⟨h.journal, .inr ⟨rfl, huntouched.move rfl rfl rfl rfl, hpolls⟩, by nofun, h.unpolled⟩
    | some guard =>
      obtain ⟨hdepth, hholds, hending, hleft⟩ := hat
      have hpanicking : w.panicking t = true := by
        rw [panicking, isBack_panics hback]
        exact decide_eq_true hdepth
      rw [dropGuard_of_holds hholds, hpanicking]
      have hclosing : Closing completion
          { w with point := .leaving t [(guard.inner.id, .failure)] left }
          [(guard.inner.id, .failure)] :=
        .inl ⟨_, .unwound, rfl, hholds.opened.move rfl rfl rfl, hending⟩
      refine ⟨h.journal, ?_, by nofun, h.unpolled⟩
      rcases hleft with rfl | rfl
      · exact hclosing
      · exact .inl hclosing
  case h_9 t depth guard =>
    split_ifs at hs with hback
    cases hs
    cases guard with
    | none =>
      exact ⟨h.journal, .inr ⟨rfl, hat.1.move rfl rfl rfl rfl, hat.2⟩, by nofun, h.unpolled⟩
    | some guard =>
      rw [dropGuard_of_holds hat.1]
      exact ⟨h.journal, .inl (.inl ⟨_, .cancelled (w.panicking t), rfl,
        hat.1.opened.move rfl rfl rfl, rfl⟩), by nofun, h.unpolled⟩
  case h_10 t depth guard =>
    split_ifs at hs with hback
    cases hs
    cases guard with
    | none =>
      exact ⟨h.journal, ⟨⟨hat.1.move rfl rfl rfl rfl, hat.2⟩, rfl⟩, by nofun, h.unpolled⟩
    | some guard =>
      exact ⟨h.journal, ⟨Nat.succ_pos depth, hat.1.move rfl rfl rfl, rfl, .inr rfl⟩, by nofun,
        h.unpolled⟩
  case h_11 t calls left finishedAt millis nanos => exact h.exit hpoint hs
  case h_12 t calls left =>
    obtain ⟨process, hp, rfl⟩ := Option.map_eq_some_iff.1 hs
    refine ⟨wf_of_step (a := .call t .next) hp h.journal,
      h.here.keep (spared_of_next h.journal hp), ?_, h.unpolled⟩
    intro u depth id heq
    have hwaits : w.point = .waiting u depth id := heq
    rw [hpoint] at hwaits
    cases hwaits
  case h_13 t left =>
    obtain ⟨process, hp, rfl⟩ := Option.map_eq_some_iff.1 hs
    exact h.leave hpoint hp
  case h_14 => cases hs

theorem new_inv (runId : String) (wants : Bool) (max : ℕ) :
    (new runId wants max : World T).Inv completion where
  journal := Journal.new_wf runId
  here := ⟨⟨rfl, rfl, rfl, rfl⟩, rfl⟩
  entering _ _ _ h := by cases h
  unpolled _ := ⟨rfl, rfl⟩

/-- User code spares the scope, and the id of the scope is a new one. -/
def Allowed (w : World T) (m : Move T) : Prop := w.Spares m ∧ w.Fresh m

/-- **What a move keeps.** -/
theorem Inv.step (hx : ∀ guard v, x.finish guard v = guard.exit (completion v)) {m : Move T}
    (h : w.Inv completion) (hm : w.Allowed m) (hs : w.step x m = some w') :
    w'.Inv completion := by
  unfold World.step at hs
  split at hs
  case h_7 => exact h.codeStep hx hm.2 rfl hs
  all_goals exact h.userStep hm.1 hs

/-- The scope has not exited, and nothing was returned. -/
theorem exitsOnce_of_none {w : World T} (h : w.Inv completion) (hexits : w.exits = [])
    (hreturned : w.returned = none) (hgone : w.point = .gone → w.polls = 0) :
    w.ExitsOnce completion where
  unpolled := h.unpolled
  exits := .inl hexits
  gone hpoint hpolls := absurd (hgone hpoint) hpolls
  returned := .inl hreturned

theorem Done.exitsOnce {w : World T} (hd : w.Done completion) (h : w.Inv completion) :
    w.ExitsOnce completion where
  unpolled := h.unpolled
  exits := .inr hd.exits
  gone _ _ := hd.exits
  returned := hd.returned.imp_right fun ⟨hreturned, hending⟩ => ⟨hreturned, hending, hd.exits⟩

theorem Untouched.exits (h : w.Untouched) : w.exits = [] := by rw [World.exits, h.entered]

theorem Never.exitsOnce {w : World T} (hn : w.Never) (h : w.Inv completion) :
    w.ExitsOnce completion :=
  exitsOnce_of_none h hn.1.exits hn.1.returned fun _ => hn.2

theorem Closing.exitsOnce {w : World T} {calls : List ExitCall} (hc : w.Closing completion calls)
    (h : w.Inv completion) (hpoint : w.point ≠ .gone) : w.ExitsOnce completion := by
  rcases hc with ⟨id, ending, -, hopened, -⟩ | ⟨-, hdone⟩
  · exact exitsOnce_of_none h hopened.exits hopened.returned fun hgone => absurd hgone hpoint
  · exact hdone.exitsOnce h

theorem Inv.exitsOnce (h : w.Inv completion) : w.ExitsOnce completion := by
  have hat := h.here
  cases hpoint : w.point with
  | absent =>
    rw [hpoint] at hat
    exact Never.exitsOnce hat h
  | idle block =>
    rw [hpoint] at hat
    cases block with
    | unresumed => exact Never.exitsOnce hat h
    | suspended guard =>
      exact exitsOnce_of_none h hat.1.opened.exits hat.1.opened.returned (by simp [hpoint])
    | returned | panicked => exact Done.exitsOnce hat h
  | entering t depth =>
    rw [hpoint] at hat
    exact exitsOnce_of_none h hat.1.exits hat.1.returned (by simp [hpoint])
  | waiting t depth id =>
    rw [hpoint] at hat
    exact exitsOnce_of_none h hat.1.exits hat.1.returned (by simp [hpoint])
  | polling t depth guard =>
    rw [hpoint] at hat
    exact exitsOnce_of_none h hat.1.opened.exits hat.1.opened.returned (by simp [hpoint])
  | completing t depth guard output =>
    rw [hpoint] at hat
    exact exitsOnce_of_none h hat.1.opened.exits hat.1.opened.returned (by simp [hpoint])
  | unwinding t depth guard left =>
    rw [hpoint] at hat
    cases guard with
    | none => exact hat.1.exitsOnce h
    | some guard =>
      exact exitsOnce_of_none h hat.2.1.opened.exits hat.2.1.opened.returned (by simp [hpoint])
  | dropping t depth guard =>
    rw [hpoint] at hat
    cases guard with
    | none => exact Never.exitsOnce hat h
    | some guard =>
      exact exitsOnce_of_none h hat.1.opened.exits hat.1.opened.returned (by simp [hpoint])
  | leaving t calls left =>
    rw [hpoint] at hat
    cases left with
    | ready output => exact hat.1.exitsOnce h (by simp [hpoint])
    | back block =>
      cases block with
      | unresumed => exact hat.elim
      | suspended guard =>
        exact exitsOnce_of_none h hat.2.1.opened.exits hat.2.1.opened.returned (by simp [hpoint])
      | returned | panicked => exact Closing.exitsOnce hat h (by simp [hpoint])
    | dropped =>
      rcases hat with hclosing | ⟨-, hnever⟩
      · exact hclosing.exitsOnce h (by simp [hpoint])
      · exact hnever.exitsOnce h
  | gone =>
    rw [hpoint] at hat
    rcases hat with hdone | hnever
    · exact hdone.exitsOnce h
    · exact hnever.exitsOnce h

/-- Every run keeps the invariant. -/
theorem Inv.of_run (hx : ∀ guard v, x.finish guard v = guard.exit (completion v)) {runId : String}
    {wants : Bool} {max : ℕ} {moves : List (Move T)}
    (h : Machine.run (World.step x) (new runId wants max) moves = some w)
    (hm : Machine.Meets (World.step x) Allowed (new runId wants max) moves) :
    w.Inv completion :=
  Machine.run_invariant_of_meets (I := Inv completion) (fun _ _ _ hi hc hs => hi.step hx hc hs) h hm
    (new_inv runId wants max)

end World

end AsyncScope

end Eventline
