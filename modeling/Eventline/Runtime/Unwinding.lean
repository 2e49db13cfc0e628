/-
  What guards record when panics unwind.

  Threads run programs of blocks that hold guards, values with a destructor and
  wrapped futures; destructors are programs as well.  A thread keeps a stack of
  what it has to leave.  It leaves a block normally, or since a panic unwinds, or
  since the suspended future that the block belongs to is dropped.

  `Held.created`, `Thread.panics` and `State.drops` say when guards and panics
  came; of these the code knows the number of panics only.

  * `State.step` is one step of a thread.
  * `Dropped.Faithful`: a guard that is dropped records a failure exactly if it
    is dropped by an unwinding that started after it was created.
  * `outcomes_faithful_iff`: when all guards of a run do.
-/
import Eventline.Runtime.Guards
import Eventline.Runtime.Machine

namespace Eventline

namespace Unwinding

/-! ## Programs -/

inductive BlockGuard where
  | scope
  | runtime
  deriving DecidableEq, Repr

/-- Programs, with the loops and branches of a run unrolled. -/
inductive Code where
  | nop
  | panic
  /-- the innermost future returns pending -/
  | await
  | seq (first rest : Code)
  /-- a block that holds a guard -/
  | guard (kind : BlockGuard) (body : Code)
  /-- `exit` of a guard, counted from the innermost -/
  | exit (depth : ℕ) (outcome : Outcome)
  /-- a block that holds a value with a destructor -/
  | onDrop (destructor body : Code)
  | catchUnwind (body : Code)
  /-- `scope_async` or `scope_async_result`, with the outcome of the completion -/
  | scopeAsync (f : FutureId) (completion : Outcome) (body : Code)
  /-- a block that owns a wrapper -/
  | own (f : FutureId) (body : Code)
  | poll (f : FutureId) (ready pending : Code)
  | drop (f : FutureId)

/-! ## Guards -/

/-- A guard of a block, or the guard of a wrapper. -/
inductive GuardKind where
  | block (kind : BlockGuard)
  | async (completion : Outcome)
  deriving DecidableEq, Repr

structure Held where
  kind : GuardKind
  guard : Guard
  created : ℕ
  deriving DecidableEq, Repr

namespace Held

/-- The outcome that an ordinary drop records. -/
def ordinary (h : Held) : Outcome :=
  match h.kind with
  | .block _ => .success
  | .async _ => .aborted

/-- The drop of the guard. -/
def drop (h : Held) (panicking : Bool) : List ExitCall :=
  match h.kind with
  | .block .scope => ScopeGuard.drop h.guard panicking
  | .block .runtime => RuntimeScopeGuard.drop h.guard panicking
  | .async _ => AsyncScopeGuard.drop ⟨h.guard⟩ panicking

/-- A wrapper whose body completes exits its guard. -/
def complete (h : Held) : Held × List ExitCall :=
  match h.kind with
  | .block _ => (h, [])
  | .async completion =>
    let (guard, calls) := h.guard.exit completion
    ({ h with guard }, calls)

end Held

/-! ## Threads -/

/-- How a thread leaves what is on its stack. -/
inductive Leaving where
  | normally
  | unwinding
  /-- a suspended future is dropped, by the unwinding of a panic if it says so -/
  | dropping (panic : Option ℕ)
  deriving DecidableEq, Repr

/-- What happens to a guard before it is dropped. -/
def Held.atEnd (h : Held) : Leaving → Held × List ExitCall
  | .normally => h.complete
  | .unwinding | .dropping _ => (h, [])

inductive Frame where
  | seq (rest : Code)
  | guard (held : Held)
  | onDrop (destructor : Code)
  | catchUnwind
  | own (f : FutureId)
  | poll (f : FutureId) (ready pending : Code)
  /-- the end of a destructor: the thread goes on leaving -/
  | resume (leaving : Leaving)

/-- What the state of a future can hold. -/
def Frame.suspends : Frame → Bool
  | .seq _ | .guard _ | .onDrop _ | .own _ => true
  | _ => false

inductive Control where
  | run (code : Code)
  | leave (leaving : Leaving)

structure Thread where
  control : Control
  stack : List Frame
  /-- when the panics started that are not caught yet, the newest first -/
  panics : List ℕ

/-- `std::thread::panicking`. -/
def Thread.panicking (th : Thread) : Bool := !th.panics.isEmpty

/-- The panic whose unwinding leaves what is left. -/
def Thread.unwinder (th : Thread) : Leaving → Option ℕ
  | .normally => none
  | .unwinding => th.panics.head?
  | .dropping panic => panic

inductive Future where
  | unresumed (completion : Outcome) (body : Code)
  | running
  | suspended (frames : List Frame)
  | finished

/-- A guard that was dropped, by an unwinding or not, and the calls it made. -/
structure Dropped where
  held : Held
  unwinder : Option ℕ
  calls : List ExitCall

structure State where
  threads : ThreadId → Thread
  futures : FutureId → Option Future
  clock : ℕ
  aborted : Bool
  exits : List ExitCall
  drops : List Dropped

/-- The next step of a thread; a scope that it enters gets the id. -/
structure Action where
  thread : ThreadId
  id : ScopeId

/-! ## Steps -/

/-- The guard with the given depth exits. -/
def exitAt (outcome : Outcome) : ℕ → List Frame → List Frame × List ExitCall
  | depth, .guard ⟨.block kind, g, created⟩ :: rest =>
    if depth = 0 then (.guard ⟨.block kind, (g.exit outcome).1, created⟩ :: rest, (g.exit outcome).2)
    else
      let (rest, calls) := exitAt outcome (depth - 1) rest
      (.guard ⟨.block kind, g, created⟩ :: rest, calls)
  | depth, frame :: rest =>
    let (rest, calls) := exitAt outcome depth rest
    (frame :: rest, calls)
  | _, [] => ([], [])

/-- What the innermost future holds, the future, what its poller does next, and
    what that holds. -/
def suspend : List Frame → Option (List Frame × FutureId × Code × List Frame)
  | .poll f _ pending :: rest => some ([], f, pending, rest)
  | frame :: rest =>
    if frame.suspends then
      (suspend rest).map fun (frames, f, pending, rest) => (frame :: frames, f, pending, rest)
    else none
  | [] => none

namespace State

def put (s : State) (t : ThreadId) (control : Control) (stack : List Frame) : State :=
  { s with
    threads := Function.update s.threads t { s.threads t with control, stack }
    clock := s.clock + 1 }

def setFuture (s : State) (f : FutureId) (future : Option Future) : State :=
  { s with futures := Function.update s.futures f future }

/-- A panic starts. -/
def panic (s : State) (t : ThreadId) (stack : List Frame) : State :=
  { s with
    threads := Function.update s.threads t
      ⟨.leave .unwinding, stack, s.clock :: (s.threads t).panics⟩
    clock := s.clock + 1 }

/-- A panic is caught. -/
def catchPanic (s : State) (t : ThreadId) (stack : List Frame) : State :=
  { s with
    threads := Function.update s.threads t
      ⟨.leave .normally, stack, (s.threads t).panics.tail⟩
    clock := s.clock + 1 }

/-- A guard is left. -/
def dropGuard (s : State) (t : ThreadId) (leaving : Leaving) (h : Held) (rest : List Frame) :
    State :=
  let (h, completed) := h.atEnd leaving
  let calls := h.drop (s.threads t).panicking
  { s.put t (.leave leaving) rest with
    exits := s.exits ++ completed ++ calls
    drops := s.drops ++ [⟨h, (s.threads t).unwinder leaving, calls⟩] }

/-- The owner of a wrapper drops it. -/
def dropFuture (s : State) (t : ThreadId) (leaving : Leaving) (f : FutureId) (rest : List Frame) :
    Option State :=
  match s.futures f with
  | some (.suspended frames) =>
    some ((s.put t (.leave (.dropping ((s.threads t).unwinder leaving)))
      (frames ++ .resume leaving :: rest)).setFuture f none)
  | some .running => none
  | some (.unresumed ..) | some .finished | none =>
    some ((s.put t (.leave leaving) rest).setFuture f none)

/-- A poll starts or goes on. -/
def pollFuture (s : State) (a : Action) (f : FutureId) (ready pending : Code) (stack : List Frame) :
    Option State :=
  match s.futures f with
  | some (.unresumed completion body) =>
    some ((s.put a.thread (.run body)
      (.guard ⟨.async completion, ⟨a.id, false⟩, s.clock⟩ :: .poll f ready pending :: stack)).setFuture
        f (some .running))
  | some (.suspended frames) =>
    some ((s.put a.thread (.leave .normally) (frames ++ .poll f ready pending :: stack)).setFuture
      f (some .running))
  | some .finished => some (s.panic a.thread stack)
  | some .running | none => none

def exec (s : State) (a : Action) (stack : List Frame) : Code → Option State
  | .nop => some (s.put a.thread (.leave .normally) stack)
  | .panic => some (s.panic a.thread stack)
  | .await => do
    let (frames, f, pending, rest) ← suspend stack
    some ((s.put a.thread (.run pending) rest).setFuture f (some (.suspended frames)))
  | .seq first rest => some (s.put a.thread (.run first) (.seq rest :: stack))
  | .guard kind body =>
    some (s.put a.thread (.run body) (.guard ⟨.block kind, ⟨a.id, false⟩, s.clock⟩ :: stack))
  | .exit depth outcome =>
    let (stack, calls) := exitAt outcome depth stack
    some { s.put a.thread (.leave .normally) stack with exits := s.exits ++ calls }
  | .onDrop destructor body => some (s.put a.thread (.run body) (.onDrop destructor :: stack))
  | .catchUnwind body => some (s.put a.thread (.run body) (.catchUnwind :: stack))
  | .scopeAsync f completion body =>
    if (s.futures f).isSome then none
    else some ((s.put a.thread (.leave .normally) stack).setFuture f (some (.unresumed completion body)))
  | .own f body => some (s.put a.thread (.run body) (.own f :: stack))
  | .poll f ready pending => s.pollFuture a f ready pending stack
  | .drop f => s.dropFuture a.thread .normally f stack

/-- A thread leaves the innermost frame. -/
def leaveFrame (s : State) (t : ThreadId) (rest : List Frame) : Leaving → Frame → Option State
  | leaving, .guard h => some (s.dropGuard t leaving h rest)
  | leaving, .onDrop destructor => some (s.put t (.run destructor) (.resume leaving :: rest))
  | leaving, .own f => s.dropFuture t leaving f rest
  | .normally, .seq code => some (s.put t (.run code) rest)
  | leaving, .seq _ => some (s.put t (.leave leaving) rest)
  | .normally, .catchUnwind => some (s.put t (.leave .normally) rest)
  | .unwinding, .catchUnwind => some (s.catchPanic t rest)
  | .normally, .poll f ready _ => some ((s.put t (.run ready) rest).setFuture f (some .finished))
  | .unwinding, .poll f .. =>
    some ((s.put t (.leave .unwinding) rest).setFuture f (some .finished))
  -- a panic that leaves a destructor which another unwinding runs
  | .unwinding, .resume .unwinding => some { s with aborted := true }
  | .unwinding, .resume _ => some (s.put t (.leave .unwinding) rest)
  | _, .resume leaving => some (s.put t (.leave leaving) rest)
  | .dropping _, .catchUnwind | .dropping _, .poll .. => none

def step (s : State) (a : Action) : Option State :=
  if s.aborted then none
  else
    match (s.threads a.thread).control, (s.threads a.thread).stack with
    | .run code, stack => s.exec a stack code
    | .leave leaving, frame :: rest => s.leaveFrame a.thread rest leaving frame
    | .leave _, [] => none

/-- Every thread at the start of its program. -/
def start (programs : ThreadId → Code) : State where
  threads t := ⟨.run (programs t), [], []⟩
  futures _ := none
  clock := 0
  aborted := false
  exits := []
  drops := []

end State

/-! ## Faithful outcomes -/

/-- The outcome by the lifetime of the guard. -/
def Dropped.lifetimeOutcome (d : Dropped) : Outcome :=
  if d.unwinder.any (d.held.created < ·) then .failure else d.held.ordinary

/-- A guard that has not exited records the outcome by its lifetime. -/
def Dropped.Faithful (d : Dropped) : Prop :=
  d.held.guard.exited = false → d.calls = [(d.held.guard.id, d.lifetimeOutcome)]

instance (d : Dropped) : Decidable d.Faithful :=
  inferInstanceAs (Decidable (_ → _))

/-- The next step of the thread leaves no guard on its own while the thread
    panics: one that has not exited yet is left normally or with its wrapper only
    if no panic unwinds, or the wrapper is dropped by the unwinding of a panic
    that started after the guard was created. -/
def State.calm (s : State) (t : ThreadId) : Bool :=
  match (s.threads t).control, (s.threads t).stack with
  | .leave .normally, .guard h :: _ => h.complete.1.guard.exited || !(s.threads t).panicking
  | .leave (.dropping panic), .guard h :: _ =>
    h.guard.exited || !(s.threads t).panicking || panic.any (h.created < ·)
  | _, _ => true

/-! ## The stack and the panics -/

/-- The guards of the frames were created before. -/
def Before (n : ℕ) (frames : List Frame) : Prop := ∀ h, Frame.guard h ∈ frames → h.created < n

/-- The panics are those whose unwinding goes on further down, the newest first:
    what it leaves there was created before it started. -/
def Nested : List Frame → List ℕ → Prop
  | [], panics => panics = []
  | .resume .unwinding :: rest, panics =>
    ∃ p ps, panics = p :: ps ∧ Before p rest ∧ Nested rest ps
  | .resume (.dropping panic) :: rest, panics =>
    (∀ p, panic = some p → p ∈ panics) ∧ Nested rest panics
  | _ :: rest, panics => Nested rest panics

/-- What a thread has still to do. -/
def Control.pending (stack : List Frame) : Control → List Frame
  | .run _ => stack
  | .leave leaving => .resume leaving :: stack

/-- The frames of a suspended future. -/
structure Stored (n : ℕ) (frames : List Frame) : Prop where
  suspends : ∀ x ∈ frames, x.suspends = true
  guards : Before n frames

structure Thread.WF (n : ℕ) (th : Thread) : Prop where
  guards : Before n th.stack
  panics : ∀ p ∈ th.panics, p < n
  nested : Nested (th.control.pending th.stack) th.panics

structure Sound (s : State) : Prop where
  threads : ∀ t, (s.threads t).WF s.clock
  futures : ∀ f frames, s.futures f = some (.suspended frames) → Stored s.clock frames

theorem start_sound (programs : ThreadId → Code) : Sound (.start programs) where
  threads t := ⟨fun _ h => (by cases h), fun _ h => (by cases h), rfl⟩
  futures f frames h := by cases h

theorem Before.mono {m n : ℕ} {frames : List Frame} (h : Before m frames) (hmn : m ≤ n) :
    Before n frames := fun g hg => (h g hg).trans_le hmn

@[simp] theorem before_nil (n : ℕ) : Before n [] := fun _ h => by cases h

@[simp] theorem before_cons {n : ℕ} {x : Frame} {frames : List Frame} :
    Before n (x :: frames) ↔ (∀ h, x = .guard h → h.created < n) ∧ Before n frames := by
  simp only [Before, List.mem_cons, or_imp, forall_and]
  exact and_congr_left' ⟨fun h g hg => h g hg.symm, fun h g hg => h g hg.symm⟩

@[simp] theorem before_append {n : ℕ} {xs ys : List Frame} :
    Before n (xs ++ ys) ↔ Before n xs ∧ Before n ys := by
  simp [Before, or_imp, forall_and]

/-- What a future can hold does not unwind anything. -/
theorem nested_cons {x : Frame} (h : x.suspends = true) (rest : List Frame) (panics : List ℕ) :
    Nested (x :: rest) panics ↔ Nested rest panics := by
  cases x with
  | seq | guard | onDrop | own => rfl
  | catchUnwind | poll | resume => cases h

theorem nested_append {frames : List Frame} (h : ∀ x ∈ frames, x.suspends = true)
    (rest : List Frame) (panics : List ℕ) :
    Nested (frames ++ rest) panics ↔ Nested rest panics := by
  induction frames with
  | nil => rfl
  | cons x frames ih =>
    obtain ⟨hx, hframes⟩ := List.forall_mem_cons.1 h
    rw [List.cons_append, nested_cons hx, ih hframes]

/-- An unwinding leaves what was there before its panic. -/
theorem nested_panic {n : ℕ} {stack : List Frame} {panics : List ℕ} (h : Nested stack panics)
    (hbefore : Before n stack) : Nested (.resume .unwinding :: stack) (n :: panics) :=
  ⟨n, panics, rfl, hbefore, h⟩

/-! An exit of a guard changes nothing else. -/

theorem exitAt_before {n : ℕ} (outcome : Outcome) (depth : ℕ) {stack : List Frame}
    (h : Before n stack) : Before n (exitAt outcome depth stack).1 := by
  fun_induction exitAt outcome depth stack with
  | case1 kind g created rest =>
    rw [before_cons] at h ⊢
    refine ⟨?_, h.2⟩
    rintro g' ⟨⟩
    exact h.1 ⟨.block kind, g, created⟩ rfl
  | case2 depth kind g created rest hne rest' calls heq ih =>
    rw [before_cons] at h ⊢
    rw [heq] at ih
    exact ⟨h.1, ih h.2⟩
  | case3 depth frame rest hno rest' calls heq ih =>
    rw [before_cons] at h ⊢
    rw [heq] at ih
    exact ⟨h.1, ih h.2⟩
  | case4 => exact h

theorem exitAt_nested (outcome : Outcome) (depth : ℕ) {stack : List Frame} {panics : List ℕ}
    (h : Nested stack panics) : Nested (exitAt outcome depth stack).1 panics := by
  fun_induction exitAt outcome depth stack generalizing panics with
  | case1 => exact h
  | case2 depth kind g created rest hne rest' calls heq ih =>
    rw [heq] at ih
    exact ih h
  | case3 depth frame rest hno rest' calls heq ih =>
    rw [heq] at ih
    have hrest : rest' = (exitAt outcome depth rest).1 := by rw [heq]
    cases frame with
    | resume leaving =>
      cases leaving with
      | normally => exact ih h
      | unwinding =>
        obtain ⟨p, ps, rfl, hbefore, hnested⟩ := h
        exact ⟨p, ps, rfl, hrest ▸ exitAt_before outcome depth hbefore, ih hnested⟩
      | dropping panic => exact ⟨h.1, ih h.2⟩
    | seq | guard | onDrop | own | catchUnwind | poll => exact ih h
  | case4 => exact h

/-- What is suspended, and what is not. -/
theorem suspend_eq_some {stack frames rest : List Frame} {f : FutureId} {pending : Code}
    (h : suspend stack = some (frames, f, pending, rest)) :
    (∀ x ∈ frames, x.suspends = true) ∧ ∃ ready, stack = frames ++ .poll f ready pending :: rest := by
  induction stack generalizing frames with
  | nil => cases h
  | cons x stack ih =>
    by_cases hx : x.suspends = true
    · have hstep : suspend (x :: stack) = (suspend stack).map fun (frames, f, pending, rest) =>
          (x :: frames, f, pending, rest) := by
        cases x with
        | seq | guard | onDrop | own => rfl
        | catchUnwind | poll | resume => cases hx
      rw [hstep, Option.map_eq_some_iff] at h
      obtain ⟨⟨frames', f', pending', rest'⟩, hrest, heq⟩ := h
      obtain ⟨rfl, rfl, rfl, rfl⟩ : x :: frames' = frames ∧ f' = f ∧ pending' = pending ∧
        rest' = rest := by simpa using heq
      obtain ⟨hframes, ready, rfl⟩ := ih hrest
      exact ⟨List.forall_mem_cons.2 ⟨hx, hframes⟩, ready, rfl⟩
    · cases x with
      | poll f' ready pending' =>
        obtain ⟨rfl, rfl, rfl, rfl⟩ : [] = frames ∧ f' = f ∧ pending' = pending ∧ stack = rest := by
          simpa [suspend] using h
        exact ⟨by simp, ready, rfl⟩
      | catchUnwind | resume => cases h
      | seq | guard | onDrop | own => exact absurd rfl hx

/-! ## What a step keeps -/

theorem Stored.mono {m n : ℕ} {frames : List Frame} (h : Stored m frames) (hmn : m ≤ n) :
    Stored n frames := ⟨h.suspends, h.guards.mono hmn⟩

theorem Thread.WF.mono {m n : ℕ} {th : Thread} (h : th.WF m) (hmn : m ≤ n) : th.WF n :=
  ⟨h.guards.mono hmn, fun p hp => (h.panics p hp).trans_le hmn, h.nested⟩

section
variable {s s' : State} (h : Sound s)
include h

/-- One thread goes on. -/
theorem Sound.update {t : ThreadId} (th : Thread) (hth : th.WF (s.clock + 1))
    (hthreads : s'.threads = Function.update s.threads t th) (hfutures : s'.futures = s.futures)
    (hclock : s'.clock = s.clock + 1) : Sound s' := by
  constructor
  · intro u
    rw [hthreads, hclock]
    by_cases hu : u = t
    · subst hu
      rw [Function.update_self]
      exact hth
    · rw [Function.update_of_ne hu]
      exact (h.threads u).mono (Nat.le_succ _)
  · intro f frames hf
    rw [hfutures] at hf
    rw [hclock]
    exact (h.futures f frames hf).mono (Nat.le_succ _)

theorem Sound.put {t : ThreadId} {control : Control} {stack : List Frame}
    (hguards : Before (s.clock + 1) stack)
    (hnested : Nested (control.pending stack) (s.threads t).panics) : Sound (s.put t control stack) :=
  h.update { s.threads t with control, stack }
    ⟨hguards, fun p hp => ((h.threads t).panics p hp).trans_le (Nat.le_succ _), hnested⟩ rfl rfl rfl

theorem Sound.run {t : ThreadId} {code : Code} {stack : List Frame}
    (hguards : Before (s.clock + 1) stack) (hnested : Nested stack (s.threads t).panics) :
    Sound (s.put t (.run code) stack) :=
  h.put hguards hnested

theorem Sound.leave {t : ThreadId} {leaving : Leaving} {stack : List Frame}
    (hguards : Before (s.clock + 1) stack)
    (hnested : Nested (.resume leaving :: stack) (s.threads t).panics) :
    Sound (s.put t (.leave leaving) stack) :=
  h.put hguards hnested

theorem Sound.setFuture (f : FutureId) {future : Option Future}
    (hfuture : ∀ frames, future = some (.suspended frames) → Stored s.clock frames) :
    Sound (s.setFuture f future) := by
  refine ⟨h.threads, ?_⟩
  intro g frames hg
  by_cases hgf : g = f
  · subst hgf
    exact hfuture frames (by simpa [State.setFuture] using hg)
  · exact h.futures g frames (by simpa [State.setFuture, Function.update_of_ne hgf] using hg)

theorem Sound.panic {t : ThreadId} {stack : List Frame} (hguards : Before s.clock stack)
    (hnested : Nested stack (s.threads t).panics) : Sound (s.panic t stack) := by
  have hpanics : ∀ p ∈ s.clock :: (s.threads t).panics, p < s.clock + 1 := by
    intro p hp
    rcases List.mem_cons.1 hp with rfl | hp
    · exact Nat.lt_succ_self _
    · exact ((h.threads t).panics p hp).trans_le (Nat.le_succ _)
  exact h.update ⟨.leave .unwinding, stack, s.clock :: (s.threads t).panics⟩
    ⟨hguards.mono (Nat.le_succ _), hpanics, nested_panic hnested hguards⟩ rfl rfl rfl

/-- A wrapper is dropped; its frames come before what the thread leaves. -/
theorem Sound.dropFuture {t : ThreadId} {leaving : Leaving} {f : FutureId} {rest : List Frame}
    (hguards : Before s.clock rest)
    (hnested : Nested (.resume leaving :: rest) (s.threads t).panics)
    (hs : s.dropFuture t leaving f rest = some s') : Sound s' := by
  have hrest : Before (s.clock + 1) rest := hguards.mono (Nat.le_succ _)
  unfold State.dropFuture at hs
  split at hs
  · rename_i frames hf
    have hstored := h.futures f frames hf
    cases hs
    -- the unwinding that drops the wrapper is that of a panic of the thread
    have hunwinder : ∀ p, (s.threads t).unwinder leaving = some p → p ∈ (s.threads t).panics := by
      intro p hp
      cases leaving with
      | normally => cases hp
      | unwinding => exact List.mem_of_mem_head? hp
      | dropping panic => exact hnested.1 p hp
    have hgoes : Nested (.resume (.dropping ((s.threads t).unwinder leaving)) ::
        (frames ++ .resume leaving :: rest)) (s.threads t).panics :=
      ⟨hunwinder, (nested_append hstored.suspends _ _).2 hnested⟩
    refine (h.leave (before_append.2 ⟨hstored.guards.mono (Nat.le_succ _), ?_⟩) hgoes).setFuture f
      (by simp)
    rw [before_cons]
    exact ⟨by simp, hrest⟩
  · cases hs
  all_goals
    cases hs
    exact (h.leave hrest hnested).setFuture f (by simp)

theorem Sound.pollFuture {a : Action} {f : FutureId} {ready pending : Code} {stack : List Frame}
    (hguards : Before s.clock stack) (hnested : Nested stack (s.threads a.thread).panics)
    (hs : s.pollFuture a f ready pending stack = some s') : Sound s' := by
  have hstack : Before (s.clock + 1) (.poll f ready pending :: stack) :=
    before_cons.2 ⟨by simp, hguards.mono (Nat.le_succ _)⟩
  unfold State.pollFuture at hs
  split at hs
  · rename_i completion body hf
    cases hs
    have hgoes : Nested (.guard ⟨.async completion, ⟨a.id, false⟩, s.clock⟩ ::
        .poll f ready pending :: stack) (s.threads a.thread).panics := hnested
    refine (h.run (before_cons.2 ⟨?_, hstack⟩) hgoes).setFuture f (by simp)
    rintro g ⟨⟩
    exact Nat.lt_succ_self _
  · rename_i frames hf
    have hstored := h.futures f frames hf
    cases hs
    have hgoes : Nested (.resume .normally :: (frames ++ .poll f ready pending :: stack))
        (s.threads a.thread).panics := (nested_append hstored.suspends _ _).2 hnested
    exact (h.leave (before_append.2 ⟨hstored.guards.mono (Nat.le_succ _), hstack⟩) hgoes).setFuture
      f (by simp)
  · cases hs
    exact h.panic hguards hnested
  · cases hs
  · cases hs

/-- A step of a program. -/
theorem Sound.exec {a : Action} {stack : List Frame} {code : Code} (hguards : Before s.clock stack)
    (hnested : Nested stack (s.threads a.thread).panics) (hs : s.exec a stack code = some s') :
    Sound s' := by
  have hstack : Before (s.clock + 1) stack := hguards.mono (Nat.le_succ _)
  have hnormally : Nested (.resume .normally :: stack) (s.threads a.thread).panics := hnested
  cases code with
  | nop =>
    cases hs
    exact h.leave hstack hnormally
  | panic =>
    cases hs
    exact h.panic hguards hnested
  | await =>
    simp only [State.exec, Option.bind_eq_bind, Option.bind_eq_some_iff] at hs
    obtain ⟨⟨frames, f, pending, rest⟩, hsuspend, hs⟩ := hs
    cases hs
    obtain ⟨hframes, ready, rfl⟩ := suspend_eq_some hsuspend
    obtain ⟨hstored, hrest⟩ := before_append.1 hstack
    have hpoller : Nested (.poll f ready pending :: rest) (s.threads a.thread).panics :=
      (nested_append hframes _ _).1 hnested
    refine (h.run (before_cons.1 hrest).2 hpoller).setFuture f ?_
    rintro _ ⟨⟩
    exact ⟨hframes, hstored⟩
  | guard kind body =>
    cases hs
    refine h.run (before_cons.2 ⟨?_, hstack⟩) hnested
    rintro g ⟨⟩
    exact Nat.lt_succ_self _
  | exit depth outcome =>
    cases hs
    have hleave := h.leave (exitAt_before outcome depth hstack) (exitAt_nested outcome depth hnormally)
    exact ⟨hleave.threads, hleave.futures⟩
  | scopeAsync f completion body =>
    simp only [State.exec] at hs
    split_ifs at hs
    cases hs
    exact (h.leave hstack hnormally).setFuture f (by simp)
  | poll f ready pending => exact h.pollFuture hguards hnested hs
  | drop f => exact h.dropFuture hguards hnormally hs
  | seq | onDrop | catchUnwind | own =>
    cases hs
    exact h.run (before_cons.2 ⟨by simp, hstack⟩) hnested

/-- A thread leaves a frame. -/
theorem Sound.leaveFrame {t : ThreadId} {leaving : Leaving} {frame : Frame} {rest : List Frame}
    (hguards : Before s.clock (frame :: rest))
    (hnested : Nested (.resume leaving :: frame :: rest) (s.threads t).panics)
    (hs : s.leaveFrame t rest leaving frame = some s') : Sound s' := by
  have hrest : Before (s.clock + 1) rest := (before_cons.1 hguards).2.mono (Nat.le_succ _)
  -- frames that hold no unwinding
  have hskip : (∀ ps, Nested (frame :: rest) ps → Nested rest ps) →
      Nested (.resume leaving :: rest) (s.threads t).panics := by
    intro hframe
    cases leaving with
    | normally => exact hframe _ hnested
    | unwinding =>
      obtain ⟨p, ps, hp, hbefore, hps⟩ := hnested
      exact ⟨p, ps, hp, (before_cons.1 hbefore).2, hframe ps hps⟩
    | dropping panic => exact ⟨hnested.1, hframe _ hnested.2⟩
  cases frame with
  | guard held =>
    cases hs
    have hleave := h.leave hrest (hskip fun _ hps => hps)
    exact ⟨hleave.threads, hleave.futures⟩
  | onDrop destructor =>
    cases hs
    exact h.run (before_cons.2 ⟨by simp, hrest⟩) (hskip fun _ hps => hps)
  | own f =>
    exact h.dropFuture (before_cons.1 hguards).2 (hskip fun _ hps => hps) hs
  | seq code =>
    have hnested' := hskip fun _ hps => hps
    cases leaving with
    | normally =>
      cases hs
      exact h.run hrest hnested'
    | unwinding | dropping =>
      cases hs
      exact h.leave hrest hnested'
  | catchUnwind =>
    cases leaving with
    | normally =>
      cases hs
      exact h.leave hrest (hskip fun _ hps => hps)
    | unwinding =>
      cases hs
      obtain ⟨p, ps, hp, -, hps⟩ := hnested
      have hpanics : ∀ q ∈ (s.threads t).panics.tail, q < s.clock + 1 := by
        intro q hq
        exact ((h.threads t).panics q (List.mem_of_mem_tail hq)).trans_le (Nat.le_succ _)
      have hcaught : Nested (.resume .normally :: rest) (s.threads t).panics.tail := by
        rw [hp]
        exact hps
      exact h.update ⟨.leave .normally, rest, (s.threads t).panics.tail⟩
        ⟨hrest, hpanics, hcaught⟩ rfl rfl rfl
    | dropping panic => cases hs
  | poll f ready pending =>
    have hnested' := hskip fun _ hps => hps
    cases leaving with
    | normally =>
      cases hs
      exact (h.run hrest hnested').setFuture f (by simp)
    | unwinding =>
      cases hs
      exact (h.leave hrest hnested').setFuture f (by simp)
    | dropping panic => cases hs
  | resume leaving' =>
    cases leaving with
    | normally =>
      have hgoes : s.leaveFrame t rest .normally (.resume leaving') =
          some (s.put t (.leave leaving') rest) := by cases leaving' <;> rfl
      cases hgoes.symm.trans hs
      exact h.leave hrest hnested
    | dropping panic =>
      have hgoes : s.leaveFrame t rest (.dropping panic) (.resume leaving') =
          some (s.put t (.leave leaving') rest) := by cases leaving' <;> rfl
      cases hgoes.symm.trans hs
      exact h.leave hrest hnested.2
    | unwinding =>
      obtain ⟨p, ps, hp, hbefore, hps⟩ := hnested
      have hunwinding : (∀ ps, Nested (.resume leaving' :: rest) ps → Nested rest ps) →
          Nested (.resume .unwinding :: rest) (s.threads t).panics :=
        fun hframe => ⟨p, ps, hp, (before_cons.1 hbefore).2, hframe ps hps⟩
      cases leaving' with
      | unwinding =>
        cases hs
        exact ⟨h.threads, h.futures⟩
      | normally =>
        cases hs
        exact h.leave hrest (hunwinding fun _ hps => hps)
      | dropping panic =>
        cases hs
        exact h.leave hrest (hunwinding fun _ hps => hps.2)

theorem Sound.step {a : Action} (hs : s.step a = some s') : Sound s' := by
  unfold State.step at hs
  split_ifs at hs
  have hth := h.threads a.thread
  split at hs
  · rename_i code stack hcontrol
    have hnested := hth.nested
    rw [hcontrol] at hnested
    exact h.exec hth.guards hnested hs
  · rename_i leaving frame rest hcontrol hstack
    have hnested := hth.nested
    have hguards := hth.guards
    rw [hcontrol, hstack] at hnested
    rw [hstack] at hguards
    exact h.leaveFrame hguards hnested hs
  · cases hs

end

/-! ## What is recorded -/

theorem Held.ordinary_ne_failure (h : Held) : h.ordinary ≠ .failure := by
  obtain ⟨kind, g, created⟩ := h
  cases kind <;> nofun

/-- All guards that have not exited go by the flag of the thread. -/
theorem Held.drop_of_open {h : Held} (hopen : h.guard.exited = false) (panicking : Bool) :
    h.drop panicking = [(h.guard.id, if panicking then .failure else h.ordinary)] := by
  obtain ⟨kind, g, created⟩ := h
  cases kind with
  | block kind =>
    cases kind with
    | scope | runtime =>
      rw [Held.drop, Held.ordinary]
      exact congrArg Prod.snd (Guard.exit_of_open hopen _)
  | async completion =>
    rw [Held.drop, Held.ordinary]
    exact (AsyncScopeGuard.drop_eq _ _).trans (congrArg Prod.snd (Guard.exit_of_open hopen _))

/-- A drop is faithful if the flag says what the lifetime of the guard does. -/
theorem faithful_iff (h : Held) (unwinder : Option ℕ) (panicking : Bool) :
    Dropped.Faithful ⟨h, unwinder, h.drop panicking⟩ ↔
      h.guard.exited = true ∨ unwinder.any (h.created < ·) = panicking := by
  unfold Dropped.Faithful Dropped.lifetimeOutcome
  cases hexited : h.guard.exited with
  | true => simp
  | false =>
    rw [Held.drop_of_open hexited]
    have hne := h.ordinary_ne_failure
    cases unwinder.any (h.created < ·) with
    | true => cases panicking <;> simp [hne]
    | false => cases panicking <;> simp [hne.symm]

/-! Only a guard that is left is a drop. -/

section
variable {s s' : State}

theorem dropFuture_drops {t : ThreadId} {leaving : Leaving} {f : FutureId} {rest : List Frame}
    (hs : s.dropFuture t leaving f rest = some s') : s'.drops = s.drops := by
  unfold State.dropFuture at hs
  split at hs <;> cases hs <;> rfl

theorem exec_drops {a : Action} {stack : List Frame} {code : Code}
    (hs : s.exec a stack code = some s') : s'.drops = s.drops := by
  cases code with
  | await =>
    simp only [State.exec, Option.bind_eq_bind, Option.bind_eq_some_iff] at hs
    obtain ⟨_, -, hs⟩ := hs
    cases hs
    rfl
  | scopeAsync f completion body =>
    simp only [State.exec] at hs
    split_ifs at hs
    cases hs
    rfl
  | poll f ready pending =>
    simp only [State.exec, State.pollFuture] at hs
    split at hs <;> cases hs <;> rfl
  | drop f => exact dropFuture_drops hs
  | nop | panic | seq | guard | exit | onDrop | catchUnwind | own =>
    cases hs
    rfl

theorem leaveFrame_drops {t : ThreadId} {leaving : Leaving} {frame : Frame} {rest : List Frame}
    (hne : ∀ held, frame ≠ .guard held) (hs : s.leaveFrame t rest leaving frame = some s') :
    s'.drops = s.drops := by
  cases frame with
  | guard held => exact absurd rfl (hne held)
  | own f => exact dropFuture_drops hs
  | onDrop =>
    cases hs
    rfl
  | seq | catchUnwind | poll =>
    cases leaving <;> cases hs <;> rfl
  | resume leaving' =>
    cases leaving with
    | normally | unwinding | dropping =>
      cases leaving' with
      | normally | unwinding | dropping =>
        cases hs
        rfl

end

section
variable {s s' : State} (h : Sound s)
include h

/-- **A guard that is left** records its outcome faithfully if the step is calm. -/
theorem Sound.dropGuard_faithful {t : ThreadId} {leaving : Leaving} {held : Held}
    {rest : List Frame} (hcontrol : (s.threads t).control = .leave leaving)
    (hstack : (s.threads t).stack = .guard held :: rest) :
    ∃ d, (s.dropGuard t leaving held rest).drops = s.drops ++ [d] ∧
      (d.Faithful ↔ s.calm t = true) := by
  have hnested := (h.threads t).nested
  rw [hcontrol, hstack] at hnested
  refine ⟨_, rfl, ?_⟩
  rw [faithful_iff, State.calm, hcontrol, hstack]
  cases leaving with
  | normally => cases hp : (s.threads t).panicking <;> simp [Thread.unwinder]
  | unwinding =>
    -- the guard was created before the panic
    obtain ⟨p, ps, hp, hbefore, -⟩ := hnested
    have hcreated := (before_cons.1 hbefore).1 held rfl
    simp [Thread.unwinder, Thread.panicking, hp, hcreated]
  | dropping panic =>
    have hmem := hnested.1
    cases hp : (s.threads t).panicking with
    | true => simp [Thread.unwinder]
    | false =>
      have hnil : (s.threads t).panics = [] := by simpa [Thread.panicking] using hp
      have hnone : panic = none := by
        rw [Option.eq_none_iff_forall_ne_some]
        intro p hsome
        have := hmem p hsome
        rw [hnil] at this
        cases this
      simp [Thread.unwinder, hnone]

theorem Sound.step_drops {a : Action} (hs : s.step a = some s') :
    (∀ d ∈ s'.drops, d.Faithful) ↔ (∀ d ∈ s.drops, d.Faithful) ∧ s.calm a.thread = true := by
  unfold State.step at hs
  split_ifs at hs
  split at hs
  · rename_i code stack hcontrol
    have hcalm : s.calm a.thread = true := by rw [State.calm, hcontrol]
    have hdrops : s'.drops = s.drops := exec_drops hs
    rw [hdrops, hcalm]
    simp
  · rename_i leaving frame rest hcontrol hstack
    by_cases hguard : ∃ held, frame = .guard held
    · obtain ⟨held, rfl⟩ := hguard
      cases hs
      obtain ⟨d, hdrops, hfaithful⟩ := h.dropGuard_faithful hcontrol hstack
      rw [hdrops, ← hfaithful]
      simp [or_imp, forall_and]
    · have hne : ∀ held, frame ≠ .guard held := fun held he => hguard ⟨held, he⟩
      have hcalm : s.calm a.thread = true := by
        rw [State.calm, hcontrol, hstack]
        cases leaving <;> cases frame <;> simp_all
      rw [leaveFrame_drops hne hs, hcalm]
      simp
  · cases hs

end

/-- **Outcomes are faithful** in just the runs of which every step is calm,
    whatever the programs of the threads are and however they interleave. -/
theorem outcomes_faithful_iff (programs : ThreadId → Code) (actions : List Action) (s : State)
    (hrun : Machine.run State.step (.start programs) actions = some s) :
    (∀ d ∈ s.drops, d.Faithful) ↔
      Machine.Meets State.step (fun s a => s.calm a.thread = true) (.start programs) actions := by
  suffices hmain : ∀ {s₀ : State}, Sound s₀ → Machine.run State.step s₀ actions = some s →
      ((∀ d ∈ s.drops, d.Faithful) ↔ (∀ d ∈ s₀.drops, d.Faithful) ∧
        Machine.Meets State.step (fun s a => s.calm a.thread = true) s₀ actions) by
    have hfinal := hmain (start_sound programs) hrun
    simpa [State.start] using hfinal
  clear hrun
  intro s₀ hsound hrun
  induction actions generalizing s₀ with
  | nil =>
    obtain rfl := Option.some.inj hrun
    simp [Machine.Meets]
  | cons a actions ih =>
    obtain ⟨s₁, hs₁, hrest⟩ := Machine.run_cons_eq_some.1 hrun
    rw [ih (hsound.step hs₁) hrest, hsound.step_drops hs₁, and_assoc]
    simp [Machine.Meets, hs₁]

/-- The first steps of thread 0, on its own. -/
def alone (n : ℕ) : List Action := (List.range n).map fun i => ⟨0, ⟨UInt64.ofNat i⟩⟩

/-- A panic is caught; the destructor that it runs exits the guard it holds. -/
def exitingCleanup : Code :=
  .catchUnwind (.guard .runtime (.onDrop (.guard .scope (.exit 0 .success)) .panic))

theorem outcomes_faithful_iff_exiting : ∃ s,
    Machine.run State.step (.start fun _ => exitingCleanup) (alone 11) = some s ∧
      s.exits = [(⟨5⟩, .success), (⟨1⟩, .failure)] ∧ ∀ d ∈ s.drops, d.Faithful := by
  obtain ⟨s, hs, hexits⟩ : ∃ s,
      Machine.run State.step (.start fun _ => exitingCleanup) (alone 11) = some s ∧
        s.exits = [(⟨5⟩, .success), (⟨1⟩, .failure)] := ⟨_, rfl, rfl⟩
  exact ⟨s, hs, hexits, (outcomes_faithful_iff _ _ s hs).2 (by decide)⟩

/-- A panic is caught; the destructor that it runs holds a guard, and drops a
    pending wrapper. -/
def loggingCleanup : Code :=
  .catchUnwind (.onDrop (.seq (.guard .runtime .nop)
    (.seq (.scopeAsync 0 .success .await) (.seq (.poll 0 .nop .nop) (.drop 0)))) .panic)

/-- **Both record a failure**, though nothing has unwound them. -/
theorem outcomes_unfaithful : ∃ s,
    Machine.run State.step (.start fun _ => loggingCleanup) (alone 22) = some s ∧
      s.exits.map Prod.snd = [.failure, .failure] ∧ s.drops.map (·.unwinder) = [none, none] ∧
      ¬ ∀ d ∈ s.drops, d.Faithful := by
  obtain ⟨s, hs, hexits, hunwinders, hfails⟩ : ∃ s,
      Machine.run State.step (.start fun _ => loggingCleanup) (alone 22) = some s ∧
        s.exits.map Prod.snd = [.failure, .failure] ∧ s.drops.map (·.unwinder) = [none, none] ∧
        s.drops.all (fun d => decide d.Faithful) = false := ⟨_, rfl, rfl, rfl, rfl⟩
  refine ⟨s, hs, hexits, hunwinders, fun hall => ?_⟩
  rw [List.all_eq_true.2 fun d hd => decide_eq_true (hall d hd)] at hfails
  cases hfails

end Unwinding

end Eventline
