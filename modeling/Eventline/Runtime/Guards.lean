/-
  The guards of scopes (`core/scope.rs`, and `AsyncScopeGuard` of
  `runtime/scope_context.rs`).

  What a guard does is the list of the calls of `exit_scope` that it makes.
  Whether the thread is panicking is an argument.
-/
import Eventline.Core

namespace Eventline

/-- A call of `exit_scope`. -/
abbrev ExitCall := ScopeId × Outcome

/-- What `ScopeGuard` and `RuntimeScopeGuard` have in common. -/
structure Guard where
  id : ScopeId
  exited : Bool
  deriving DecidableEq, Repr

namespace Guard

/-- `exit`: calls after the first are ignored. -/
def exit (g : Guard) (outcome : Outcome) : Guard × List ExitCall :=
  if g.exited then (g, []) else ({ g with exited := true }, [(g.id, outcome)])

/-- `exit_result`. -/
def exitResult {ε α : Type} (g : Guard) (result : Except ε α) : Guard × List ExitCall :=
  g.exit (if result.isOk then .success else .failure)

@[simp] theorem exit_exited (g : Guard) (outcome : Outcome) : (g.exit outcome).1.exited = true := by
  unfold exit
  split_ifs with h
  · exact h
  · rfl

theorem exit_of_open {g : Guard} (h : g.exited = false) (outcome : Outcome) :
    g.exit outcome = ({ g with exited := true }, [(g.id, outcome)]) := by
  rw [exit, if_neg (by simp [h])]

/-- A guard that has exited makes no call. -/
@[simp] theorem exit_of_exited {g : Guard} (h : g.exited = true) (outcome : Outcome) :
    g.exit outcome = (g, []) := by
  rw [exit, if_pos h]

end Guard

abbrev ScopeGuard := Guard

abbrev RuntimeScopeGuard := Guard

structure AsyncScopeGuard where
  inner : RuntimeScopeGuard

/-- The outcome of a plain guard that is dropped. -/
def plainOutcome (panicking : Bool) : Outcome := if panicking then .failure else .success

def ScopeGuard.drop (g : ScopeGuard) (panicking : Bool) : List ExitCall :=
  (g.exit (plainOutcome panicking)).2

def RuntimeScopeGuard.drop (g : RuntimeScopeGuard) (panicking : Bool) : List ExitCall :=
  (g.exit (plainOutcome panicking)).2

/-- The guard of a wrapper: it exits what it holds, which is dropped after it. -/
def AsyncScopeGuard.drop (g : AsyncScopeGuard) (panicking : Bool) : List ExitCall :=
  let (inner, calls) := g.inner.exit (if panicking then .failure else .aborted)
  calls ++ RuntimeScopeGuard.drop inner panicking

/-- The drop of the field does nothing any more. -/
theorem AsyncScopeGuard.drop_eq (g : AsyncScopeGuard) (panicking : Bool) :
    g.drop panicking = (g.inner.exit (if panicking then .failure else .aborted)).2 := by
  simp [drop, RuntimeScopeGuard.drop]

end Eventline
