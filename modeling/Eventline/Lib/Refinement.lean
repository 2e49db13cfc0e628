/-
  Refinement of a checked component by a specification.

  A component is a step `S → Op → Checked (S × R)`; a specification is a
  relation `A → Op → R → A → Prop` between an abstract state, an operation,
  its reply and the next abstract state.

  * `permitted pre step s ops`: every operation of the run from `s` finds its
    precondition met.
  * `runM` is the run of the component with its replies, `Explained` says that
    the specification allows the replies.
  * `run_explained`: a step lemma makes every permitted run fault-free and
    explained.
-/
import Eventline.Lib.Checked

namespace Refinement

universe u v
variable {S R : Type u} {A : Type*} {Op : Type v} (pre : S → Op → Bool)
  (step : S → Op → Checked (S × R)) (spec : A → Op → R → A → Prop)

def permitted : S → List Op → Bool
  | _, [] => true
  | s, op :: ops => pre s op && match step s op with
    | .ok (t, _) => permitted t ops
    | .error _ => true

def runM : S → List Op → Checked (S × List R)
  | s, [] => pure (s, [])
  | s, op :: ops => do
    let (t, r) ← step s op
    let (u, rs) ← runM t ops
    pure (u, r :: rs)

/-- The specification allows the replies of a run, and leads to the last state. -/
def Explained : A → List Op → List R → A → Prop
  | a, [], [], b => a = b
  | a, op :: ops, r :: rs, b => ∃ c, spec a op r c ∧ Explained c ops rs b
  | _, _, _, _ => False

variable {pre step}

/-- **Refinement of runs**: the abstraction relation is kept by every
    operation that finds its precondition met. -/
theorem run_explained (Rel : S → A → Prop)
    (step_ok : ∀ s a op, Rel s a → pre s op = true →
      ∃ t r b, step s op = .ok (t, r) ∧ spec a op r b ∧ Rel t b)
    {s : S} {a : A} {ops : List Op} (h : Rel s a) (hp : permitted pre step s ops = true) :
    ∃ t rs b, runM step s ops = .ok (t, rs) ∧ Explained spec a ops rs b ∧ Rel t b := by
  induction ops generalizing s a with
  | nil => exact ⟨s, [], a, rfl, rfl, h⟩
  | cons op ops ih =>
    simp only [permitted, Bool.and_eq_true] at hp
    obtain ⟨t, r, b, hs, hb, ht⟩ := step_ok s a op h hp.1
    rw [hs] at hp
    obtain ⟨u, rs, c, hu, hc, hr⟩ := ih ht hp.2
    refine ⟨u, r :: rs, c, ?_, ⟨b, hb, hc⟩, hr⟩
    simp [runM, hs, hu]

end Refinement
