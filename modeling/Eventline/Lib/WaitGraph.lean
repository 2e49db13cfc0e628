/-
  Wait-for graphs.

  The agents that wait have levels; where an agent waits for one that waits
  itself, the level rises.

  * `acyclic`: no agent waits for itself through others.
  * `exists_ready`: whoever is not ready waits, through others, for one that is.
-/
import Mathlib

namespace WaitGraph

universe u
variable {α : Type u} {waitsFor : α → α → Prop} {level : α → ℕ}

/-- Along the edges, the level of the agents that wait themselves rises. -/
def Rises (waitsFor : α → α → Prop) (level : α → ℕ) : Prop :=
  ∀ a b c, waitsFor a b → waitsFor b c → level a < level b

theorem Rises.level_lt (h : Rises waitsFor level) {a b c : α} (hab : Relation.TransGen waitsFor a b)
    (hbc : waitsFor b c) : level a < level b := by
  induction hab generalizing c with
  | single hab => exact h _ _ _ hab hbc
  | tail hab hstep ih => exact (ih hstep).trans (h _ _ _ hstep hbc)

/-- **No cycles.** -/
theorem Rises.acyclic (h : Rises waitsFor level) (a : α) : ¬ Relation.TransGen waitsFor a a := by
  intro hcycle
  obtain ⟨b, hab, -⟩ := Relation.TransGen.head'_iff.1 hcycle
  exact lt_irrefl _ (h.level_lt hcycle hab)

/-- **Some agent is ready**, if all that are not wait for a busy one. -/
theorem Rises.exists_ready (h : Rises waitsFor level) {busy ready : α → Prop} {top : ℕ}
    (hlevel : ∀ a, level a ≤ top)
    (hwait : ∀ a, busy a → ready a ∨ ∃ b, busy b ∧ waitsFor a b) {a : α} (ha : busy a) :
    ∃ b, ready b := by
  induction hn : top - level a using Nat.strong_induction_on generalizing a with
  | _ n ih =>
    rcases hwait a ha with hready | ⟨b, hb, hab⟩
    · exact ⟨a, hready⟩
    · rcases hwait b hb with hready | ⟨c, hc, hbc⟩
      · exact ⟨b, hready⟩
      · have hlt := h a b c hab hbc
        have htop := hlevel b
        exact ih (top - level b) (by omega) hb rfl

end WaitGraph
