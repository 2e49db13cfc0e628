/-
  Machines whose steps are paid for.

  A step takes one unit from a potential, which its action may raise.

  * `run_length_le`: a run is no longer than what its actions have paid.
  * `exists_stuck`: actions that pay nothing come to an end.
  * `run_work`: an invariant that counts what the steps of a run take.
-/
import Eventline.Lib.Machine

namespace Machine

universe u v
variable {S : Type u} {L : Type v} {step : S → L → Option S} {I : S → Prop} {potential : S → ℕ}
  {cost : L → ℕ}

section
variable (keep : ∀ s l t, I s → step s l = some t → I t)
  (pay : ∀ s l t, I s → step s l = some t → potential t + 1 ≤ potential s + cost l)
include keep pay

/-- **The length of a run** is paid by its actions and by the potential before. -/
theorem run_length_le {s t : S} {ls : List L} (h : run step s ls = some t) (hs : I s) :
    potential t + ls.length ≤ potential s + (ls.map cost).sum := by
  induction ls generalizing s with
  | nil =>
    obtain rfl := Option.some.inj h
    exact le_rfl
  | cons l ls ih =>
    obtain ⟨u, hu, ht⟩ := run_cons_eq_some.1 h
    have hstep := pay s l u hs hu
    have hrest := ih ht (keep s l u hs hu)
    rw [List.length_cons, List.map_cons, List.sum_cons]
    omega

/-- **Actions that pay nothing** lead to a state in which none of them is possible. -/
theorem exists_stuck {s : S} (hs : I s) : ∃ ls t, (∀ l ∈ ls, cost l = 0) ∧
    run step s ls = some t ∧ ∀ l, cost l = 0 → step t l = none := by
  induction hn : potential s using Nat.strong_induction_on generalizing s with
  | _ n ih =>
    by_cases hstuck : ∀ l, cost l = 0 → step s l = none
    · exact ⟨[], s, List.forall_mem_nil _, rfl, hstuck⟩
    · push Not at hstuck
      obtain ⟨l, hl, hsome⟩ := hstuck
      obtain ⟨u, hu⟩ := Option.ne_none_iff_exists'.1 hsome
      have hstep := pay s l u hs hu
      obtain ⟨ls, t, hfree, hrun, ht⟩ := ih (potential u) (by omega) (keep s l u hs hu) rfl
      refine ⟨l :: ls, t, ?_, run_cons_eq_some.2 ⟨u, hu, hrun⟩, ht⟩
      rw [List.forall_mem_cons]
      exact ⟨hl, hfree⟩

end

/-! ## Steps that take more than one unit -/

/-- What the steps of a run take. -/
def work (step : S → L → Option S) (takes : S → L → ℕ) : S → List L → ℕ
  | _, [] => 0
  | s, l :: ls => takes s l + (step s l).elim 0 fun t => work step takes t ls

/-- **The work of a run**, by an invariant of the states with the work so far. -/
theorem run_work {takes : S → L → ℕ} {I : S → ℕ → Prop}
    (keep : ∀ s n l t, I s n → step s l = some t → I t (n + takes s l)) {s t : S} {n : ℕ}
    {ls : List L} (h : run step s ls = some t) (hs : I s n) : I t (n + work step takes s ls) := by
  induction ls generalizing s n with
  | nil =>
    obtain rfl := Option.some.inj h
    exact hs
  | cons l ls ih =>
    obtain ⟨u, hu, ht⟩ := run_cons_eq_some.1 h
    have hrest := ih ht (keep s n l u hs hu)
    rw [work, hu, Option.elim_some, ← Nat.add_assoc]
    exact hrest

/-- A sum after the update of one of its terms. -/
theorem sum_update_add {ι : Type u} {α : Type v} [DecidableEq ι] {s : Finset ι} {i : ι} (hi : i ∈ s)
    (g : ι → α) (x : α) (f : α → ℕ) :
    ∑ j ∈ s, f (Function.update g i x j) + f (g i) = ∑ j ∈ s, f (g j) + f x := by
  have hrest : ∑ j ∈ s.erase i, f (Function.update g i x j) = ∑ j ∈ s.erase i, f (g j) := by
    refine Finset.sum_congr rfl ?_
    intro j hj
    rw [Function.update_of_ne (Finset.ne_of_mem_erase hj)]
  rw [← Finset.add_sum_erase s _ hi, ← Finset.add_sum_erase s (fun j => f (g j)) hi, hrest,
    Function.update_self]
  omega

end Machine
