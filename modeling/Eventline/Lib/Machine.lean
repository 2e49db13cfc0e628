/-
  Machines given by a partial step function on labelled actions, and what
  holds in every state that their runs reach.
-/
import Mathlib

namespace Machine

universe u v
variable {S : Type u} {L : Type v} (step : S → L → Option S)

/-- The state after a run, `none` if some action is not possible. -/
def run : S → List L → Option S
  | s, [] => some s
  | s, l :: ls => (step s l).bind fun t => run t ls

/-- Every step of the run from `s` meets the condition `cond`. -/
def Meets (cond : S → L → Prop) : S → List L → Prop
  | _, [] => True
  | s, l :: ls => cond s l ∧ ∀ t, step s l = some t → Meets cond t ls

instance decidableMeets (cond : S → L → Prop) [hcond : ∀ s l, Decidable (cond s l)] :
    ∀ (s : S) (ls : List L), Decidable (Meets step cond s ls)
  | _, [] => .isTrue trivial
  | s, l :: ls =>
    have rest : Decidable (∀ t, step s l = some t → Meets step cond t ls) :=
      match step s l with
      | none => .isTrue nofun
      | some u =>
        have := decidableMeets cond u ls
        decidable_of_iff (Meets step cond u ls) (by simp)
    instDecidableAnd

variable {step}

@[simp] theorem run_nil (s : S) : run step s [] = some s := rfl

theorem run_cons_eq_some {s t : S} {l : L} {ls : List L} :
    run step s (l :: ls) = some t ↔ ∃ u, step s l = some u ∧ run step u ls = some t := by
  simp [run, Option.bind_eq_some_iff]

theorem run_append_eq_some {s t : S} {xs ys : List L} :
    run step s (xs ++ ys) = some t ↔ ∃ u, run step s xs = some u ∧ run step u ys = some t := by
  induction xs generalizing s with
  | nil => simp
  | cons l xs ih =>
    simp only [List.cons_append, run_cons_eq_some, ih]
    constructor
    · rintro ⟨u, hu, w, hw, ht⟩; exact ⟨w, ⟨u, hu, hw⟩, ht⟩
    · rintro ⟨w, ⟨u, hu, hw⟩, ht⟩; exact ⟨u, hu, w, hw, ht⟩

/-- **Invariants of runs**: what every step keeps, every run keeps. -/
theorem run_invariant {I : S → Prop} (keep : ∀ s l t, I s → step s l = some t → I t)
    {s t : S} {ls : List L} (h : run step s ls = some t) (hs : I s) : I t := by
  induction ls generalizing s with
  | nil => simp only [run_nil, Option.some.injEq] at h; exact h ▸ hs
  | cons l ls ih =>
    obtain ⟨u, hu, ht⟩ := run_cons_eq_some.1 h
    exact ih ht (keep s l u hs hu)

/-- Invariants of the runs whose steps all meet a condition. -/
theorem run_invariant_of_meets {I : S → Prop} {cond : S → L → Prop}
    (keep : ∀ s l t, I s → cond s l → step s l = some t → I t)
    {s t : S} {ls : List L} (h : run step s ls = some t) (hm : Meets step cond s ls) (hs : I s) :
    I t := by
  induction ls generalizing s with
  | nil => simp only [run_nil, Option.some.injEq] at h; exact h ▸ hs
  | cons l ls ih =>
    obtain ⟨u, hu, ht⟩ := run_cons_eq_some.1 h
    exact ih ht (hm.2 u hu) (keep s l u hs hm.1 hu)

/-- A condition on the actions alone. -/
theorem meets_of_forall {cond : S → L → Prop} {s : S} {ls : List L}
    (h : ∀ l ∈ ls, ∀ s, cond s l) : Meets step cond s ls := by
  induction ls generalizing s with
  | nil => trivial
  | cons l ls ih =>
    exact ⟨h l List.mem_cons_self s, fun t _ => ih fun l' hl' => h l' (List.mem_cons_of_mem _ hl')⟩

theorem meets_append {cond : S → L → Prop} {s : S} {xs ys : List L} :
    Meets step cond s (xs ++ ys) ↔
      Meets step cond s xs ∧ ∀ t, run step s xs = some t → Meets step cond t ys := by
  induction xs generalizing s with
  | nil => simp [Meets]
  | cons l xs ih =>
    simp only [List.cons_append, Meets, ih, run_cons_eq_some]
    constructor
    · rintro ⟨hc, h⟩
      exact ⟨⟨hc, fun u hu => (h u hu).1⟩, fun t ⟨u, hu, ht⟩ => (h u hu).2 t ht⟩
    · rintro ⟨⟨hc, h⟩, h'⟩
      exact ⟨hc, fun u hu => ⟨h u hu, fun t ht => h' t ⟨u, hu, ht⟩⟩⟩

end Machine
