/-
  Checked computations: code whose arithmetic, indexing and unwrapping can
  fail, with its loops.

  * `Checked α` is a computation returning an `α` or the fault that stops it.
  * `whileM cond body fuel` runs `while cond { body }` for at most `fuel`
    iterations; running out of fuel is the fault `diverges`, so a loop proved
    to return is proved to terminate.
  * `whileM_total` is the total-correctness rule (invariant and variant),
    `Steps` the runs of a loop counted in iterations.
-/
import Mathlib

namespace Checked

/-- The faults of checked code. -/
inductive Fault where
  | unwrapNone
  | expectFailed (message : String)
  | outOfBounds
  | addOverflow
  | subOverflow
  | capacityOverflow
  | diverges
  deriving DecidableEq, Repr

end Checked

/-- A computation that returns an `α` or stops with a fault. -/
abbrev Checked (α : Type*) := Except Checked.Fault α

namespace Checked

/-- The largest machine index. -/
def usizeMax : ℕ := 2 ^ 64 - 1

/-- Addition of indices, `none` on overflow. -/
def checkedAdd (a b : ℕ) : Option ℕ := if a + b ≤ usizeMax then some (a + b) else none

def add (a b : ℕ) : Checked ℕ := if a + b ≤ usizeMax then .ok (a + b) else .error .addOverflow

def sub (a b : ℕ) : Checked ℕ := if b ≤ a then .ok (a - b) else .error .subOverflow

def unwrap {α : Type*} : Option α → Checked α
  | some a => .ok a
  | none => .error .unwrapNone

def expect {α : Type*} (message : String) : Option α → Checked α
  | some a => .ok a
  | none => .error (.expectFailed message)

/-- `xs[i]`, with its bounds check. -/
def index {α : Type*} (xs : List α) (i : ℕ) : Checked α :=
  match xs[i]? with
  | some a => .ok a
  | none => .error .outOfBounds

section
universe u
variable {ε : Type*} {α β : Type u}

@[simp] theorem ok_bind (a : α) (f : α → Except ε β) : (Except.ok a >>= f) = f a := rfl

@[simp] theorem error_bind (e : ε) (f : α → Except ε β) :
    ((Except.error e : Except ε α) >>= f) = .error e := rfl

theorem bind_eq_ok {x : Except ε α} {f : α → Except ε β} {b : β} :
    (x >>= f) = .ok b ↔ ∃ a, x = .ok a ∧ f a = .ok b := by
  cases x with
  | ok a => simp
  | error e => simp

theorem map_eq_ok {x : Except ε α} {f : α → β} {b : β} :
    f <$> x = .ok b ↔ ∃ a, x = .ok a ∧ f a = b := by
  cases x with
  | ok a => simp [Functor.map, Except.map]
  | error e => simp [Functor.map, Except.map]

theorem bind_eq_error {x : Except ε α} {f : α → Except ε β} {e : ε} :
    (x >>= f) = .error e ↔ x = .error e ∨ ∃ a, x = .ok a ∧ f a = .error e := by
  cases x with
  | ok a => simp
  | error e => simp

theorem toOption_eq_some {x : Except ε α} {a : α} : x.toOption = some a ↔ x = .ok a := by
  cases x with
  | ok b => simp [Except.toOption]
  | error e => simp [Except.toOption]

@[simp] theorem pure_eq_ok (a : α) : (pure a : Except ε α) = .ok a := rfl

@[simp] theorem unwrap_some (a : α) : unwrap (some a) = .ok a := rfl

theorem add_ok {a b : ℕ} (h : a + b ≤ usizeMax) : add a b = .ok (a + b) := if_pos h

theorem sub_ok {a b : ℕ} (h : b ≤ a) : sub a b = .ok (a - b) := if_pos h

theorem index_ok {xs : List α} {i : ℕ} {a : α} (h : xs[i]? = some a) : index xs i = .ok a := by
  simp [index, h]

theorem checkedAdd_eq_some {a b : ℕ} (h : a + b ≤ usizeMax) : checkedAdd a b = some (a + b) :=
  if_pos h

end

/-! ## Loops -/

section
universe u
variable {σ : Type u} (cond : σ → Bool) (body : σ → Checked σ)

/-- `while cond { body }`, run for at most `fuel` iterations. -/
def whileM : ℕ → σ → Checked σ
  | 0, s => if cond s then .error .diverges else .ok s
  | fuel + 1, s => if cond s then body s >>= whileM fuel else .ok s

/-- `n` iterations of the loop lead from the first state to the second. -/
inductive Steps : ℕ → σ → σ → Prop
  | refl (s : σ) : Steps 0 s s
  | head {n : ℕ} {s t u : σ} : cond s = true → body s = .ok t → Steps n t u → Steps (n + 1) s u

/-- **Total correctness of a loop**: an invariant kept by every iteration and
    a variant that bounds the number of iterations. -/
theorem whileM_total (Inv : σ → Prop) (variant : σ → ℕ)
    (iter : ∀ s, Inv s → cond s = true → ∃ t, body s = .ok t ∧ Inv t ∧ variant t < variant s) :
    ∀ fuel s, Inv s → variant s ≤ fuel →
      ∃ t, whileM cond body fuel s = .ok t ∧ Inv t ∧ cond t = false
  | 0, s, hs, hv => by
    cases hc : cond s with
    | false => exact ⟨s, by simp [whileM, hc], hs, hc⟩
    | true =>
      obtain ⟨t, -, -, hlt⟩ := iter s hs hc
      omega
  | fuel + 1, s, hs, hv => by
    cases hc : cond s with
    | false => exact ⟨s, by simp [whileM, hc], hs, hc⟩
    | true =>
      obtain ⟨t, hb, ht, hlt⟩ := iter s hs hc
      obtain ⟨u, hu, hi, hcu⟩ := whileM_total Inv variant iter fuel t ht (by omega)
      exact ⟨u, by simp [whileM, hc, hb, hu], hi, hcu⟩

variable {cond body}

/-- What every iteration keeps, a loop that ends keeps. -/
theorem whileM_invariant {Inv : σ → Prop}
    (iter : ∀ s t, Inv s → cond s = true → body s = .ok t → Inv t) {fuel : ℕ} {s t : σ}
    (h : whileM cond body fuel s = .ok t) (hs : Inv s) : Inv t := by
  induction fuel generalizing s with
  | zero =>
    unfold whileM at h
    split_ifs at h
    exact Except.ok.inj h ▸ hs
  | succ fuel ih =>
    unfold whileM at h
    split_ifs at h with hc
    · obtain ⟨u, hu, h⟩ := bind_eq_ok.1 h
      exact ih h (iter s u hs hc hu)
    · exact Except.ok.inj h ▸ hs

/-- What every step of a fold keeps, a fold that returns keeps. -/
theorem foldlM_invariant (Inv : σ → Prop) {τ : Type*} {f : σ → τ → Checked σ} {xs : List τ}
    (step : ∀ x ∈ xs, ∀ s t, Inv s → f s x = .ok t → Inv t) {s t : σ}
    (h : xs.foldlM f s = .ok t) (hs : Inv s) : Inv t := by
  induction xs generalizing s with
  | nil => exact Except.ok.inj h ▸ hs
  | cons x xs ih =>
    rw [List.foldlM_cons] at h
    obtain ⟨u, hu, h⟩ := bind_eq_ok.1 h
    obtain ⟨hx, hxs⟩ := List.forall_mem_cons.1 step
    exact ih hxs h (hx s u hs hu)

/-- A loop that ends has its condition false. -/
theorem whileM_exit {fuel : ℕ} {s t : σ} (h : whileM cond body fuel s = .ok t) :
    cond t = false := by
  induction fuel generalizing s with
  | zero =>
    unfold whileM at h
    split_ifs at h with hc
    obtain rfl := Except.ok.inj h
    simpa using hc
  | succ fuel ih =>
    unfold whileM at h
    split_ifs at h with hc
    · obtain ⟨u, -, h⟩ := bind_eq_ok.1 h
      exact ih h
    · obtain rfl := Except.ok.inj h
      simpa using hc

theorem Steps.trans {m n : ℕ} {s t u : σ} (h : Steps cond body m s t)
    (h' : Steps cond body n t u) : Steps cond body (m + n) s u := by
  induction h with
  | refl => simpa using h'
  | head hc hb _ ih => rw [Nat.add_right_comm]; exact .head hc hb (ih h')

theorem Steps.one {s t : σ} (hc : cond s = true) (hb : body s = .ok t) : Steps cond body 1 s t :=
  .head hc hb (.refl t)

/-- Fuel for the iterations made is enough. -/
theorem Steps.whileM_eq {n : ℕ} {s t : σ} (h : Steps cond body n s t) (fuel : ℕ) :
    whileM cond body (n + fuel) s = whileM cond body fuel t := by
  induction h with
  | refl => simp
  | head hc hb _ ih => rw [Nat.add_right_comm]; simp [whileM, hc, hb, ih]

theorem Steps.whileM_done {n fuel : ℕ} {s t : σ} (h : Steps cond body n s t)
    (hc : cond t = false) (hf : n ≤ fuel) : whileM cond body fuel s = .ok t := by
  obtain ⟨k, rfl⟩ := Nat.exists_eq_add_of_le hf
  rw [h.whileM_eq k]
  cases k <;> simp [whileM, hc]

end

end Checked
