/-
  Computations that count what they visit.

  * `counting visits f` is `f`, with what it visits added to a counter.
  * `map_fst_whileM`: a loop that counts does what the loop does.
  * `counting_pays`, `whileM_pays`: what a potential pays for in every step, it
    pays for in a loop.
-/
import Eventline.Lib.Checked

namespace Checked

universe u
variable {σ : Type u}

/-- The computation `f`, with what it visits added to a counter. -/
def counting (visits : σ → ℕ) (f : σ → Checked σ) (s : σ × ℕ) : Checked (σ × ℕ) := do
  let t ← f s.1
  pure (t, s.2 + visits s.1)

section
variable {visits : σ → ℕ} {f : σ → Checked σ} {cond : σ → Bool}

theorem counting_eq_ok {s t : σ × ℕ} :
    counting visits f s = .ok t ↔ f s.1 = .ok t.1 ∧ t.2 = s.2 + visits s.1 := by
  obtain ⟨t, n⟩ := t
  rw [counting, bind_eq_ok]
  constructor
  · rintro ⟨u, hu, ht⟩
    obtain ⟨rfl, rfl⟩ := Prod.mk.inj (Except.ok.inj ht)
    exact ⟨hu, rfl⟩
  · rintro ⟨ht, rfl⟩
    exact ⟨t, ht, rfl⟩

/-! ## Without the counter -/

theorem map_fst_counting (s : σ × ℕ) : Prod.fst <$> counting visits f s = f s.1 := by
  rw [counting]
  cases f s.1 <;> rfl

theorem map_fst_bind {x : Checked (σ × ℕ)} {g : σ × ℕ → Checked (σ × ℕ)} (g' : σ → Checked σ)
    (h : ∀ s, Prod.fst <$> g s = g' s.1) : Prod.fst <$> (x >>= g) = Prod.fst <$> x >>= g' := by
  cases x with
  | error e => rfl
  | ok s => exact h s

variable (cond visits f) in
/-- **A loop that counts** does what the loop does. -/
theorem map_fst_whileM (fuel : ℕ) (s : σ × ℕ) :
    Prod.fst <$> whileM (fun s => cond s.1) (counting visits f) fuel s = whileM cond f fuel s.1 := by
  induction fuel generalizing s with
  | zero =>
    rw [whileM, whileM]
    split_ifs <;> rfl
  | succ fuel ih =>
    rw [whileM, whileM]
    split_ifs
    · rw [map_fst_bind _ ih, map_fst_counting]
    · rfl

/-! ## Paying -/

variable (I : σ → Prop) (potential : σ → ℕ)
include I potential

theorem counting_pays {s t : σ × ℕ}
    (pay : ∀ u, f s.1 = .ok u → I u ∧ potential u + visits s.1 ≤ potential s.1)
    (h : counting visits f s = .ok t) : I t.1 ∧ potential t.1 + t.2 ≤ potential s.1 + s.2 := by
  obtain ⟨ht, hcount⟩ := counting_eq_ok.1 h
  obtain ⟨hI, hpay⟩ := pay t.1 ht
  exact ⟨hI, by omega⟩

/-- **A loop is paid for** by a potential that pays for every iteration. -/
theorem whileM_pays
    (pay : ∀ s t, I s → cond s = true → f s = .ok t → I t ∧ potential t + visits s ≤ potential s)
    {fuel : ℕ} {s t : σ × ℕ} (hs : I s.1)
    (h : whileM (fun s => cond s.1) (counting visits f) fuel s = .ok t) :
    I t.1 ∧ potential t.1 + t.2 ≤ potential s.1 + s.2 := by
  have hiter : ∀ u v : σ × ℕ, (I u.1 ∧ potential u.1 + u.2 ≤ potential s.1 + s.2) →
      cond u.1 = true → counting visits f u = .ok v →
      I v.1 ∧ potential v.1 + v.2 ≤ potential s.1 + s.2 := by
    intro u v hu hcond hv
    obtain ⟨hI, hle⟩ := counting_pays I potential (fun w hw => pay u.1 w hu.1 hcond hw) hv
    exact ⟨hI, hle.trans hu.2⟩
  exact whileM_invariant hiter h ⟨hs, le_rfl⟩

end

end Checked
