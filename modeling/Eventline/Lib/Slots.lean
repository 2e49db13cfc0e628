/-
  Updates of a list through its first matching entry, and lists with vacant
  slots.

  * `updateFirst p f` applies `f` to the first entry with property `p`;
    `dropFirst p n` removes the first `n` entries with property `p`.
  * `reduceOption` (Mathlib) reads a list with vacant slots as the list of its
    occupied ones; the lemmas say how a slot that is found, vacated or
    replaced shows in that list.
-/
import Mathlib

namespace Slots

variable {α β : Type*} (p : α → Bool)

def updateFirst (f : α → α) : List α → List α
  | [] => []
  | a :: l => if p a then f a :: l else a :: updateFirst f l

def dropFirst : ℕ → List α → List α
  | 0, l => l
  | _ + 1, [] => []
  | n + 1, a :: l => if p a then dropFirst n l else a :: dropFirst (n + 1) l

variable {p}

/-- The first match splits the list. -/
theorem find?_split {l : List α} {a : α} (h : l.find? p = some a) :
    ∃ pre post, l = pre ++ a :: post ∧ p a = true ∧ ∀ x ∈ pre, p x = false := by
  obtain ⟨ha, pre, post, rfl, hpre⟩ := List.find?_eq_some_iff_append.1 h
  exact ⟨pre, post, rfl, ha, fun x hx => by simpa using hpre x hx⟩

theorem updateFirst_split {f : α → α} {pre post : List α} {a : α} (ha : p a = true)
    (hpre : ∀ x ∈ pre, p x = false) :
    updateFirst p f (pre ++ a :: post) = pre ++ f a :: post := by
  induction pre with
  | nil => simp [updateFirst, ha]
  | cons x pre ih =>
    obtain ⟨hx, hpre⟩ := List.forall_mem_cons.1 hpre
    simp [updateFirst, hx, ih hpre]

theorem updateFirst_of_none {f : α → α} {l : List α} (h : ∀ x ∈ l, p x = false) :
    updateFirst p f l = l := by
  induction l with
  | nil => rfl
  | cons x l ih =>
    obtain ⟨hx, hl⟩ := List.forall_mem_cons.1 h
    simp [updateFirst, hx, ih hl]

theorem mem_updateFirst {f : α → α} {l : List α} {b : α} (h : b ∈ updateFirst p f l) :
    b ∈ l ∨ ∃ a ∈ l, p a = true ∧ b = f a := by
  induction l with
  | nil => simp [updateFirst] at h
  | cons a l ih =>
    cases ha : p a with
    | true =>
      simp only [updateFirst, ha, if_true, List.mem_cons] at h
      rcases h with rfl | h
      · exact Or.inr ⟨a, by simp, ha, rfl⟩
      · exact Or.inl (List.mem_cons_of_mem _ h)
    | false =>
      simp only [updateFirst, ha, Bool.false_eq_true, if_false, List.mem_cons] at h
      rcases h with rfl | h
      · exact Or.inl (by simp)
      · rcases ih h with h | ⟨x, hx, hp, rfl⟩
        · exact Or.inl (List.mem_cons_of_mem _ h)
        · exact Or.inr ⟨x, List.mem_cons_of_mem _ hx, hp, rfl⟩

/-- An entry is there afterwards, as it was or updated. -/
theorem updateFirst_mem {f : α → α} {l : List α} {a : α} (h : a ∈ l) :
    a ∈ updateFirst p f l ∨ f a ∈ updateFirst p f l := by
  induction l with
  | nil => cases h
  | cons b l ih =>
    rw [updateFirst]
    split_ifs with hb
    · rcases List.mem_cons.1 h with rfl | h
      · exact .inr List.mem_cons_self
      · exact .inl (List.mem_cons_of_mem _ h)
    · rcases List.mem_cons.1 h with rfl | h
      · exact .inl List.mem_cons_self
      · exact (ih h).imp (List.mem_cons_of_mem _) (List.mem_cons_of_mem _)

theorem map_updateFirst {f : α → α} {g : β → β} {q : β → Bool} {e : α → β}
    (hq : ∀ a, q (e a) = p a) (hf : ∀ a, p a = true → e (f a) = g (e a)) (l : List α) :
    (updateFirst p f l).map e = updateFirst q g (l.map e) := by
  induction l with
  | nil => rfl
  | cons a l ih => cases ha : p a <;> simp [updateFirst, hq, ha, ih, hf]

/-- What an update leaves as it is. -/
theorem map_updateFirst_of_eq {f : α → α} {e : α → β} (h : ∀ a, e (f a) = e a) (l : List α) :
    (updateFirst p f l).map e = l.map e := by
  induction l with
  | nil => rfl
  | cons a l ih => cases ha : p a <;> simp [updateFirst, ha, ih, h]

/-- An update leaves the first match of a property alone that its entries do not
    have, before and after. -/
theorem find?_updateFirst_of_not {q : α → Bool} {f : α → α}
    (h : ∀ a, p a = true → q a = false ∧ q (f a) = false) (l : List α) :
    (updateFirst p f l).find? q = l.find? q := by
  induction l with
  | nil => rfl
  | cons a l ih =>
    rw [updateFirst]
    split_ifs with ha
    · obtain ⟨hq, hqf⟩ := h a ha
      rw [List.find?_cons_of_neg (by simp [hqf]), List.find?_cons_of_neg (by simp [hq])]
    · rw [List.find?_cons, List.find?_cons, ih]

/-- The first match after it was updated. -/
theorem find?_updateFirst {f : α → α} (h : ∀ a, p a = true → p (f a) = true) (l : List α) :
    (updateFirst p f l).find? p = (l.find? p).map f := by
  induction l with
  | nil => rfl
  | cons a l ih =>
    rw [updateFirst]
    split_ifs with ha
    · rw [List.find?_cons_of_pos ha, List.find?_cons_of_pos (h a ha), Option.map_some]
    · rw [List.find?_cons_of_neg ha, List.find?_cons_of_neg ha, ih]

@[simp] theorem dropFirst_zero (l : List α) : dropFirst p 0 l = l := by cases l <;> rfl

theorem dropFirst_nil (n : ℕ) : dropFirst p n [] = [] := by cases n <;> rfl

/-- Removing the first match, then `n` more. -/
theorem dropFirst_split (n : ℕ) {pre post : List α} {a : α} (ha : p a = true)
    (hpre : ∀ x ∈ pre, p x = false) :
    dropFirst p (n + 1) (pre ++ a :: post) = dropFirst p n (pre ++ post) := by
  induction pre with
  | nil => simp [dropFirst, ha]
  | cons x pre ih =>
    obtain ⟨hx, hpre⟩ := List.forall_mem_cons.1 hpre
    cases n with
    | zero => simpa [dropFirst, hx] using ih hpre
    | succ n => simp [dropFirst, hx, ih hpre]

theorem dropFirst_cons_of_not {n : ℕ} {a : α} {l : List α} (ha : p a = false) :
    dropFirst p n (a :: l) = a :: dropFirst p n l := by
  cases n with
  | zero => rw [dropFirst_zero, dropFirst_zero]
  | succ n => simp [dropFirst, ha]

theorem dropFirst_sublist (n : ℕ) (l : List α) : (dropFirst p n l).Sublist l := by
  induction l generalizing n with
  | nil => simp [dropFirst_nil]
  | cons a l ih =>
    cases n with
    | zero => simp
    | succ n =>
      cases ha : p a with
      | true => simpa [dropFirst, ha] using (ih n).cons a
      | false => simpa [dropFirst, ha] using ih (n + 1)

/-- Entries without the property stay. -/
theorem mem_dropFirst_of_not {n : ℕ} {l : List α} {a : α} (h : a ∈ l) (ha : p a = false) :
    a ∈ dropFirst p n l := by
  induction l generalizing n with
  | nil => simp at h
  | cons b l ih =>
    cases n with
    | zero => simpa using h
    | succ n =>
      rcases List.mem_cons.1 h with rfl | h
      · simp [dropFirst, ha]
      · cases hb : p b with
        | true => simpa [dropFirst, hb] using ih h
        | false => simpa [dropFirst, hb] using Or.inr (ih h)

/-- A first match that is not dropped stays the first. -/
theorem find?_dropFirst {q : α → Bool} {n : ℕ} {l : List α} {a : α} (h : l.find? q = some a)
    (ha : p a = false) : (dropFirst p n l).find? q = some a := by
  induction l generalizing n with
  | nil => simp at h
  | cons b l ih =>
    cases n with
    | zero => rwa [dropFirst_zero]
    | succ n =>
      cases hq : q b with
      | true =>
        obtain rfl : b = a := by simpa [hq] using h
        simp [dropFirst, ha, hq]
      | false =>
        have hl : l.find? q = some a := by simpa [hq] using h
        cases hb : p b with
        | true => simpa [dropFirst, hb] using ih hl
        | false => simpa [dropFirst, hb, hq] using ih hl

theorem countP_dropFirst (n : ℕ) (l : List α) : (dropFirst p n l).countP p = l.countP p - n := by
  induction l generalizing n with
  | nil => simp [dropFirst_nil]
  | cons a l ih =>
    cases n with
    | zero => simp
    | succ n =>
      cases ha : p a with
      | true => simp [dropFirst, ha, ih]
      | false => simp [dropFirst, ha, ih]

/-- An entry stays if enough entries with the property come before it. -/
theorem mem_dropFirst_of_le {n : ℕ} {pre post : List α} {a : α} (h : n ≤ pre.countP p) :
    a ∈ dropFirst p n (pre ++ a :: post) := by
  induction pre generalizing n with
  | nil =>
    obtain rfl : n = 0 := by simpa using h
    simp
  | cons x pre ih =>
    cases n with
    | zero => simp
    | succ n =>
      cases hx : p x with
      | true =>
        rw [List.countP_cons_of_pos hx] at h
        simpa [dropFirst, hx] using ih (by omega)
      | false =>
        rw [List.countP_cons_of_neg (by simp [hx])] at h
        simpa [dropFirst, hx] using Or.inr (ih h)

theorem map_dropFirst {q : β → Bool} {e : α → β} (hq : ∀ a, q (e a) = p a) (n : ℕ) (l : List α) :
    (dropFirst p n l).map e = dropFirst q n (l.map e) := by
  induction l generalizing n with
  | nil => simp [dropFirst_nil]
  | cons a l ih =>
    cases n with
    | zero => simp
    | succ n => cases ha : p a <;> simp [dropFirst, hq, ha, ih]

/-- A related entry on the left. -/
theorem forall₂_mem_right {α β : Type*} {R : α → β → Prop} {xs : List α} {ys : List β}
    (h : List.Forall₂ R xs ys) {y : β} (hy : y ∈ ys) : ∃ x ∈ xs, R x y := by
  induction h with
  | nil => cases hy
  | cons hr _ ih =>
    rcases List.mem_cons.1 hy with rfl | hy
    · exact ⟨_, List.mem_cons_self, hr⟩
    · obtain ⟨x, hx, hxy⟩ := ih hy
      exact ⟨x, List.mem_cons_of_mem _ hx, hxy⟩

/-! ## Vacant slots -/

section
variable {pre post : List (Option α)} {a b : α}

theorem reduceOption_vacate : (pre ++ none :: post).reduceOption =
    pre.reduceOption ++ post.reduceOption := by
  rw [List.reduceOption_append, List.reduceOption_cons_of_none]

theorem reduceOption_slot : (pre ++ some a :: post).reduceOption =
    pre.reduceOption ++ a :: post.reduceOption := by
  rw [List.reduceOption_append, List.reduceOption_cons_of_some]

theorem mem_reduceOption {l : List (Option α)} : a ∈ l.reduceOption ↔ some a ∈ l := by
  simp [List.reduceOption]

end

/-- Without vacant slots the list is that of its occupied ones. -/
theorem eq_map_some {l : List (Option α)} (h : l.reduceOption.length = l.length) :
    l = l.reduceOption.map some := by
  induction l with
  | nil => rfl
  | cons o l ih =>
    cases o with
    | none =>
      have := List.reduceOption_length_le l
      rw [List.reduceOption_cons_of_none, List.length_cons] at h
      omega
    | some a =>
      rw [List.reduceOption_cons_of_some, List.length_cons, List.length_cons] at h
      rw [List.reduceOption_cons_of_some, List.map_cons, ← ih (by omega)]

theorem filter_isSome_eq (l : List (Option α)) :
    l.filter Option.isSome = l.reduceOption.map some := by
  induction l with
  | nil => rfl
  | cons o l ih => cases o <;> simp [List.reduceOption_cons_of_none, List.reduceOption_cons_of_some, ih]

@[simp] theorem reduceOption_map_some (l : List α) : (l.map some).reduceOption = l := by
  induction l with
  | nil => rfl
  | cons a l ih => simp [List.reduceOption_cons_of_some, ih]

end Slots
