/-
  Positions in a deque, as logical offsets.

  An entry at index `i` of a deque with logical base `base` has the key
  `base + i`, so popping from the front changes no other key.  An entry may
  carry an id (`key e = some k`) or be vacant (`key e = none`).

  * `positionOf key base es k` is the first key holding `k`, and the number of
    its occurrences: the index a deque has to maintain.
  * `keysWhere p base es` are the keys of the entries with property `p`, in
    increasing order: the ordered set a deque has to maintain.
  * The lemmas say how both change when an entry is appended, vacated,
    replaced or popped, and when the base moves.
-/
import Mathlib

namespace Positions

/-- The first key holding an id, and the number of entries holding it. -/
structure Position where
  first : ℕ
  count : ℕ
  deriving DecidableEq, Repr

section
variable {K α : Type*} [DecidableEq K] (key : α → Option K)

/-- The entry `e` holds the id `k`. -/
def holds (k : K) (e : α) : Bool := key e = some k

/-- The position of `k` in the entries `es` of a deque with base `base`. -/
def positionOf (base : ℕ) (es : List α) (k : K) : Option Position :=
  (es.findIdx? (holds key k)).map fun i => ⟨base + i, es.countP (holds key k)⟩

/-- One more occurrence of `k`, at `pos`: `entry(k).and_modify(..).or_insert(..)`. -/
def bump (idx : K → Option Position) (k : K) (pos : ℕ) : K → Option Position :=
  Function.update idx k <| some <|
    match idx k with
    | some p => { p with count := p.count + 1 }
    | none => ⟨pos, 1⟩

variable {key}

@[simp] theorem holds_eq_true {k : K} {e : α} : holds key k e = true ↔ key e = some k := by
  simp [holds]

@[simp] theorem holds_eq_false {k : K} {e : α} : holds key k e = false ↔ key e ≠ some k := by
  simp [holds]

theorem positionOf_eq_none {base : ℕ} {es : List α} {k : K} :
    positionOf key base es k = none ↔ ∀ e ∈ es, key e ≠ some k := by
  simp [positionOf, List.findIdx?_eq_none_iff]

/-- A position leads to the first entry holding the id. -/
theorem positionOf_eq_some {base : ℕ} {es : List α} {k : K} {p : Position}
    (h : positionOf key base es k = some p) :
    ∃ pre e post, es = pre ++ e :: post ∧ p.first = base + pre.length ∧ key e = some k ∧
      (∀ x ∈ pre, key x ≠ some k) ∧ p.count = es.countP (holds key k) := by
  simp only [positionOf, Option.map_eq_some_iff] at h
  obtain ⟨i, hi, rfl⟩ := h
  obtain ⟨hlt, hp, hmin⟩ := List.findIdx?_eq_some_iff_getElem.1 hi
  refine ⟨es.take i, es[i], es.drop (i + 1), ?_, by simp [hlt.le], by simpa using hp, ?_, rfl⟩
  · rw [← List.drop_eq_getElem_cons hlt, List.take_append_drop]
  · intro x hx
    obtain ⟨j, hj, rfl⟩ := List.mem_take_iff_getElem.1 hx
    simpa using hmin j (by omega)

/-- The position of an id whose first entry is known. -/
theorem positionOf_split {base : ℕ} {pre post : List α} {e : α} {k : K} (he : key e = some k)
    (hpre : ∀ x ∈ pre, key x ≠ some k) :
    positionOf key base (pre ++ e :: post) k =
      some ⟨base + pre.length, post.countP (holds key k) + 1⟩ := by
  have hnone : pre.findIdx? (holds key k) = none := by
    simpa [List.findIdx?_eq_none_iff] using hpre
  have hzero : pre.countP (holds key k) = 0 := by simpa [List.countP_eq_zero] using hpre
  simp [positionOf, List.findIdx?_append, hnone, List.findIdx?_cons, he, hzero]

/-- A look-up through a position finds the first entry holding the id. -/
theorem getElem?_of_position {base : ℕ} {es : List α} {k : K} {p : Position}
    (h : positionOf key base es k = some p) :
    base ≤ p.first ∧ es[p.first - base]? = es.find? (holds key k) := by
  obtain ⟨pre, e, post, rfl, hf, he, hpre, -⟩ := positionOf_eq_some h
  have hnone : pre.find? (holds key k) = none := by simpa using hpre
  refine ⟨by omega, ?_⟩
  rw [hf, Nat.add_sub_cancel_left, List.getElem?_append_right le_rfl, List.find?_append, hnone]
  simp [he]

theorem find?_of_position_none {base : ℕ} {es : List α} {k : K}
    (h : positionOf key base es k = none) : es.find? (holds key k) = none := by
  simpa using positionOf_eq_none.1 h

/-- Appending an entry bumps the position of its id. -/
theorem positionOf_concat (base : ℕ) (es : List α) (e : α) :
    positionOf key base (es ++ [e]) =
      match key e with
      | some k => bump (positionOf key base es) k (base + es.length)
      | none => positionOf key base es := by
  funext k'
  cases hk : key e with
  | none => simp [positionOf, List.findIdx?_append, List.findIdx?_cons, List.countP_append, hk]
  | some k =>
    by_cases hkk : k' = k
    · subst hkk
      cases hi : es.findIdx? (holds key k') with
      | none =>
        have hzero : es.countP (holds key k') = 0 := by
          simpa [List.countP_eq_zero, List.findIdx?_eq_none_iff] using hi
        simp [bump, positionOf, List.findIdx?_append, hi, List.findIdx?_cons, hk, hzero]
      | some i => simp [bump, positionOf, List.findIdx?_append, hi, hk, List.countP_append]
    · have hne : key e ≠ some k' := by simpa [hk] using Ne.symm hkk
      simp [bump, Function.update_of_ne hkk, positionOf, List.findIdx?_append, List.findIdx?_cons,
        List.countP_append, hk, Ne.symm hkk]

/-- Popping a vacant entry moves the base, and no position. -/
theorem positionOf_cons_vacant (base : ℕ) {e : α} (es : List α) (he : key e = none) :
    positionOf key base (e :: es) = positionOf key (base + 1) es := by
  funext k
  simp only [positionOf, List.findIdx?_cons, List.countP_cons, holds, he, reduceCtorEq,
    decide_false, Bool.false_eq_true, if_false, Option.map_map, add_zero]
  congr 1
  funext i
  simp [Nat.add_comm, Nat.add_left_comm]

/-- Popping an entry changes no position of another id. -/
theorem positionOf_cons_ne (base : ℕ) {e : α} (es : List α) {k : K} (he : key e ≠ some k) :
    positionOf key base (e :: es) k = positionOf key (base + 1) es k := by
  simp only [positionOf, List.findIdx?_cons, List.countP_cons, holds, he, decide_false,
    Bool.false_eq_true, if_false, Option.map_map, add_zero]
  congr 1
  funext i
  simp [Nat.add_comm, Nat.add_left_comm]

/-- Replacing an entry by one with the same id changes no position. -/
theorem positionOf_replace (base : ℕ) (pre post : List α) {e e' : α} (h : key e' = key e) :
    positionOf key base (pre ++ e' :: post) = positionOf key base (pre ++ e :: post) := by
  funext k
  simp [positionOf, List.findIdx?_append, List.findIdx?_cons, List.countP_append, List.countP_cons,
    holds, h]

/-- Vacating an entry changes no position of another id. -/
theorem positionOf_vacate_ne (base : ℕ) (pre post : List α) {e v : α} {k k' : K}
    (he : key e = some k) (hv : key v = none) (hk : k' ≠ k) :
    positionOf key base (pre ++ v :: post) k' = positionOf key base (pre ++ e :: post) k' := by
  simp [positionOf, List.findIdx?_append, List.findIdx?_cons, List.countP_append, holds, he, hv,
    Ne.symm hk]

/-- Vacating an entry of `k` takes one from its count. -/
theorem countP_vacate (pre post : List α) {e v : α} {k : K} (he : key e = some k)
    (hv : key v = none) :
    (pre ++ e :: post).countP (holds key k) = (pre ++ v :: post).countP (holds key k) + 1 := by
  simp [List.countP_append, holds, he, hv]
  omega

section
variable {base : ℕ} {pre post : List α} {e v : α} {k : K} {p : Position}
  (he : key e = some k) (hv : key v = none)
  (hp : positionOf key base (pre ++ e :: post) k = some p)
include he hv hp

theorem count_of_vacate : p.count = (pre ++ v :: post).countP (holds key k) + 1 := by
  obtain ⟨-, -, -, -, -, -, -, hc⟩ := positionOf_eq_some hp
  rw [hc, countP_vacate pre post he hv]

/-- Vacating the only entry of an id removes its position. -/
theorem positionOf_vacate_only (h1 : p.count = 1) :
    positionOf key base (pre ++ v :: post) k = none := by
  have hc := count_of_vacate he hv hp
  have hzero : (pre ++ v :: post).countP (holds key k) = 0 := by omega
  exact positionOf_eq_none.2 fun x hx => by simpa using List.countP_eq_zero.1 hzero x hx

/-- Vacating one of several entries leaves a first one to be found. -/
theorem positionOf_vacate_first (h1 : p.count ≠ 1) :
    ∃ i, (pre ++ v :: post).findIdx? (holds key k) = some i ∧
      positionOf key base (pre ++ v :: post) k = some ⟨base + i, p.count - 1⟩ := by
  have hc := count_of_vacate he hv hp
  cases hi : (pre ++ v :: post).findIdx? (holds key k) with
  | none =>
    have hzero : (pre ++ v :: post).countP (holds key k) = 0 :=
      List.countP_eq_zero.2 fun x hx => by simpa using List.findIdx?_eq_none_iff.1 hi x hx
    omega
  | some i => exact ⟨i, rfl, by simp [positionOf, hi, hc]⟩

/-- Vacating an entry that is not the first one of its id keeps the first key. -/
theorem positionOf_vacate_later (h1 : p.first ≠ base + pre.length) :
    positionOf key base (pre ++ v :: post) k = some ⟨p.first, p.count - 1⟩ := by
  have hc := count_of_vacate he hv hp
  cases hpre : pre.findIdx? (holds key k) with
  | none =>
    have hmem : ∀ x ∈ pre, key x ≠ some k := by simpa [List.findIdx?_eq_none_iff] using hpre
    rw [positionOf_split he hmem, Option.some.injEq] at hp
    exact absurd (hp ▸ rfl) h1
  | some j =>
    have hfirst : p.first = base + j := by
      simp only [positionOf, List.findIdx?_append, hpre, Option.some_or, Option.map_some,
        Option.some.injEq] at hp
      exact hp ▸ rfl
    simp [positionOf, List.findIdx?_append, hpre, hfirst, hc]

end

end

/-! ## Ordered sets of keys -/

section
variable {α : Type*} (p : α → Bool)

/-- The keys of the entries with property `p`, in increasing order. -/
def keysWhere : ℕ → List α → List ℕ
  | _, [] => []
  | base, e :: es => if p e then base :: keysWhere (base + 1) es else keysWhere (base + 1) es

/-- Insertion into an ordered set. -/
def insertKey (x : ℕ) : List ℕ → List ℕ
  | [] => [x]
  | y :: ys => if x < y then x :: y :: ys else if x = y then y :: ys else y :: insertKey x ys

variable {p}

@[simp] theorem length_keysWhere (base : ℕ) (es : List α) :
    (keysWhere p base es).length = es.countP p := by
  induction es generalizing base with
  | nil => rfl
  | cons e es ih => by_cases h : p e <;> simp [keysWhere, h, ih]

theorem le_of_mem_keysWhere {base x : ℕ} {es : List α} (h : x ∈ keysWhere p base es) :
    base ≤ x := by
  induction es generalizing base with
  | nil => simp [keysWhere] at h
  | cons e es ih =>
    by_cases he : p e
    · simp only [keysWhere, he, if_true, List.mem_cons] at h
      rcases h with rfl | h
      · exact le_rfl
      · have := ih h; omega
    · simp only [keysWhere, he, Bool.false_eq_true, if_false] at h
      have := ih h; omega

theorem keysWhere_append (base : ℕ) (xs ys : List α) :
    keysWhere p base (xs ++ ys) = keysWhere p base xs ++ keysWhere p (base + xs.length) ys := by
  induction xs generalizing base with
  | nil => simp [keysWhere]
  | cons e xs ih =>
    by_cases h : p e <;> simp [keysWhere, h, ih, Nat.add_comm, Nat.add_left_comm]

theorem keysWhere_none {base : ℕ} {es : List α} (h : ∀ e ∈ es, p e = false) :
    keysWhere p base es = [] := by
  have := length_keysWhere (p := p) base es
  rw [List.countP_eq_zero.2 (by simpa using h)] at this
  exact List.length_eq_zero_iff.1 this

/-- The least key leads to the first entry with the property. -/
theorem keysWhere_eq_cons {base x : ℕ} {es : List α} {xs : List ℕ}
    (h : keysWhere p base es = x :: xs) :
    ∃ pre e post, es = pre ++ e :: post ∧ x = base + pre.length ∧ p e = true ∧
      (∀ y ∈ pre, p y = false) ∧ xs = keysWhere p (x + 1) post := by
  induction es generalizing base with
  | nil => simp [keysWhere] at h
  | cons e es ih =>
    cases he : p e with
    | true =>
      simp only [keysWhere, he, if_true, List.cons.injEq] at h
      obtain ⟨rfl, rfl⟩ := h
      exact ⟨[], e, es, rfl, rfl, he, by simp, rfl⟩
    | false =>
      simp only [keysWhere, he, Bool.false_eq_true, if_false] at h
      obtain ⟨pre, e', post, rfl, rfl, he', hpre, rfl⟩ := ih h
      refine ⟨e :: pre, e', post, rfl, by simp [Nat.add_comm, Nat.add_left_comm], he', ?_, rfl⟩
      simpa [he] using hpre

theorem insertKey_lt {x : ℕ} {xs : List ℕ} (h : ∀ y ∈ xs, x < y) : insertKey x xs = x :: xs := by
  cases xs with
  | nil => rfl
  | cons y ys => simp [insertKey, h y (by simp)]

theorem insertKey_append_lt {x : ℕ} {xs : List ℕ} (ys : List ℕ) (h : ∀ y ∈ xs, y < x) :
    insertKey x (xs ++ ys) = xs ++ insertKey x ys := by
  induction xs with
  | nil => rfl
  | cons z xs ih =>
    have hz : z < x := h z (by simp)
    simp [insertKey, show ¬ x < z by omega, show x ≠ z by omega,
      ih fun y hy => h y (List.mem_cons_of_mem _ hy)]

theorem lt_of_mem_keysWhere {base x : ℕ} {es : List α} (h : x ∈ keysWhere p base es) :
    x < base + es.length := by
  induction es generalizing base with
  | nil => simp [keysWhere] at h
  | cons e es ih =>
    by_cases he : p e
    · simp only [keysWhere, he, if_true, List.mem_cons] at h
      rcases h with rfl | h
      · simp
      · have := ih h; simp only [List.length_cons]; omega
    · simp only [keysWhere, he, Bool.false_eq_true, if_false] at h
      have := ih h; simp only [List.length_cons]; omega

/-- The set after appending an entry. -/
theorem keysWhere_concat (base : ℕ) (es : List α) (e : α) :
    keysWhere p base (es ++ [e]) =
      if p e then insertKey (base + es.length) (keysWhere p base es) else keysWhere p base es := by
  rw [keysWhere_append]
  cases h : p e with
  | true =>
    have hlast : insertKey (base + es.length) (keysWhere p base es ++ []) =
        keysWhere p base es ++ insertKey (base + es.length) [] :=
      insertKey_append_lt [] fun y hy => lt_of_mem_keysWhere hy
    rw [List.append_nil] at hlast
    simp [keysWhere, h, hlast, insertKey]
  | false => simp [keysWhere, h]

/-- The set after an entry gains the property. -/
theorem keysWhere_gain (base : ℕ) (pre post : List α) {e e' : α} (he : p e = false)
    (he' : p e' = true) :
    keysWhere p base (pre ++ e' :: post) =
      insertKey (base + pre.length) (keysWhere p base (pre ++ e :: post)) := by
  rw [keysWhere_append, keysWhere_append, insertKey_append_lt _ fun y hy => lt_of_mem_keysWhere hy]
  simp only [keysWhere, he, he', if_true, Bool.false_eq_true, if_false]
  rw [insertKey_lt fun y hy => by have := le_of_mem_keysWhere hy; omega]

theorem keysWhere_replace (base : ℕ) (pre post : List α) {e e' : α} (h : p e' = p e) :
    keysWhere p base (pre ++ e' :: post) = keysWhere p base (pre ++ e :: post) := by
  simp [keysWhere_append, keysWhere, h]

end

end Positions
