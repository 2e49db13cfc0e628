/-
  The first `k` elements of a list by a key, largest first.

  The sort is stable, as a sort followed by a truncation usually is.
-/
import Mathlib

namespace TopK

universe u
variable {α : Type u}

/-- The `k` elements with the largest keys; equal keys keep their order. -/
def largest (key : α → ℕ) (k : ℕ) (l : List α) : List α :=
  (l.mergeSort fun a b => decide (key b ≤ key a)).take k

/-- The list has the `k` largest elements of another one in decreasing order; of
    equal elements it has the first ones, in their order. -/
structure Selects (key : α → ℕ) (k : ℕ) (l selected : List α) : Prop where
  length : selected.length = min k l.length
  sorted : selected.Pairwise fun a b => key b ≤ key a
  others : ∃ rest, (selected ++ rest).Perm l ∧ ∀ a ∈ selected, ∀ b ∈ rest, key b ≤ key a
  stable : ∀ n, (selected.filter fun a => key a = n) <+: l.filter fun a => key a = n

section
variable (key : α → ℕ) (l : List α)

theorem key_trans (a b c : α) (hab : decide (key b ≤ key a) = true)
    (hbc : decide (key c ≤ key b) = true) : decide (key c ≤ key a) = true := by
  rw [decide_eq_true_eq] at *
  exact hbc.trans hab

theorem key_total (a b : α) :
    (decide (key b ≤ key a) || decide (key a ≤ key b)) = true := by
  rw [Bool.or_eq_true, decide_eq_true_eq, decide_eq_true_eq]
  exact Nat.le_total (key b) (key a)

theorem sorted_mergeSort :
    (l.mergeSort fun a b => decide (key b ≤ key a)).Pairwise fun a b => key b ≤ key a := by
  have hsorted := List.pairwise_mergeSort (key_trans key) (key_total key) l
  simpa only [decide_eq_true_eq] using hsorted

/-- **A stable sort** keeps the order of elements with the same key. -/
theorem filter_mergeSort (n : ℕ) :
    ((l.mergeSort fun a b => decide (key b ≤ key a)).filter fun a => key a = n) =
      l.filter fun a => key a = n := by
  have hkeys : (l.filter fun a => key a = n).Pairwise fun a b => decide (key b ≤ key a) = true := by
    refine List.pairwise_of_forall_mem_list ?_
    intro a ha b hb
    have ha' : key a = n := by simpa using (List.mem_filter.1 ha).2
    have hb' : key b = n := by simpa using (List.mem_filter.1 hb).2
    simp [ha', hb']
  have hsub := List.sublist_mergeSort (key_trans key) (key_total key) hkeys List.filter_sublist
  have hfilter := hsub.filter fun a => decide (key a = n)
  rw [List.filter_filter] at hfilter
  simp only [Bool.and_self] at hfilter
  have hlength := ((List.mergeSort_perm l fun a b => decide (key b ≤ key a)).filter
    fun a => decide (key a = n)).length_eq
  exact (hfilter.eq_of_length hlength.symm).symm

/-- **The selection.** -/
theorem largest_selects (k : ℕ) : Selects key k l (largest key k l) := by
  have hsorted := sorted_mergeSort key l
  have hsplit := List.take_append_drop k (l.mergeSort fun a b => decide (key b ≤ key a))
  constructor
  · simp [largest]
  · exact hsorted.sublist (List.take_sublist k _)
  · refine ⟨(l.mergeSort fun a b => decide (key b ≤ key a)).drop k, ?_, ?_⟩
    · rw [largest, hsplit]
      exact List.mergeSort_perm l _
    · rw [← hsplit] at hsorted
      exact (List.pairwise_append.1 hsorted).2.2
  · intro n
    rw [← filter_mergeSort key l n]
    exact (List.take_prefix k _).filter _

end

end TopK
