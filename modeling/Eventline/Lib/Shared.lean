/-
  Logs that many parties append to.

  Every entry has a key, and a table says which party made the entry with a key.

  * `grant`: the table after one party has taken the next keys.
  * `part`: the entries of a party, in their order.
-/
import Mathlib

namespace Shared

universe u v w
variable {α : Type u} {ι : Type v} {κ : Type w}

/-! ## Tables -/

variable {number : ι → ℕ} {owner : ι → κ} {c : κ} {n : ℕ} {i : ι}

/-- The table after the first `n` keys have been taken, and all later ones are
    for the party `c`. -/
def grant (number : ι → ℕ) (n : ℕ) (c : κ) (owner : ι → κ) (i : ι) : κ :=
  if number i < n then owner i else c

theorem grant_of_lt (h : number i < n) : grant number n c owner i = owner i := if_pos h

theorem grant_of_le (h : n ≤ number i) : grant number n c owner i = c := if_neg h.not_gt

/-! ## Parts -/

variable [DecidableEq κ]

/-- The entries that a party has made. -/
def part (key : α → ι) (owner : ι → κ) (c : κ) (l : List α) : List α :=
  l.filter fun a => owner (key a) = c

variable {key : α → ι} {l : List α}

theorem mem_part {a : α} : a ∈ part key owner c l ↔ a ∈ l ∧ owner (key a) = c := by simp [part]

/-- Entries that are replaced under their keys. -/
theorem part_map {f : α → α} (hf : ∀ a, key (f a) = key a) :
    part key owner c (l.map f) = (part key owner c l).map f := by
  simp [part, List.filter_map, Function.comp_def, hf]

/-- Tables that agree on the keys of the log. -/
theorem part_congr {owner' : ι → κ} (h : ∀ a ∈ l, owner' (key a) = owner (key a)) :
    part key owner' c l = part key owner c l := by
  refine List.filter_congr ?_
  intro a ha
  rw [h a ha]

/-- What is read off the entries, if it says their keys. -/
theorem map_part_congr {β : Type*} {f : α → β} {g : β → ι} (hkey : ∀ a, key a = g (f a))
    {l' : List α} (h : l'.map f = l.map f) :
    (part key owner c l').map f = (part key owner c l).map f := by
  have hpart : ∀ l : List α, (part key owner c l).map f = part g owner c (l.map f) := by
    intro l
    rw [part, part, List.filter_map]
    simp [Function.comp_def, hkey]
  rw [hpart, hpart, h]

/-- **A new entry** comes last in the part of the party that made it, and in no
    other. -/
theorem part_append (a : α) :
    part key owner c (l ++ [a]) =
      part key owner c l ++ if owner (key a) = c then [a] else [] := by
  rw [part, List.filter_append]
  congr 1
  by_cases hc : owner (key a) = c <;> simp [hc]

end Shared
