/-
  Items that are made, held for a while and delivered.

  `Handoff` says that each item made is delivered once or is in one hand; it is
  kept when a hand takes a new item and when a hand delivers what it holds.
-/
import Mathlib

universe u v

structure Handoff {α : Type u} {T : Type v} (made delivered : List α) (hand : T → Option α) :
    Prop where
  once : made.Nodup
  deliveredOnce : delivered.Nodup
  subset : ∀ a ∈ delivered, a ∈ made
  held : ∀ t a, hand t = some a → a ∈ made ∧ a ∉ delivered
  apart : ∀ t u a, hand t = some a → hand u = some a → t = u
  complete : ∀ a ∈ made, a ∈ delivered ∨ ∃ t, hand t = some a

namespace Handoff

variable {α : Type u} {T : Type v} {made delivered : List α} {hand : T → Option α}

/-- Nothing is made yet. -/
theorem empty (hnone : ∀ t, hand t = none) : Handoff [] [] hand where
  once := .nil
  deliveredOnce := .nil
  subset _ h := by cases h
  held t a h := by rw [hnone] at h; cases h
  apart t u a h := by rw [hnone] at h; cases h
  complete _ h := by cases h

/-- **At the end** exactly what was made is delivered. -/
theorem perm (h : Handoff made delivered hand) (hnone : ∀ t, hand t = none) :
    delivered.Perm made := by
  refine (List.perm_ext_iff_of_nodup h.deliveredOnce h.once).2 fun a => ⟨h.subset a, fun ha => ?_⟩
  rcases h.complete a ha with hd | ⟨t, ht⟩
  · exact hd
  · rw [hnone] at ht
    cases ht

variable [DecidableEq T]

/-- A new item is made, and an empty hand takes it. -/
theorem take (h : Handoff made delivered hand) {t : T} {a : α} (ht : hand t = none)
    (ha : a ∉ made) : Handoff (made ++ [a]) delivered (Function.update hand t (some a)) := by
  have hother : ∀ u b, u ≠ t → hand u = some b → b ≠ a := by
    rintro u b - hu rfl
    exact ha (h.held u b hu).1
  refine ⟨?_, h.deliveredOnce, fun b hb => List.mem_append_left _ (h.subset b hb), ?_, ?_, ?_⟩
  · rw [List.nodup_append]
    refine ⟨h.once, List.nodup_singleton a, ?_⟩
    rintro b hb c hc rfl
    exact ha (List.mem_singleton.1 hc ▸ hb)
  · intro u b hu
    by_cases hut : u = t
    · subst hut
      rw [Function.update_self] at hu
      obtain rfl := Option.some.inj hu
      exact ⟨List.mem_append_right _ (List.mem_singleton.2 rfl), fun hd => ha (h.subset a hd)⟩
    · rw [Function.update_of_ne hut] at hu
      exact ⟨List.mem_append_left _ (h.held u b hu).1, (h.held u b hu).2⟩
  · intro u v b hu hv
    by_cases hut : u = t
    · by_cases hvt : v = t
      · rw [hut, hvt]
      · rw [hut, Function.update_self] at hu
        rw [Function.update_of_ne hvt] at hv
        exact absurd (Option.some.inj hu).symm (hother v b hvt hv)
    · rw [Function.update_of_ne hut] at hu
      by_cases hvt : v = t
      · rw [hvt, Function.update_self] at hv
        exact absurd (Option.some.inj hv).symm (hother u b hut hu)
      · rw [Function.update_of_ne hvt] at hv
        exact h.apart u v b hu hv
  · intro b hb
    rcases List.mem_append.1 hb with hb | hb
    · rcases h.complete b hb with hd | ⟨u, hu⟩
      · exact .inl hd
      · refine .inr ⟨u, ?_⟩
        rw [Function.update_of_ne (by rintro rfl; rw [ht] at hu; cases hu)]
        exact hu
    · rw [List.mem_singleton.1 hb]
      exact .inr ⟨t, Function.update_self ..⟩

/-- A hand delivers the item that it holds. -/
theorem deliver (h : Handoff made delivered hand) {t : T} {a : α} (ht : hand t = some a) :
    Handoff made (delivered ++ [a]) (Function.update hand t none) := by
  obtain ⟨hmade, hnew⟩ := h.held t a ht
  refine ⟨h.once, ?_, ?_, ?_, ?_, ?_⟩
  · rw [List.nodup_append]
    refine ⟨h.deliveredOnce, List.nodup_singleton a, ?_⟩
    rintro b hb c hc rfl
    exact hnew (List.mem_singleton.1 hc ▸ hb)
  · intro b hb
    rcases List.mem_append.1 hb with hb | hb
    · exact h.subset b hb
    · rw [List.mem_singleton.1 hb]
      exact hmade
  · intro u b hu
    have hut : u ≠ t := by
      rintro rfl
      rw [Function.update_self] at hu
      cases hu
    rw [Function.update_of_ne hut] at hu
    refine ⟨(h.held u b hu).1, ?_⟩
    rw [List.mem_append, List.mem_singleton, not_or]
    refine ⟨(h.held u b hu).2, ?_⟩
    rintro rfl
    exact hut (h.apart u t b hu ht)
  · intro u v b hu hv
    have hne : ∀ w, Function.update hand t none w = some b → w ≠ t := by
      rintro w hw rfl
      rw [Function.update_self] at hw
      cases hw
    rw [Function.update_of_ne (hne u hu)] at hu
    rw [Function.update_of_ne (hne v hv)] at hv
    exact h.apart u v b hu hv
  · intro b hb
    rcases h.complete b hb with hd | ⟨u, hu⟩
    · exact .inl (List.mem_append_left _ hd)
    · by_cases hut : u = t
      · subst hut
        rw [ht] at hu
        exact .inl (List.mem_append_right _ (List.mem_singleton.2 (Option.some.inj hu).symm))
      · exact .inr ⟨u, by rw [Function.update_of_ne hut]; exact hu⟩

end Handoff
