/-
  What a reader looks at in a JSON value.

  A reader of named members ignores the other members of an object, and their
  order.

  * `Shape`: all of a value, the named members of an object, or the members of
    an object whatever their names.
  * `Json.Agree`: two values that a reader of the shape cannot tell apart.
-/
import Eventline.Lib.Json

namespace Json

/-- What a reader looks at. -/
inductive Shape where
  | whole
  | members (known : List (String × Shape))
  | each (s : Shape)

/-- The values are the same where a reader of the shape looks. -/
inductive Agree : Shape → Json → Json → Prop
  | refl (s : Shape) (v : Json) : Agree s v v
  | members {known : List (String × Shape)} {ms ns : List (String × Json)}
    (absent : ∀ p ∈ known, ms.lookup p.1 = none ↔ ns.lookup p.1 = none)
    (present : ∀ p ∈ known, ∀ v w, ms.lookup p.1 = some v → ns.lookup p.1 = some w → Agree p.2 v w) :
    Agree (.members known) (.obj ms) (.obj ns)
  | each {s : Shape} {k : String} {v w : Json} {ms ns : List (String × Json)} :
    Agree s v w → Agree (.each s) (.obj ms) (.obj ns) →
      Agree (.each s) (.obj ((k, v) :: ms)) (.obj ((k, w) :: ns))

namespace Agree

variable {s : Shape} {known : List (String × Shape)} {v w : Json}

theorem eq_of_whole (h : Agree .whole v w) : v = w := by
  cases h
  rfl

theorem null_iff (h : Agree s v w) : v = .null ↔ w = .null := by
  cases h with
  | refl => exact Iff.rfl
  | members => simp
  | each => simp

/-- Option values, related where they are there. -/
theorem rel_refl (s : Shape) (o : Option Json) : Option.Rel (Agree s) o o := by
  cases o with
  | none => exact .none
  | some v => exact .some (.refl s v)

/-- The known members agree. -/
theorem get (h : Agree (.members known) v w) {k : String} {t : Shape} (hk : (k, t) ∈ known) :
    Option.Rel (Agree t) (v.get k) (w.get k) := by
  cases h with
  | refl => exact rel_refl t (v.get k)
  | members absent present =>
    rename_i ms ns
    show Option.Rel (Agree t) (ms.lookup k) (ns.lookup k)
    cases hv : ms.lookup k with
    | none =>
      rw [(absent _ hk).1 hv]
      exact .none
    | some a =>
      cases hw : ns.lookup k with
      | none =>
        rw [(absent _ hk).2 hw] at hv
        cases hv
      | some b => exact .some (present _ hk a b hv hw)

/-- A member of which all is looked at is the same. -/
theorem get_eq (h : Agree (.members known) v w) {k : String} (hk : (k, Shape.whole) ∈ known) :
    v.get k = w.get k := by
  have hrel := h.get hk
  generalize v.get k = a at hrel
  generalize w.get k = b at hrel
  cases hrel with
  | none => rfl
  | some h => rw [h.eq_of_whole]

/-- Objects whose known members are the same. -/
theorem of_lookup {ms ns : List (String × Json)}
    (h : ∀ p ∈ known, ms.lookup p.1 = ns.lookup p.1) : Agree (.members known) (.obj ms) (.obj ns) := by
  constructor
  · intro p hp
    rw [h p hp]
  · intro p hp v w hv hw
    obtain rfl := Option.some.inj (hv.symm.trans ((h p hp).trans hw))
    exact .refl p.2 v

/-- **Members that are not known** make no difference. -/
theorem of_extra {ms extra : List (String × Json)} (hkeys : ((ms ++ extra).map Prod.fst).Nodup)
    (hnew : ∀ p ∈ known, p.1 ∉ extra.map Prod.fst) :
    Agree (.members known) (obj ms).canonical (obj (ms ++ extra)).canonical := by
  have hms : (ms.map Prod.fst).Nodup := by
    rw [List.map_append] at hkeys
    exact hkeys.of_append_left
  have hget : ∀ p ∈ known, (obj ms).canonical.get p.1 = (obj (ms ++ extra)).canonical.get p.1 := by
    intro p hp
    have hnone : extra.lookup p.1 = none := by
      rw [List.lookup_eq_none_iff]
      intro e he
      simpa using fun heq : p.1 = e.1 => hnew p hp (heq ▸ List.mem_map_of_mem he)
    rw [get_canonical_obj hms, get_canonical_obj hkeys, List.lookup_append, hnone, Option.or_none]
  simp only [canonical] at hget ⊢
  exact of_lookup hget

end Agree

/-- A reader that cannot tell the values apart. -/
theorem bind_agree {α : Type} {s : Shape} {decode : Json → Option α}
    (h : ∀ v w, Agree s v w → decode v = decode w) {a b : Option Json}
    (hab : Option.Rel (Agree s) a b) : a.bind decode = b.bind decode := by
  cases hab with
  | none => rfl
  | some hvw => exact h _ _ hvw

end Json
