/-
  Hash maps that index a list, filled in one pass over it.

  A map is a function to `Option`.

  * `first key l`: the first element of `l` with a key; `orInsert` keeps it.
  * `group key l`: the elements of `l` with a key, in their order; `pushTo`
    keeps it.
  * `foldl_orInsert`: the pass that fills `first`, from any map.
-/
import Mathlib

namespace HashIndex

variable {A K : Type*} [DecidableEq K]

/-- `map.entry(key).or_insert(a)`. -/
def orInsert (key : A → K) (map : K → Option A) (a : A) : K → Option A :=
  if (map (key a)).isSome then map else Function.update map (key a) (some a)

/-- `map.entry(k).or_default().push(a)`. -/
def pushTo (map : K → Option (List A)) (k : K) (a : A) : K → Option (List A) :=
  Function.update map k (some ((map k).getD [] ++ [a]))

/-- The first element with each key. -/
def first (key : A → K) (l : List A) (k : K) : Option A := l.find? fun a => key a = k

/-- The elements with each key, of those that have one. -/
def group (key : A → Option K) (l : List A) (k : K) : Option (List A) :=
  match l.filter fun a => key a = some k with
  | [] => none
  | as => some as

/-! ## The first element of a key -/

section
variable {key : A → K}

theorem first_concat (l : List A) (a : A) (k : K) :
    first key (l ++ [a]) k = (first key l k).or (if key a = k then some a else none) := by
  rw [first, List.find?_append, List.find?_singleton]
  simp only [decide_eq_true_eq]
  rfl

/-- An element counts only if its key is new. -/
theorem orInsert_first (l : List A) (a : A) :
    orInsert key (first key l) a = first key (l ++ [a]) := by
  funext k
  rw [first_concat, orInsert]
  cases hfirst : first key l (key a) with
  | some x =>
    rw [Option.isSome_some, if_pos rfl]
    split_ifs with hk
    · rw [← hk, hfirst]
      rfl
    · rw [Option.or_none]
  | none =>
    rw [if_neg (by simp)]
    split_ifs with hk
    · rw [← hk, Function.update_self, hfirst]
      rfl
    · rw [Function.update_of_ne (Ne.symm hk), Option.or_none]

theorem foldl_orInsert (l : List A) : l.foldl (orInsert key) (fun _ => none) = first key l := by
  induction l using List.reverseRecOn with
  | nil => rfl
  | append_singleton l a ih => rw [List.foldl_concat, ih, orInsert_first]

end

/-! ## The group of a key -/

section
variable {key : A → Option K}

theorem getD_group (l : List A) (k : K) :
    (group key l k).getD [] = l.filter fun a => key a = some k := by
  unfold group
  split
  · rename_i h
    exact h.symm
  · rfl

theorem group_concat_of_none (l : List A) {a : A} (ha : key a = none) :
    group key (l ++ [a]) = group key l := by
  funext k
  have hfilter : [a].filter (fun x => key x = some k) = [] := by simp [ha]
  simp only [group, List.filter_append, hfilter, List.append_nil]

/-- An element joins the group of its key, and no other. -/
theorem pushTo_group (l : List A) {a : A} {k : K} (ha : key a = some k) :
    pushTo (group key l) k a = group key (l ++ [a]) := by
  funext k'
  by_cases hk : k' = k
  · subst hk
    have hfilter : [a].filter (fun x => key x = some k') = [a] := by simp [ha]
    rw [pushTo, Function.update_self, getD_group, group, List.filter_append, hfilter]
    split
    · rename_i h
      simp at h
    · rfl
  · have hfilter : [a].filter (fun x => key x = some k') = [] := by
      simp [ha, Ne.symm hk]
    rw [pushTo, Function.update_of_ne hk, group, group, List.filter_append, hfilter, List.append_nil]

end

end HashIndex
