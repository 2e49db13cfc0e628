/-
  Ordered maps as association lists with increasing keys.

  `insert` replaces the value of a key that is present; `ofList` inserts the
  entries of a list from left to right, so the last value of a key wins.
  `ofList_of_sorted` is the extensionality used for round trips: a map listed
  in key order is rebuilt as it is.
-/
import Mathlib

namespace SortedMap

variable {K V W : Type*} [LinearOrder K]

/-- The keys are increasing. -/
def Sorted (m : List (K × V)) : Prop := m.Pairwise fun a b => a.1 < b.1

instance (m : List (K × V)) : Decidable (Sorted m) :=
  inferInstanceAs (Decidable (m.Pairwise fun a b => a.1 < b.1))

def insert (k : K) (v : V) : List (K × V) → List (K × V)
  | [] => [(k, v)]
  | (k', v') :: m =>
    if k < k' then (k, v) :: (k', v') :: m
    else if k = k' then (k, v) :: m
    else (k', v') :: insert k v m

/-- The map with the entries of a list, the last value of a key winning. -/
def ofList (l : List (K × V)) : List (K × V) := l.foldl (fun m e => insert e.1 e.2 m) []

theorem mem_insert {k : K} {v : V} {m : List (K × V)} {e : K × V} (h : e ∈ insert k v m) :
    e = (k, v) ∨ e ∈ m := by
  induction m with
  | nil => simpa [insert] using h
  | cons e' m ih =>
    obtain ⟨k', v'⟩ := e'
    simp only [insert] at h
    split_ifs at h with h1 h2
    · simpa using h
    · rcases List.mem_cons.1 h with h | h
      · exact Or.inl h
      · exact Or.inr (List.mem_cons_of_mem _ h)
    · rcases List.mem_cons.1 h with h | h
      · exact Or.inr (h ▸ List.mem_cons_self)
      · exact (ih h).imp_right (List.mem_cons_of_mem _)

theorem Sorted.insert {m : List (K × V)} (h : Sorted m) (k : K) (v : V) :
    Sorted (SortedMap.insert k v m) := by
  induction m with
  | nil => simp [SortedMap.insert, Sorted]
  | cons e m ih =>
    obtain ⟨k', v'⟩ := e
    obtain ⟨hhead, htail⟩ := List.pairwise_cons.1 h
    simp only [SortedMap.insert]
    split_ifs with h1 h2
    · refine List.pairwise_cons.2 ⟨fun e he => ?_, h⟩
      rcases List.mem_cons.1 he with rfl | he
      · exact h1
      · exact h1.trans (hhead e he)
    · subst h2
      exact List.pairwise_cons.2 ⟨hhead, htail⟩
    · refine List.pairwise_cons.2 ⟨fun e he => ?_, ih htail⟩
      rcases mem_insert he with rfl | he
      · exact lt_of_le_of_ne (not_lt.1 h1) (Ne.symm h2)
      · exact hhead e he

theorem insert_greatest {k : K} {v : V} {m : List (K × V)} (h : ∀ e ∈ m, e.1 < k) :
    insert k v m = m ++ [(k, v)] := by
  induction m with
  | nil => rfl
  | cons e m ih =>
    have he : e.1 < k := h e (by simp)
    simp [insert, not_lt.2 he.le, ne_of_gt he, ih fun x hx => h x (List.mem_cons_of_mem _ hx)]

theorem foldl_insert_of_sorted (l acc : List (K × V)) (h : Sorted (acc ++ l)) :
    l.foldl (fun m e => insert e.1 e.2 m) acc = acc ++ l := by
  induction l generalizing acc with
  | nil => simp
  | cons e l ih =>
    have hlt : ∀ x ∈ acc, x.1 < e.1 := fun x hx =>
      (List.pairwise_append.1 h).2.2 x hx e (by simp)
    rw [List.foldl_cons, insert_greatest hlt, ih _ (by simpa using h)]
    simp

/-- A map listed in key order is rebuilt as it is. -/
theorem ofList_of_sorted {l : List (K × V)} (h : Sorted l) : ofList l = l :=
  foldl_insert_of_sorted l [] h

theorem foldl_insert_sorted (l acc : List (K × V)) (h : Sorted acc) :
    Sorted (l.foldl (fun m e => insert e.1 e.2 m) acc) := by
  induction l generalizing acc with
  | nil => exact h
  | cons e l ih => exact ih _ (h.insert e.1 e.2)

theorem ofList_sorted (l : List (K × V)) : Sorted (ofList l) :=
  foldl_insert_sorted l [] List.Pairwise.nil

/-- Distinct keys are all kept. -/
theorem insert_perm {k : K} {v : V} {m : List (K × V)} (h : ∀ e ∈ m, e.1 ≠ k) :
    (insert k v m).Perm ((k, v) :: m) := by
  induction m with
  | nil => exact List.Perm.refl _
  | cons e m ih =>
    have hk : e.1 ≠ k := h e (by simp)
    simp only [insert]
    split_ifs with h1 h2
    · exact List.Perm.refl _
    · exact absurd h2.symm hk
    · exact ((ih fun x hx => h x (List.mem_cons_of_mem _ hx)).cons e).trans (List.Perm.swap _ _ _)

theorem foldl_insert_perm (l acc : List (K × V)) (h : ((acc ++ l).map Prod.fst).Nodup) :
    (l.foldl (fun m e => insert e.1 e.2 m) acc).Perm (acc ++ l) := by
  induction l generalizing acc with
  | nil => simp
  | cons e l ih =>
    have hne : ∀ x ∈ acc, x.1 ≠ e.1 := by
      intro x hx hxe
      rw [List.map_append] at h
      exact List.disjoint_of_nodup_append h (List.mem_map_of_mem hx) (by simp [hxe])
    have hins : (insert e.1 e.2 acc).Perm (e :: acc) := insert_perm hne
    have hmid : (insert e.1 e.2 acc ++ l).Perm (acc ++ e :: l) :=
      (hins.append_right l).trans List.perm_middle.symm
    exact (ih _ (((hmid.map Prod.fst).nodup_iff).2 h)).trans hmid

/-- A map is rebuilt from its entries, in whatever order they come. -/
theorem ofList_of_perm {l m : List (K × V)} (hp : l.Perm m) (hm : Sorted m) : ofList l = m := by
  have hnd : (m.map Prod.fst).Nodup := by
    rw [List.nodup_iff_pairwise_ne, List.pairwise_map]
    exact hm.imp fun h => ne_of_lt h
  have hperm : (ofList l).Perm m :=
    (foldl_insert_perm l [] (((hp.map Prod.fst).nodup_iff).2 hnd)).trans hp
  exact hperm.eq_of_pairwise (fun a b _ _ hab hba => absurd (hab.trans hba) (lt_irrefl _))
    (ofList_sorted l) hm

theorem Sorted.map {m : List (K × V)} (h : Sorted m) (f : V → W) :
    Sorted (m.map fun e => (e.1, f e.2)) := by
  simpa [Sorted, List.pairwise_map] using h

/-- Values can be mapped before the map is built or after. -/
theorem insert_map (f : V → W) (k : K) (v : V) (m : List (K × V)) :
    insert k (f v) (m.map fun e => (e.1, f e.2)) = (insert k v m).map fun e => (e.1, f e.2) := by
  induction m with
  | nil => rfl
  | cons e m ih =>
    simp only [List.map_cons, insert]
    split_ifs
    · rfl
    · rfl
    · rw [ih, List.map_cons]

theorem ofList_concat (l : List (K × V)) (e : K × V) :
    ofList (l ++ [e]) = insert e.1 e.2 (ofList l) := by
  rw [ofList, List.foldl_append]
  rfl

theorem ofList_map (f : V → W) (l : List (K × V)) :
    ofList (l.map fun e => (e.1, f e.2)) = (ofList l).map fun e => (e.1, f e.2) := by
  induction l using List.reverseRecOn with
  | nil => rfl
  | append_singleton l e ih =>
    rw [List.map_append, List.map_singleton, ofList_concat, ih, ofList_concat]
    exact insert_map f e.1 e.2 (ofList l)

/-! ## Look-ups -/

theorem lookup_cons_ite (k k' : K) (v : V) (m : List (K × V)) :
    ((k', v) :: m).lookup k = if k = k' then some v else m.lookup k := by
  by_cases h : k = k'
  · simp [h]
  · simp [List.lookup_cons, h, beq_false_of_ne h]

theorem lookup_insert (k k' : K) (v : V) (m : List (K × V)) :
    (insert k v m).lookup k' = if k' = k then some v else m.lookup k' := by
  induction m with
  | nil => simp [insert, lookup_cons_ite]
  | cons e m ih =>
    obtain ⟨k₁, v₁⟩ := e
    by_cases h1 : k < k₁
    · simp [insert, h1, lookup_cons_ite]
    · by_cases h2 : k = k₁
      · subst h2
        by_cases h3 : k' = k <;> simp [insert, lookup_cons_ite, h3]
      · by_cases h3 : k' = k
        · subst h3; simp [insert, h1, h2, lookup_cons_ite, ih]
        · simp [insert, h1, h2, lookup_cons_ite, ih, h3]

theorem foldl_insert_lookup (k : K) (l acc : List (K × V)) (h : (l.map Prod.fst).Nodup) :
    (l.foldl (fun m e => insert e.1 e.2 m) acc).lookup k = (l.lookup k).or (acc.lookup k) := by
  induction l generalizing acc with
  | nil => simp
  | cons e l ih =>
    obtain ⟨k', v⟩ := e
    obtain ⟨hnot, hnd⟩ := List.nodup_cons.1 h
    rw [List.foldl_cons, ih _ hnd, lookup_insert, lookup_cons_ite]
    by_cases hk : k = k'
    · subst hk
      have hnone : l.lookup k = none := by
        rw [List.lookup_eq_none_iff]
        rintro ⟨k', v'⟩ hp
        have hmem := List.mem_map_of_mem (f := Prod.fst) hp
        have hne : k ≠ k' := by rintro rfl; exact hnot hmem
        simpa using hne
      simp [hnone]
    · simp [hk]

/-- With distinct keys, the map holds what the list holds. -/
theorem lookup_ofList (k : K) {l : List (K × V)} (h : (l.map Prod.fst).Nodup) :
    (ofList l).lookup k = l.lookup k := by
  rw [ofList, foldl_insert_lookup k l [] h]
  simp

end SortedMap
