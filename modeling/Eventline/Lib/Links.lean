/-
  Parent links: a partial function `up`, whose graph may have cycles.

  * `Leads up x c`: following links from `x`, once or more, arrives at `c`;
    `c = none` is the way out of a root.
  * `Rooted up x`: the way up from `x` ends.  A rooted key lies on no cycle
    (`Rooted.not_cycle`).
  * Cutting the link of a key keeps every rooted key rooted (`Rooted.cut`), and
    roots every key that leads to the key (`Leads.cut`).
  * `Below up x a`: `x` is `a` or leads to it.  What is below two siblings
    would close a cycle (`Below.not_siblings`).
  * `Apart up cuts`: keys on cycles, no two on one.  If cutting their links
    leaves no cycle, there is one of them on each (`Apart.exists_unique`,
    `Apart.ncard_cycles`).
-/
import Mathlib

namespace Links

variable {K : Type*} (up : K → Option K)

/-- Following links from `x`, once or more, arrives at `c`. -/
inductive Leads : K → Option K → Prop
  | one (x : K) : Leads x (up x)
  | step {x y : K} {c : Option K} : up x = some y → Leads y c → Leads x c

/-- The way up from `x` ends. -/
def Rooted (x : K) : Prop := Leads up x none

variable {up}

theorem Leads.of_eq {x : K} {c : Option K} (h : up x = c) : Leads up x c := h ▸ Leads.one x

theorem Leads.trans {x y : K} {c : Option K} (h : Leads up x (some y)) (h' : Leads up y c) :
    Leads up x c := by
  generalize hd : some y = d at h
  induction h with
  | one x => exact .step hd.symm h'
  | step hx _ ih => exact .step hx (ih hd)

/-- Induction from the roots down. -/
theorem Rooted.induct {P : K → Prop} (root : ∀ x, up x = none → P x)
    (child : ∀ x y, up x = some y → Rooted up y → P y → P x) {x : K} (h : Rooted up x) : P x := by
  unfold Rooted at h
  generalize hc : (none : Option K) = c at h
  induction h with
  | one x => exact root x hc.symm
  | step hx h ih => exact child _ _ hx (by rw [← hc] at h; exact h) (ih hc)

/-- A rooted key lies on no cycle. -/
theorem Rooted.not_cycle {x : K} (h : Rooted up x) : ¬ Leads up x (some x) := by
  refine h.induct (P := fun x => ¬ Leads up x (some x)) ?_ ?_
  · intro x hx hl
    generalize hc : some x = c at hl
    cases hl with
    | one => rw [hx] at hc; cases hc
    | step hx' _ => rw [hx] at hx'; cases hx'
  · intro x y hx _ ih hl
    generalize hc : some x = c at hl
    cases hl with
    | one =>
      have hxy : x = y := Option.some.inj (hc.trans hx)
      subst hxy
      exact ih (.of_eq hx)
    | step hx' hl =>
      obtain rfl := Option.some.inj (hx.symm.trans hx')
      rw [← hc] at hl
      exact ih (hl.trans (.of_eq hx))

/-- Links that go down in a measure end. -/
theorem rooted_of_decreasing (f : K → ℕ) (h : ∀ x y, up x = some y → f y < f x) (x : K) :
    Rooted up x := by
  induction hn : f x using Nat.strong_induction_on generalizing x with
  | _ n ih =>
    cases hx : up x with
    | none => exact .of_eq hx
    | some y => exact .step hx (ih (f y) (hn ▸ h x y hx) y rfl)

/-! ## What is below a key -/

/-- `x` is `a` or leads to it. -/
def Below (up : K → Option K) (x a : K) : Prop := x = a ∨ Leads up x (some a)

theorem Below.refl (x : K) : Below up x x := .inl rfl

theorem Below.trans {x a b : K} (h : Below up x a) (h' : Below up a b) : Below up x b := by
  rcases h with rfl | h
  · exact h'
  · rcases h' with rfl | h'
    · exact .inr h
    · exact .inr (h.trans h')

theorem Below.of_up {x a : K} (h : up x = some a) : Below up x a := .inr (.of_eq h)

/-- Two keys above one key are above one another. -/
theorem Leads.comparable {x a b : K} (ha : Leads up x (some a)) (hb : Leads up x (some b)) :
    Below up a b ∨ Below up b a := by
  generalize hc : some a = c at ha
  induction ha with
  | one x =>
    generalize hd : some b = d at hb
    cases hb with
    | one => exact .inl (.inl (Option.some.inj (hc.trans hd.symm)))
    | step hx hl =>
      obtain rfl := Option.some.inj (hc.trans hx)
      exact .inl (.inr (hd ▸ hl))
  | @step x y c hx hl ih =>
    generalize hd : some b = d at hb
    cases hb with
    | one =>
      obtain rfl := Option.some.inj (hd.trans hx)
      exact .inr (.inr (hc ▸ hl))
    | step hx' hl' =>
      obtain rfl := Option.some.inj (hx.symm.trans hx')
      exact ih (hd ▸ hl') hc

theorem Below.comparable {x a b : K} (ha : Below up x a) (hb : Below up x b) :
    Below up a b ∨ Below up b a := by
  rcases ha with rfl | ha
  · exact .inl hb
  · rcases hb with rfl | hb
    · exact .inr (.inr ha)
    · exact ha.comparable hb

/-- What is above a child is the child, or above its parent. -/
theorem Below.of_child {c p a : K} (h : Below up c a) (hc : up c = some p) :
    c = a ∨ Below up p a := by
  rcases h with rfl | h
  · exact .inl rfl
  · generalize hd : some a = d at h
    cases h with
    | one => exact .inr (.inl (Option.some.inj (hc.symm.trans hd.symm)))
    | step hx hl =>
      obtain rfl := Option.some.inj (hc.symm.trans hx)
      exact .inr (.inr (hd ▸ hl))

/-- A parent is not below its child. -/
theorem Rooted.not_below {c p : K} (h : Rooted up c) (hc : up c = some p) : ¬ Below up p c := by
  rintro (rfl | hl)
  · exact h.not_cycle (.of_eq hc)
  · exact h.not_cycle (.step hc hl)

/-- Nothing is below two children of one key. -/
theorem Below.not_siblings {x a b p : K} (ha : up a = some p) (hb : up b = some p)
    (hra : Rooted up a) (hrb : Rooted up b) (hxa : Below up x a) (hxb : Below up x b) : a = b := by
  rcases hxa.comparable hxb with h | h
  · exact (h.of_child ha).resolve_right (hrb.not_below hb)
  · exact ((h.of_child hb).resolve_right (hra.not_below ha)).symm

/-- Nothing is below two roots. -/
theorem Below.not_roots {x a b : K} (ha : up a = none) (hb : up b = none) (hxa : Below up x a)
    (hxb : Below up x b) : a = b := by
  have hroot : ∀ {a b}, up a = none → Below up a b → a = b := by
    intro a b ha h
    rcases h with rfl | h
    · rfl
    · generalize hd : some b = d at h
      cases h with
      | one => rw [ha] at hd; cases hd
      | step hx => rw [ha] at hx; cases hx
  rcases hxa.comparable hxb with h | h
  · exact hroot ha h
  · exact (hroot hb h).symm

section
variable [DecidableEq K]

/-- The links without that of `x`. -/
def cut (up : K → Option K) (x : K) : K → Option K := Function.update up x none

theorem rooted_cut_self (x : K) : Rooted (cut up x) x := .of_eq (by simp [cut])

/-- What leads to a key is rooted once the link of that key is cut. -/
theorem Leads.cut {x y : K} (h : Leads up x (some y)) : Rooted (cut up y) x := by
  generalize hc : some y = c at h
  induction h with
  | one x =>
    by_cases hxy : x = y
    · exact hxy ▸ rooted_cut_self x
    · refine .step (y := y) ?_ (rooted_cut_self y)
      simp [Links.cut, Function.update_of_ne hxy, ← hc]
  | @step x z c hx _ ih =>
    by_cases hxy : x = y
    · exact hxy ▸ rooted_cut_self x
    · exact .step (by simp [Links.cut, Function.update_of_ne hxy, hx]) (ih hc)

theorem Rooted.cut {x : K} (h : Rooted up x) (y : K) : Rooted (cut up y) x := by
  refine h.induct (P := Rooted (Links.cut up y)) ?_ ?_
  · intro x hx
    refine .of_eq ?_
    by_cases hxy : x = y
    · simp [Links.cut, hxy]
    · simp [Links.cut, Function.update_of_ne hxy, hx]
  · intro x z hx _ ih
    by_cases hxy : x = y
    · exact hxy ▸ rooted_cut_self x
    · exact .step (by simp [Links.cut, Function.update_of_ne hxy, hx]) ih

end

/-! ## Cycles -/

/-- `x` lies on a cycle. -/
def OnCycle (up : K → Option K) (x : K) : Prop := Leads up x (some x)

/-- The cycles, each as the set of what one of its keys leads to. -/
def cycles (up : K → Option K) : Set (Set K) :=
  {C | ∃ x, OnCycle up x ∧ C = {y | Leads up x (some y)}}

/-- The way from a key on a cycle leads back. -/
theorem OnCycle.next {x : K} (h : OnCycle up x) : ∃ z, up x = some z ∧ Leads up z (some x) := by
  unfold OnCycle at h
  generalize hc : some x = c at h
  cases h with
  | one => exact ⟨x, hc.symm, .one x⟩
  | @step _ z _ hx hl => exact ⟨z, hx, hl⟩

/-- What a key on a cycle leads to is on that cycle. -/
theorem OnCycle.leads {x y : K} (h : OnCycle up x) (hy : Leads up x (some y)) :
    OnCycle up y ∧ Leads up y (some x) := by
  generalize hc : some y = c at hy
  induction hy with
  | one x =>
    obtain ⟨z, hz, hback⟩ := h.next
    obtain rfl := Option.some.inj (hc.trans hz)
    exact ⟨hback.trans (.of_eq hz), hback⟩
  | @step x z c hx _ ih =>
    obtain ⟨z', hz, hback⟩ := h.next
    obtain rfl := Option.some.inj (hx.symm.trans hz)
    obtain ⟨hcyc, hyz⟩ := ih (hback.trans (.of_eq hz)) hc
    exact ⟨hcyc, hyz.trans hback⟩

section
variable [DecidableEq K]

/-- The links without those of the given keys. -/
def cutAll (up : K → Option K) (cuts : List K) (x : K) : Option K :=
  if x ∈ cuts then none else up x

theorem up_of_cutAll {cuts : List K} {x y : K} (h : cutAll up cuts x = some y) :
    x ∉ cuts ∧ up x = some y := by
  unfold cutAll at h
  split_ifs at h with hx
  exact ⟨hx, h⟩

theorem Leads.of_cutAll {cuts : List K} {x y : K} (h : Leads (cutAll up cuts) x (some y)) :
    Leads up x (some y) := by
  generalize hc : some y = c at h
  induction h with
  | one x => exact hc ▸ .of_eq (up_of_cutAll hc.symm).2
  | step hx _ ih => exact .step (up_of_cutAll hx).2 (ih hc)

/-- A cycle without a cut has no way to a key that is cut. -/
theorem OnCycle.uncut {cuts : List K} {x y : K} (h : OnCycle (cutAll up cuts) x)
    (hy : Leads up x (some y)) : y ∉ cuts := by
  generalize hc : some y = c at hy
  induction hy with
  | one x =>
    obtain ⟨z, hz, hback⟩ := h.next
    obtain rfl := Option.some.inj (hc.trans (up_of_cutAll hz).2)
    obtain ⟨_, hw, -⟩ := (h.leads (.of_eq hz)).1.next
    exact (up_of_cutAll hw).1
  | @step x z c hx _ ih =>
    obtain ⟨z', hz, -⟩ := h.next
    obtain rfl := Option.some.inj (hx.symm.trans (up_of_cutAll hz).2)
    exact ih (h.leads (.of_eq hz)).1 hc

/-- A cycle with no key that is cut stays. -/
theorem OnCycle.stays {cuts : List K} {x : K} (h : OnCycle up x)
    (hno : ∀ y, Leads up x (some y) → y ∉ cuts) : OnCycle (cutAll up cuts) x := by
  have hkeep : ∀ y c, OnCycle up y → (∀ z, Leads up y (some z) → z ∉ cuts) → Leads up y c →
      Leads (cutAll up cuts) y c := by
    intro y c hy hy' hl
    induction hl with
    | one y =>
      refine .of_eq ?_
      rw [cutAll, if_neg (hy' y hy)]
    | @step y z c hz _ ih =>
      refine .step (y := z) ?_ (ih (hy.leads (.of_eq hz)).1 fun w hw => hy' w (.step hz hw))
      rw [cutAll, if_neg (hy' y hy), hz]
  exact hkeep x _ h hno h

/-- Keys on cycles, no two of them on one. -/
structure Apart (up : K → Option K) (cuts : List K) : Prop where
  nodup : cuts.Nodup
  onCycle : ∀ c ∈ cuts, OnCycle up c
  apart : ∀ a ∈ cuts, ∀ b ∈ cuts, Leads up a (some b) → a = b

omit [DecidableEq K] in
theorem apart_nil : Apart up [] :=
  ⟨.nil, fun _ h => (by cases h), fun _ h => (by cases h)⟩

/-- A key on a cycle that is still there is apart from those cut. -/
theorem Apart.concat {cuts : List K} (h : Apart up cuts) {c : K} (hc : OnCycle (cutAll up cuts) c) :
    Apart up (cuts ++ [c]) := by
  have hcyc : OnCycle up c := Leads.of_cutAll hc
  refine ⟨List.nodup_append.2 ⟨h.nodup, List.nodup_singleton c, ?_⟩, ?_, ?_⟩
  · rintro a ha b hb rfl
    rw [List.mem_singleton.1 hb] at ha
    exact hc.uncut hcyc ha
  · intro x hx
    rcases List.mem_append.1 hx with hx | hx
    · exact h.onCycle x hx
    · exact List.mem_singleton.1 hx ▸ hcyc
  · intro a ha b hb hl
    rcases List.mem_append.1 ha with ha | ha <;> rcases List.mem_append.1 hb with hb | hb
    · exact h.apart a ha b hb hl
    · rw [List.mem_singleton.1 hb] at hl
      exact absurd ha (hc.uncut ((h.onCycle a ha).leads hl).2)
    · rw [List.mem_singleton.1 ha] at hl
      exact absurd hb (hc.uncut hl)
    · rw [List.mem_singleton.1 ha, List.mem_singleton.1 hb]

/-- **One cut for each cycle**, once no key is on a cycle any more. -/
theorem Apart.exists_unique {cuts : List K} (h : Apart up cuts)
    (hend : ∀ x, ¬ OnCycle (cutAll up cuts) x) {x : K} (hx : OnCycle up x) :
    ∃! c, c ∈ cuts ∧ Leads up x (some c) := by
  obtain ⟨c, hl, hc⟩ : ∃ c, Leads up x (some c) ∧ c ∈ cuts := by
    by_contra hno
    refine hend x (hx.stays fun y hl hy => hno ⟨y, hl, hy⟩)
  refine ⟨c, ⟨hc, hl⟩, ?_⟩
  rintro d ⟨hd, hld⟩
  exact h.apart d hd c hc ((hx.leads hld).2.trans hl)

/-- **There are as many cuts as cycles.** -/
theorem Apart.ncard_cycles {cuts : List K} (h : Apart up cuts)
    (hend : ∀ x, ¬ OnCycle (cutAll up cuts) x) : (cycles up).ncard = cuts.length := by
  have himage : cycles up = (fun c => {y | Leads up c (some y)}) '' {c | c ∈ cuts} := by
    ext C
    constructor
    · rintro ⟨x, hx, rfl⟩
      obtain ⟨c, ⟨hc, hl⟩, -⟩ := h.exists_unique hend hx
      refine ⟨c, hc, ?_⟩
      ext y
      exact ⟨fun hy => hl.trans hy, fun hy => (hx.leads hl).2.trans hy⟩
    · rintro ⟨c, hc, rfl⟩
      exact ⟨c, h.onCycle c hc, rfl⟩
  have hinj : Set.InjOn (fun c => {y | Leads up c (some y)}) {c | c ∈ cuts} := by
    intro a ha b hb hab
    have hb' : b ∈ {y | Leads up a (some y)} := by
      have hset : {y | Leads up a (some y)} = {y | Leads up b (some y)} := hab
      rw [hset]
      exact h.onCycle b hb
    exact h.apart a ha b hb hb'
  have hset : {c | c ∈ cuts} = (cuts.toFinset : Set K) := by
    ext c
    simp
  rw [himage, hinj.ncard_image, hset, Set.ncard_coe_finset, List.toFinset_card_of_nodup h.nodup]

end

end Links
