/-
  Merging copies of one scope in any order (`RunBuilder::add_scope`).

  * `TakenDuring`: the copies that are taken of a scope during its life, the open
    ones with their messages in the order of time, the closed one last.
  * `addScopes_shows`: while copies of a life are merged, the merge is such a
    copy, and closed as soon as one of them is.
  * `merge_in_any_order`: without a conflict they make the closed copy.
-/
import Eventline.Runtime.Lives

namespace Eventline

open Checked Slots

/-- The copies taken of a scope: open ones, in the order of time, whose messages
    are set or replaced but never removed, and the closed one. -/
structure TakenDuring (opens : List Scope) (closed : Scope) : Prop where
  last : closed.exitedAt.isSome
  opened : ∀ x ∈ opens, x.exitedAt = none
  identity : ∀ x ∈ opens, x.id = closed.id ∧ x.parent = closed.parent ∧
    x.enteredAt = closed.enteredAt ∧ x.name = closed.name
  messages : (opens ++ [closed]).Pairwise fun x y => x.exitMessages.Within y.exitMessages

/-- `add_scope` for one copy after the other, with what it returns. -/
def RunBuilder.addScopes (b : RunBuilder) : List Scope → Checked (RunBuilder × List (Option String))
  | [] => pure (b, [])
  | s :: rest => do
    let (b, message) ← b.addScope s
    let (b, messages) ← b.addScopes rest
    pure (b, message :: messages)

theorem addScopes_cons {b b₁ b' : RunBuilder} {x : Scope} {fed : List Scope}
    {message : Option String} {messages : List (Option String)}
    (hadd : b.addScope x = .ok (b₁, message)) (hrest : b₁.addScopes fed = .ok (b', messages)) :
    b.addScopes (x :: fed) = .ok (b', message :: messages) := by
  rw [RunBuilder.addScopes, hadd, ok_bind]
  simp only [hrest, ok_bind]
  rfl

/-! ## Copies of one life -/

/-- The life that the closed copy is of. -/
def Life.ofClosed (closed : Scope) : Life := ⟨closed, some closed, false⟩

theorem TakenDuring.shows {opens : List Scope} {closed : Scope} (h : TakenDuring opens closed)
    {x : Scope} (hx : x ∈ opens ∨ x = closed) : (Life.ofClosed closed).Shows x := by
  rcases hx with hx | rfl
  · obtain ⟨hid, hparent, henteredAt, hname⟩ := h.identity x hx
    have hopen := h.opened x hx
    refine ⟨hid, hparent, henteredAt, hname, ?_, ?_, ?_⟩
    · intro t ht
      rw [hopen] at ht
      cases ht
    · rintro - e ⟨⟩
      exact (List.pairwise_append.1 h.messages).2.2 x hx closed (List.mem_singleton.2 rfl)
    · intro hclosed
      rw [hopen] at hclosed
      cases hclosed
  · refine ⟨rfl, rfl, rfl, rfl, fun t ht => ⟨x, rfl, ht⟩, ?_, ?_⟩
    · intro hopen
      have hclosed := h.last
      rw [hopen] at hclosed
      cases hclosed
    · rintro - e ⟨⟩ -
      rfl

/-- A closed copy of the life is the closed copy. -/
theorem Life.Shows.eq_closed {closed x : Scope} (h : (Life.ofClosed closed).Shows x)
    (hx : x.exitedAt.isSome) : x = closed := by
  obtain ⟨t, ht⟩ := Option.isSome_iff_exists.1 hx
  obtain ⟨e, he, het⟩ := h.exitedAt t ht
  obtain rfl := Option.some.inj he
  have hmessages := h.after hx closed rfl rfl
  obtain ⟨hid, hparent, henteredAt, hname, -, -, -⟩ := h
  obtain ⟨id, parent, enteredAt, name, exitedAt, exitMessages⟩ := x
  obtain ⟨id', parent', enteredAt', name', exitedAt', exitMessages'⟩ := closed
  simp only [Life.ofClosed] at hid hparent henteredAt hname ht het hmessages
  rw [hid, hparent, henteredAt, hname, ht, het, hmessages]

/-! ## Merging -/

section
variable {l : Life} {base : List Scope} (hbase : ∀ s ∈ base, s.id ≠ l.scope.id)
include hbase

/-- A copy of the life is merged with the one that is there. -/
theorem addScope_shows {b : RunBuilder} (hb : b.WF) {m x : Scope} (hm : l.Shows m)
    (hscopes : b.run.scopes = base ++ [m]) (hx : l.Shows x) :
    ∃ b', b.addScope x = .ok (b', none) ∧ b'.WF ∧
      b'.run = { b.run with scopes := base ++ [m.merge x] } := by
  obtain ⟨b', hadd, hwf, hrun, -⟩ := RunBuilder.addScope_ok hb x
  have hmx : m.id = x.id := hm.id.trans hx.id.symm
  have hne : ∀ s ∈ base, s.id ≠ x.id := fun s hs => hx.id ▸ hbase s hs
  have hnone : (base ++ [m]).any (fun s => s.id = x.id && s.conflicts x) = false := by
    rw [List.any_eq_false]
    intro s hs
    rcases List.mem_append.1 hs with hs | hs
    · simp [hne s hs]
    · rw [List.mem_singleton.1 hs, hm.agrees hx]
      simp
  have habsorb : absorbScope (base ++ [m]) x = base ++ [m.merge x] := by
    rw [absorbScope, if_pos (by simp [hmx]), updateFirst_split (by simpa using hmx)
      (by simpa using hne), hm.agrees hx]
    rfl
  rw [hscopes, hnone] at hadd
  rw [hscopes, habsorb] at hrun
  exact ⟨b', hadd, hwf, hrun⟩

/-- **Merging copies of the life** makes one, which is closed if any of them is. -/
theorem addScopes_shows {fed : List Scope} (hfed : ∀ x ∈ fed, l.Shows x) {b : RunBuilder}
    (hb : b.WF) {m : Scope} (hm : l.Shows m) (hscopes : b.run.scopes = base ++ [m]) :
    ∃ b' m', b.addScopes fed = .ok (b', List.replicate fed.length none) ∧
      b'.run = { b.run with scopes := base ++ [m'] } ∧ l.Shows m' ∧
      ((m.exitedAt.isSome ∨ ∃ x ∈ fed, x.exitedAt.isSome) → m'.exitedAt.isSome) := by
  induction fed generalizing b m with
  | nil =>
    refine ⟨b, m, rfl, by rw [← hscopes], hm, ?_⟩
    rintro (hclosed | ⟨x, hx, -⟩)
    · exact hclosed
    · cases hx
  | cons x fed ih =>
    obtain ⟨hx, hfed⟩ := List.forall_mem_cons.1 hfed
    obtain ⟨b₁, hadd, hwf, hrun⟩ := addScope_shows hbase hb hm hscopes hx
    obtain ⟨b', m', hrest, hrun', hm', hclosed⟩ :=
      ih hfed hwf (hm.merge hx) (by rw [hrun])
    refine ⟨b', m', addScopes_cons hadd hrest, by rw [hrun', hrun], hm', ?_⟩
    rintro (hmclosed | ⟨y, hy, hyclosed⟩)
    · exact hclosed (.inl (by rw [Life.merge_isSome, hmclosed, Bool.true_or]))
    · rcases List.mem_cons.1 hy with rfl | hy
      · exact hclosed (.inl (by rw [Life.merge_isSome, hyclosed, Bool.or_true]))
      · exact hclosed (.inr ⟨y, hy, hyclosed⟩)

end

/-- The first copy is taken as it is. -/
theorem addScope_new {b : RunBuilder} (hb : b.WF) {x : Scope}
    (hnew : ∀ s ∈ b.run.scopes, s.id ≠ x.id) :
    ∃ b', b.addScope x = .ok (b', none) ∧ b'.WF ∧
      b'.run = { b.run with scopes := b.run.scopes ++ [x] } := by
  obtain ⟨b', hadd, hwf, hrun, -⟩ := RunBuilder.addScope_ok hb x
  have hnone : b.run.scopes.any (fun s => s.id = x.id && s.conflicts x) = false := by
    rw [List.any_eq_false]
    intro s hs
    simp [hnew s hs]
  have habsorb : absorbScope b.run.scopes x = b.run.scopes ++ [x] := by
    rw [absorbScope, if_neg (by simpa using hnew)]
  rw [hnone] at hadd
  rw [habsorb] at hrun
  exact ⟨b', hadd, hwf, hrun⟩

/-- **The order of copies is irrelevant**: fed in any order, the copies taken of a
    scope make no conflict, and what they make is the closed copy. -/
theorem merge_in_any_order {b : RunBuilder} (hb : b.WF) {opens : List Scope} {closed : Scope}
    (h : TakenDuring opens closed) (hnew : ∀ s ∈ b.run.scopes, s.id ≠ closed.id) {copies : ℕ}
    (hcopies : 0 < copies) {fed : List Scope}
    (hfed : fed.Perm (opens ++ List.replicate copies closed)) :
    ∃ b', b.addScopes fed = .ok (b', List.replicate fed.length none) ∧
      b'.run = { b.run with scopes := b.run.scopes ++ [closed] } := by
  have hshows : ∀ x ∈ fed, (Life.ofClosed closed).Shows x := by
    intro x hx
    rcases List.mem_append.1 (hfed.mem_iff.1 hx) with hx | hx
    · exact h.shows (.inl hx)
    · exact h.shows (.inr (List.eq_of_mem_replicate hx))
  have hclosed : closed ∈ fed := hfed.mem_iff.2
    (List.mem_append_right _ (List.mem_replicate.2 ⟨hcopies.ne', rfl⟩))
  obtain ⟨x, fed, rfl⟩ := List.exists_cons_of_ne_nil (List.ne_nil_of_mem hclosed)
  obtain ⟨hx, hshows⟩ := List.forall_mem_cons.1 hshows
  obtain ⟨b₁, hadd, hwf, hrun⟩ := addScope_new hb (x := x) (by rw [hx.id]; exact hnew)
  obtain ⟨b', m, hrest, hrun', hm, hmclosed⟩ :=
    addScopes_shows hnew hshows hwf hx (by rw [hrun])
  refine ⟨b', addScopes_cons hadd hrest, ?_⟩
  -- the closed copy is the first one or a later one
  have hm : m = closed := by
    refine hm.eq_closed (hmclosed ?_)
    rcases List.mem_cons.1 hclosed with rfl | hmem
    · exact .inl h.last
    · exact .inr ⟨closed, hmem, h.last⟩
  rw [hrun', hrun, hm]

/-- A copy of a scope for a builder. -/
def copyOf (success failure : Option String) (exitedAt : Option UInt64) : Scope :=
  ⟨⟨3⟩, none, 5, some "job", exitedAt, ⟨success, failure, none⟩⟩

/-- A copy without a message, one with a message, and the closed one twice, in an
    order that is not that of time. -/
theorem merge_in_any_order_shuffled :
    let closed := copyOf (some "done") (some "failed") (some 9)
    ∃ b', (RunBuilder.new (some "run") none).addScopes
        [closed, copyOf (some "almost") none none, closed, copyOf none none none] =
          .ok (b', List.replicate 4 none) ∧ b'.run = ⟨some "run", [], [], [closed], []⟩ := by
  intro closed
  have h : TakenDuring [copyOf none none none, copyOf (some "almost") none none] closed :=
    { last := rfl
      opened := by simp [copyOf]
      identity := by simp [copyOf, closed]
      messages := by simp [copyOf, closed, ExitMessages.Within] }
  have hfed : [closed, copyOf (some "almost") none none, closed, copyOf none none none].Perm
      ([copyOf none none none, copyOf (some "almost") none none] ++ List.replicate 2 closed) := by
    decide
  exact merge_in_any_order (RunBuilder.new_wf _ _) h (by nofun) (by decide) hfed

end Eventline
