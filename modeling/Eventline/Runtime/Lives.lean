/-
  Snapshots of a scope, and what they make when they are merged.

  The runtime hands copies of a scope to the writer at several moments of its
  life, and the copies come to the file in any order.

  * `Life.Shows`: a copy was taken at some moment of the life.  Two such copies
    do not conflict, and their merge shows the life too (`Life.Shows.merge`).
  * `Tracked`: the journal holds what the lives say, closed scopes that were
    trimmed apart.  `Backed`: a copy shows a life, and is not ahead of the journal.
    Each journal section keeps both.
-/
import Eventline.Calls
import Eventline.Replay.Conflicts
import Eventline.Runtime.Enter

namespace Eventline

open Checked Slots

/-! ## Messages -/

namespace ExitMessages

/-- The messages that are set in `a` are set in `b`. -/
def Within (a b : ExitMessages) : Prop :=
  (a.success.isSome → b.success.isSome) ∧ (a.failure.isSome → b.failure.isSome) ∧
    (a.aborted.isSome → b.aborted.isSome)

theorem Within.refl (a : ExitMessages) : a.Within a := ⟨id, id, id⟩

theorem Within.trans {a b c : ExitMessages} (h : a.Within b) (h' : b.Within c) : a.Within c :=
  ⟨h'.1 ∘ h.1, h'.2.1 ∘ h.2.1, h'.2.2 ∘ h.2.2⟩

theorem within_overlay (a msgs : ExitMessages) : a.Within (a.overlay msgs) := by
  have hor : ∀ x y : Option String, y.isSome → (x.or y).isSome := by
    intro x y hy
    simp [hy]
  exact ⟨hor _ _, hor _ _, hor _ _⟩

theorem Within.overlay {a b c : ExitMessages} (h : a.Within c) (h' : b.Within c) :
    (a.overlay b).Within c := by
  have hor : ∀ x y z : Option String, (x.isSome → z.isSome) → (y.isSome → z.isSome) →
      (y.or x).isSome → z.isSome := by
    intro x y z hx hy hyx
    rw [Option.isSome_or, Bool.or_eq_true] at hyx
    exact hyx.elim hy hx
  exact ⟨hor _ _ _ h.1 h'.1, hor _ _ _ h.2.1 h'.2.1, hor _ _ _ h.2.2 h'.2.2⟩

/-- Messages that set whatever is set replace it. -/
theorem overlay_of_within {a b : ExitMessages} (h : a.Within b) : a.overlay b = b := by
  have hor : ∀ x y : Option String, (x.isSome → y.isSome) → y.or x = y := by
    intro x y hxy
    cases y with
    | some v => rfl
    | none =>
      cases x with
      | none => rfl
      | some v => cases hxy rfl
  obtain ⟨s, f, a⟩ := b
  rw [overlay, hor _ _ h.1, hor _ _ h.2.1, hor _ _ h.2.2]

end ExitMessages

/-! ## Copies of a scope -/

namespace Life

/-- The copy was taken at some moment of the life. -/
structure Shows (l : Life) (x : Scope) : Prop where
  id : x.id = l.scope.id
  parent : x.parent = l.scope.parent
  enteredAt : x.enteredAt = l.scope.enteredAt
  name : x.name = l.scope.name
  exitedAt : ∀ t, x.exitedAt = some t → ∃ e, l.exited = some e ∧ e.exitedAt = some t
  before : x.exitedAt = none → ∀ e, l.exited = some e → x.exitMessages.Within e.exitMessages
  after : x.exitedAt.isSome → ∀ e, l.exited = some e → l.changed = false →
    x.exitMessages = e.exitMessages

/-- What a reader is to get of a life. -/
structure Restored (l : Life) (x : Scope) : Prop where
  id : x.id = l.scope.id
  parent : x.parent = l.scope.parent
  enteredAt : x.enteredAt = l.scope.enteredAt
  name : x.name = l.scope.name
  exitedAt : x.exitedAt = l.exited.bind (·.exitedAt)
  exitMessages : ∀ e, l.exited = some e → l.changed = false → x.exitMessages = e.exitMessages

variable {l : Life} {x y : Scope}

/-- **Copies of one life do not conflict.** -/
theorem Shows.agrees (hx : l.Shows x) (hy : l.Shows y) : x.conflicts y = false := by
  unfold Scope.conflicts
  rw [hx.parent, hy.parent, hx.enteredAt, hy.enteredAt, hx.name, hy.name]
  simp only [ne_eq, not_true_eq_false, decide_false, Bool.false_or]
  cases hxe : x.exitedAt with
  | none => rfl
  | some a =>
    cases hye : y.exitedAt with
    | none => rfl
    | some b =>
      obtain ⟨e, he, hea⟩ := hx.exitedAt a hxe
      obtain ⟨e', he', heb⟩ := hy.exitedAt b hye
      obtain rfl := Option.some.inj (he.symm.trans he')
      simpa using Option.some.inj (hea.symm.trans heb)

@[simp] theorem merge_isSome (x y : Scope) :
    (x.merge y).exitedAt.isSome = (x.exitedAt.isSome || y.exitedAt.isSome) := by
  simp [Scope.merge]

/-- **The merge of two copies** is such a copy: the messages at the exit replace
    those that were seen before it. -/
theorem Shows.merge (hx : l.Shows x) (hy : l.Shows y) : l.Shows (x.merge y) := by
  refine ⟨hx.id, hx.parent, hx.enteredAt, hx.name, ?_, ?_, ?_⟩
  · intro t ht
    rcases Option.or_eq_some_iff.1 ht with hxt | ⟨-, hyt⟩
    · exact hx.exitedAt t hxt
    · exact hy.exitedAt t hyt
  · intro hopen e he
    obtain ⟨hxo, hyo⟩ := Option.or_eq_none_iff.1 hopen
    have hmsgs : (x.merge y).exitMessages = x.exitMessages.overlay y.exitMessages := by
      simp [Scope.merge, hxo]
    rw [hmsgs]
    exact (hx.before hxo e he).overlay (hy.before hyo e he)
  · intro hclosed e he hsame
    cases hxe : x.exitedAt with
    | none =>
      have hye : y.exitedAt.isSome = true := by simpa [hxe] using hclosed
      have hmsgs : (x.merge y).exitMessages = x.exitMessages.overlay y.exitMessages := by
        simp [Scope.merge, hxe]
      rw [hmsgs, hy.after hye e he hsame]
      exact ExitMessages.overlay_of_within (hx.before hxe e he)
    | some t =>
      have hxs := hx.after (by rw [hxe]; rfl) e he hsame
      cases hye : y.exitedAt with
      | none =>
        -- the older copy is ignored
        have hmsgs : (x.merge y).exitMessages = x.exitMessages := by
          simp [Scope.merge, hxe, hye]
        rw [hmsgs, hxs]
      | some u =>
        have hmsgs : (x.merge y).exitMessages = x.exitMessages.overlay y.exitMessages := by
          simp [Scope.merge, hye]
        rw [hmsgs, hxs, hy.after (by rw [hye]; rfl) e he hsame]
        exact ExitMessages.overlay_of_within (.refl _)

/-- A copy taken after the exit is all there is to know. -/
theorem Shows.restored (h : l.Shows x) (hclosed : l.exited.isSome → x.exitedAt.isSome) :
    l.Restored x := by
  refine ⟨h.id, h.parent, h.enteredAt, h.name, ?_, ?_⟩
  · cases he : l.exited with
    | none =>
      cases hx : x.exitedAt with
      | none => rfl
      | some t =>
        obtain ⟨e, he', -⟩ := h.exitedAt t hx
        rw [he] at he'
        cases he'
    | some e =>
      obtain ⟨t, ht⟩ := Option.isSome_iff_exists.1 (hclosed (by rw [he]; rfl))
      obtain ⟨e', he', het⟩ := h.exitedAt t ht
      obtain rfl := Option.some.inj (he.symm.trans he')
      rw [ht, Option.bind_some, het]
  · intro e he hsame
    exact h.after (hclosed (by rw [he]; rfl)) e he hsame

/-! What happens to a life -/

@[simp] theorem exit_id (scope : Scope) (l : Life) : (l.exit scope).scope = l.scope := by
  unfold Life.exit
  split_ifs <;> rfl

theorem exit_of_eq {scope : Scope} (h : l.scope.id = scope.id) :
    l.exit scope = { l with exited := some scope } :=
  if_pos h

theorem exit_of_ne {scope : Scope} (h : l.scope.id ≠ scope.id) : l.exit scope = l :=
  if_neg h

@[simp] theorem setMessages_scope (id : ScopeId) (msgs : ExitMessages) (l : Life) :
    (l.setMessages id msgs).scope = l.scope := by
  unfold Life.setMessages
  split_ifs <;> rfl

@[simp] theorem setMessages_exited (id : ScopeId) (msgs : ExitMessages) (l : Life) :
    (l.setMessages id msgs).exited = l.exited := by
  unfold Life.setMessages
  split_ifs <;> rfl

/-- A copy of an open life is open. -/
theorem Shows.exitedAt_none (h : l.Shows x) (hopen : l.exited = none) : x.exitedAt = none := by
  by_contra hne
  obtain ⟨t, ht⟩ := Option.ne_none_iff_exists'.1 hne
  obtain ⟨e, he, -⟩ := h.exitedAt t ht
  rw [hopen] at he
  cases he

/-- A life that ends shows its last copy. -/
theorem Shows.exit (h : l.Shows x) (t : UInt64) :
    Life.Shows { l with exited := some { x with exitedAt := some t } }
      { x with exitedAt := some t } where
  id := h.id
  parent := h.parent
  enteredAt := h.enteredAt
  name := h.name
  exitedAt u hu := ⟨_, rfl, hu⟩
  before hnone := nomatch hnone
  after := by
    rintro - e ⟨⟩ -
    rfl

/-- A life that ends still shows the older copies, when their messages are within
    those of the exit. -/
theorem Shows.exit_of_within (h : l.Shows x) (hopen : x.exitedAt = none) {e : Scope}
    (hwithin : x.exitMessages.Within e.exitMessages) :
    Life.Shows { l with exited := some e } x where
  id := h.id
  parent := h.parent
  enteredAt := h.enteredAt
  name := h.name
  exitedAt u hu := by
    rw [hopen] at hu
    cases hu
  before := by
    rintro - e ⟨⟩
    exact hwithin
  after hclosed := by
    rw [hopen] at hclosed
    cases hclosed

/-- A life whose messages change shows the copies that it showed. -/
theorem Shows.setMessages (h : l.Shows x) (id : ScopeId) (msgs : ExitMessages) :
    (l.setMessages id msgs).Shows x := by
  refine ⟨by simpa using h.id, by simpa using h.parent, by simpa using h.enteredAt,
    by simpa using h.name, by simpa using h.exitedAt, by simpa using h.before, ?_⟩
  intro hclosed e hle hsame
  rw [setMessages_exited] at hle
  refine h.after hclosed e hle ?_
  unfold Life.setMessages at hsame
  split_ifs at hsame
  · exact (Bool.or_eq_false_iff.1 hsame).1
  · exact hsame

/-- The copy with the new messages shows the life that they are set in. -/
theorem Shows.overlay (h : l.Shows x) {id : ScopeId} (hid : l.scope.id = id)
    (hexited : x.exitedAt.isSome = l.exited.isSome) (msgs : ExitMessages) :
    (l.setMessages id msgs).Shows { x with exitMessages := x.exitMessages.overlay msgs } := by
  have hold := h.setMessages id msgs
  refine ⟨hold.id, hold.parent, hold.enteredAt, hold.name, hold.exitedAt, ?_, ?_⟩
  · intro hopen e hle
    have hxopen : x.exitedAt = none := hopen
    rw [setMessages_exited] at hle
    rw [hxopen, hle] at hexited
    cases hexited
  · -- the messages of the exit are there, and stay if the life is unchanged
    intro hclosed e hle hsame
    rw [setMessages_exited] at hle
    rw [Life.setMessages, if_pos hid, hle] at hsame
    obtain ⟨hsame, hmsgs⟩ := Bool.or_eq_false_iff.1 hsame
    have hover : e.exitMessages.overlay msgs = e.exitMessages := by simpa using hmsgs
    show x.exitMessages.overlay msgs = e.exitMessages
    rw [h.after hclosed e hle hsame, hover]

end Life

/-! ## The journal and the lives -/

/-- The journal holds the lives: every scope that is open, and of the closed
    ones those that no trim has evicted. -/
structure Tracked (j : Journal) (lives : List Life) : Prop where
  wf : j.WF
  nodup : (j.retained.map (·.scope.id)).Nodup
  next : j.nextScopeId = UInt64.ofNat lives.length
  ids : (lives.map (·.scope.id)).Nodup
  idsBefore : ∀ l ∈ lives, l.scope.id.n.toNat < lives.length
  parents : ∀ l ∈ lives, ∀ p, l.scope.parent = some p →
    p.n < l.scope.id.n ∧ ∃ l' ∈ lives, l'.scope.id = p
  closed : ∀ l ∈ lives, ∀ e, l.exited = some e → e.exitedAt.isSome
  held : ∀ b ∈ j.retained, ∃ l ∈ lives, l.Shows b.scope ∧ Scopes.isClosed b = l.exited.isSome
  opens : ∀ l ∈ lives, l.exited = none → ∃ b ∈ j.retained, b.scope.id = l.scope.id

/-- The copy shows a life, and its messages are set in the journal too while the
    scope is open. -/
def Backed (j : Journal) (lives : List Life) (x : Scope) : Prop :=
  ∃ l ∈ lives, l.Shows x ∧ ∀ b ∈ j.retained, b.scope.id = x.id → Scopes.isClosed b = false →
    x.exitMessages.Within b.scope.exitMessages

/-- An exit closes the entry of the open scope as `scope`, and the others stay. -/
structure Exits (j j' : Journal) (ms : UInt64) (scope : Scope) : Prop where
  entry : ∃ b ∈ j.retained, Scopes.isClosed b = false ∧
    scope = { b.scope with exitedAt := some ms }
  wf : j'.WF
  next : j'.nextScopeId = j.nextScopeId
  ids : j'.retained.map (fun b => b.scope.id) = j.retained.map fun b => b.scope.id
  old : ∀ b ∈ j'.retained, b.scope.id ≠ scope.id → b ∈ j.retained
  new : ∀ b ∈ j'.retained, b.scope.id = scope.id → b.scope = scope

namespace Exits

variable {j j' : Journal} {ms : UInt64} {scope : Scope} (h : Exits j j' ms scope)
include h

theorem exitedAt : scope.exitedAt = some ms := by
  obtain ⟨b, -, -, hscope⟩ := h.entry
  rw [hscope]

theorem isSome : scope.exitedAt.isSome = true := by
  rw [h.exitedAt]
  rfl

theorem isClosed {b : BufferedScope} (hb : b ∈ j'.retained) (hid : b.scope.id = scope.id) :
    Scopes.isClosed b = true := by
  rw [Scopes.isClosed, h.new b hb hid]
  exact h.isSome

end Exits

theorem new_tracked (runId : String) : Tracked (.new runId) [] where
  wf := Journal.new_wf runId
  nodup := .nil
  next := rfl
  ids := .nil
  idsBefore _ h := by cases h
  parents _ h := by cases h
  closed _ h := by cases h
  held _ h := by cases h
  opens _ h := by cases h

section
variable {j j' : Journal} {lives : List Life} (h : Tracked j lives)
include h

/-- There is one life of an id. -/
theorem Tracked.life_unique {l l' : Life} (hl : l ∈ lives) (hl' : l' ∈ lives)
    (hid : l.scope.id = l'.scope.id) : l = l' :=
  List.inj_on_of_nodup_map h.ids hl hl' hid

theorem Tracked.entry_unique {b b' : BufferedScope} (hb : b ∈ j.retained) (hb' : b' ∈ j.retained)
    (hid : b.scope.id = b'.scope.id) : b = b' :=
  List.inj_on_of_nodup_map h.nodup hb hb' hid

/-- What the journal holds is backed. -/
theorem Tracked.backed {b : BufferedScope} (hb : b ∈ j.retained) : Backed j lives b.scope := by
  obtain ⟨l, hl, hshows, -⟩ := h.held b hb
  refine ⟨l, hl, hshows, ?_⟩
  intro b' hb' hid _
  rw [h.entry_unique hb' hb hid]
  exact .refl _

/-- A lookup finds a copy that is backed, or nothing. -/
theorem Tracked.backed_of_find {id : ScopeId} {x : Scope}
    (hx : (j.scopes.find? fun s => s.id = id) = some x) : x.id = id ∧ Backed j lives x := by
  refine ⟨by simpa using List.find?_some hx, ?_⟩
  obtain ⟨b, hb, rfl⟩ := List.mem_map.1 (List.mem_of_find?_eq_some hx)
  exact h.backed hb

/-- The scope of an open life is found. -/
theorem Tracked.lookup {l : Life} (hl : l ∈ lives) (hopen : l.exited = none) :
    ∃ x, j.getScope l.scope.id = .ok (some x) := by
  obtain ⟨b, hb, hid⟩ := h.opens l hl hopen
  obtain ⟨x, hx⟩ : ∃ x, (j.scopes.find? fun s => s.id = l.scope.id) = some x := by
    rw [← Option.isSome_iff_exists, List.find?_isSome]
    exact ⟨b.scope, List.mem_map.2 ⟨b, hb, rfl⟩, by simpa using hid⟩
  exact ⟨x, by rw [Journal.getScope_ok h.wf, hx]⟩

/-- Lives and entries change, and their ids stay. -/
theorem Tracked.map {f : Life → Life} (hf : ∀ l, (f l).scope = l.scope) (hwf : j'.WF)
    (hids : j'.retained.map (fun b => b.scope.id) = j.retained.map fun b => b.scope.id)
    (hnext : j'.nextScopeId = j.nextScopeId)
    (hclosed : ∀ l ∈ lives, ∀ e, (f l).exited = some e → e.exitedAt.isSome)
    (hheld : ∀ b ∈ j'.retained, ∃ l ∈ lives, (f l).Shows b.scope ∧
      Scopes.isClosed b = (f l).exited.isSome)
    (hopens : ∀ l ∈ lives, (f l).exited = none → l.exited = none) :
    Tracked j' (lives.map f) := by
  have hscopes : (lives.map f).map (·.scope.id) = lives.map (·.scope.id) := by
    simp [Function.comp_def, hf]
  refine ⟨hwf, ?_, ?_, ?_, ?_, ?_, ?_, ?_, ?_⟩
  · rw [hids]
    exact h.nodup
  · rw [hnext, h.next, List.length_map]
  · rw [hscopes]
    exact h.ids
  · intro l' hl'
    obtain ⟨l, hl, rfl⟩ := List.mem_map.1 hl'
    rw [hf, List.length_map]
    exact h.idsBefore l hl
  · intro l' hl' p hp
    obtain ⟨l, hl, rfl⟩ := List.mem_map.1 hl'
    rw [hf] at hp ⊢
    obtain ⟨hlt, l', hl', hid⟩ := h.parents l hl p hp
    exact ⟨hlt, _, List.mem_map_of_mem hl', by rw [hf, hid]⟩
  · intro l' hl' e hle
    obtain ⟨l, hl, rfl⟩ := List.mem_map.1 hl'
    exact hclosed l hl e hle
  · intro b hb
    obtain ⟨l, hl, hshows, hexited⟩ := hheld b hb
    exact ⟨f l, List.mem_map_of_mem hl, hshows, hexited⟩
  · intro l' hl' hopen
    obtain ⟨l, hl, rfl⟩ := List.mem_map.1 hl'
    obtain ⟨b, hb, hid⟩ := h.opens l hl (hopens l hl hopen)
    have hmem : b.scope.id ∈ j'.retained.map fun b => b.scope.id := by
      rw [hids]
      exact List.mem_map.2 ⟨b, hb, rfl⟩
    obtain ⟨b', hb', hid'⟩ := List.mem_map.1 hmem
    exact ⟨b', hb', by rw [hid', hid, hf]⟩

/-- The scopes of the journal are as they were. -/
theorem Tracked.congr (hwf : j'.WF) (hret : j'.retained = j.retained)
    (hnext : j'.nextScopeId = j.nextScopeId) :
    Tracked j' lives ∧ ∀ x, Backed j lives x → Backed j' lives x := by
  refine ⟨⟨hwf, hret ▸ h.nodup, hnext ▸ h.next, h.ids, h.idsBefore, h.parents, h.closed,
    hret ▸ h.held, hret ▸ h.opens⟩, ?_⟩
  rintro x ⟨l, hl, hshows, hwithin⟩
  exact ⟨l, hl, hshows, hret ▸ hwithin⟩

/-- **Entering** starts a life. -/
theorem Tracked.enter (hn : lives.length < 2 ^ 64) {name : Option String} {parent : Option ScopeId}
    {t : Instant} {ms : UInt64} {id : ScopeId}
    (hp : ∀ p, parent = some p → ∃ l ∈ lives, l.scope.id = p)
    (he : j.pushScope name parent t ms = .ok (j', id)) :
    Tracked j' (lives ++ [⟨⟨id, parent, ms, name, none, .none⟩, none, false⟩]) ∧
      (∀ x, Backed j lives x →
        Backed j' (lives ++ [⟨⟨id, parent, ms, name, none, .none⟩, none, false⟩]) x) ∧
      ∀ l ∈ lives, l.scope.id ≠ id := by
  obtain ⟨hwf, hid, hret, -, hnext, -, -, -⟩ := Journal.pushScope_inv h.wf he
  have hidn : id.n.toNat = lives.length := by
    rw [hid, h.next]
    exact UInt64.toNat_ofNat_of_lt' hn
  have hnew : ∀ l ∈ lives, l.scope.id ≠ id := by
    rintro l hl rfl
    exact absurd (h.idsBefore l hl) (by omega)
  have hfresh : ∀ b ∈ j.retained, b.scope.id ≠ id := by
    intro b hb
    obtain ⟨l, hl, hshows, -⟩ := h.held b hb
    rw [hshows.id]
    exact hnew l hl
  have hlen : (lives ++ [(⟨⟨id, parent, ms, name, none, .none⟩, none, false⟩ : Life)]).length =
      lives.length + 1 := List.length_append
  refine ⟨⟨hwf, ?_, ?_, ?_, ?_, ?_, ?_, ?_, ?_⟩, ?_, hnew⟩
  · rw [hret, List.map_append, List.nodup_append]
    refine ⟨h.nodup, List.nodup_singleton _, ?_⟩
    rintro x hx y hy rfl
    obtain ⟨b, hb, rfl⟩ := List.mem_map.1 hx
    exact hfresh b hb (List.mem_singleton.1 hy)
  · rw [hnext, h.next, hlen, UInt64.ofNat_add]
    rfl
  · rw [List.map_append, List.nodup_append]
    refine ⟨h.ids, List.nodup_singleton _, ?_⟩
    rintro x hx y hy rfl
    obtain ⟨l, hl, rfl⟩ := List.mem_map.1 hx
    exact hnew l hl (List.mem_singleton.1 hy)
  · intro l hl
    rw [hlen]
    rcases List.mem_append.1 hl with hl | hl
    · exact (h.idsBefore l hl).trans (Nat.lt_succ_self _)
    · rw [List.mem_singleton.1 hl, hidn]
      exact Nat.lt_succ_self _
  · intro l hl p hlp
    rcases List.mem_append.1 hl with hl | hl
    · obtain ⟨hlt, l', hl', hid'⟩ := h.parents l hl p hlp
      exact ⟨hlt, l', List.mem_append_left _ hl', hid'⟩
    · rw [List.mem_singleton.1 hl] at hlp ⊢
      obtain ⟨l', hl', rfl⟩ := hp p hlp
      refine ⟨?_, l', List.mem_append_left _ hl', rfl⟩
      rw [UInt64.lt_iff_toNat_lt, hidn]
      exact h.idsBefore l' hl'
  · intro l hl e hle
    rcases List.mem_append.1 hl with hl | hl
    · exact h.closed l hl e hle
    · rw [List.mem_singleton.1 hl] at hle
      cases hle
  · intro b hb
    rw [hret] at hb
    rcases List.mem_append.1 hb with hb | hb
    · obtain ⟨l, hl, hshows⟩ := h.held b hb
      exact ⟨l, List.mem_append_left _ hl, hshows⟩
    · rw [List.mem_singleton.1 hb]
      refine ⟨⟨⟨id, parent, ms, name, none, .none⟩, none, false⟩, by simp,
        ⟨rfl, rfl, rfl, rfl, ?_, ?_, ?_⟩, rfl⟩
      · rintro t ⟨⟩
      · rintro - e ⟨⟩
      · rintro - e ⟨⟩
  · intro l hl hopen
    rw [hret]
    rcases List.mem_append.1 hl with hl | hl
    · obtain ⟨b, hb, hid'⟩ := h.opens l hl hopen
      exact ⟨b, List.mem_append_left _ hb, hid'⟩
    · rw [List.mem_singleton.1 hl]
      exact ⟨⟨⟨id, parent, ms, name, none, .none⟩, some ⟨t, none⟩⟩, by simp, rfl⟩
  · rintro x ⟨l, hl, hshows, hwithin⟩
    refine ⟨l, List.mem_append_left _ hl, hshows, ?_⟩
    intro b hb hbx hopen
    rw [hret] at hb
    rcases List.mem_append.1 hb with hb | hb
    · exact hwithin b hb hbx hopen
    · rw [List.mem_singleton.1 hb] at hbx
      exact absurd (hshows.id.symm.trans hbx.symm) (hnew l hl)

/-- Closed scopes are evicted. -/
theorem Tracked.evict {n : ℕ} (hwf : j'.WF) (hnext : j'.nextScopeId = j.nextScopeId)
    (hret : j'.retained = dropFirst Scopes.isClosed n j.retained) :
    Tracked j' lives ∧ ∀ x, Backed j lives x → Backed j' lives x := by
  have hsub : ∀ b ∈ j'.retained, b ∈ j.retained := by
    intro b hb
    rw [hret] at hb
    exact (dropFirst_sublist _ _).subset hb
  refine ⟨⟨hwf, ?_, hnext ▸ h.next, h.ids, h.idsBefore, h.parents, h.closed,
    fun b hb => h.held b (hsub b hb), ?_⟩, ?_⟩
  · rw [hret]
    exact h.nodup.sublist ((dropFirst_sublist _ _).map _)
  · intro l hl hopen
    obtain ⟨b, hb, hid⟩ := h.opens l hl hopen
    obtain ⟨l', hl', hshows, hclosed⟩ := h.held b hb
    obtain rfl := h.life_unique hl' hl (hshows.id.symm.trans hid)
    refine ⟨b, ?_, hid⟩
    rw [hret]
    exact mem_dropFirst_of_not hb (by rw [hclosed, hopen]; rfl)
  · rintro x ⟨l, hl, hshows, hwithin⟩
    exact ⟨l, hl, hshows, fun b hb => hwithin b (hsub b hb)⟩

/-- **Trimming** evicts closed scopes. -/
theorem Tracked.trim {max : ℕ} {j₁ : Journal} (hrecords : j.trimRecords max = .ok j₁)
    (hscopes : j₁.trimScopes max = .ok j') :
    Tracked j' lives ∧ ∀ x, Backed j lives x → Backed j' lives x := by
  obtain ⟨records, hok, hr, -⟩ := Journal.trimRecords_ok h.wf max
  rw [hok] at hrecords
  obtain rfl := Except.ok.inj hrecords
  obtain ⟨scopes, hok, hs, hret⟩ := Journal.trimScopes_ok (j := { j with
    buffer := { j.buffer with records } }) ⟨hr, h.wf.scopes⟩ max
  rw [hok] at hscopes
  obtain rfl := Except.ok.inj hscopes
  exact h.evict ⟨hr, hs⟩ rfl hret

/-- **Setting messages** goes beyond what the copies of an open scope have. -/
theorem Tracked.messages {id : ScopeId} {msgs : ExitMessages} {found : Bool}
    (he : j.setScopeExitMessages id msgs = .ok (j', found)) :
    Tracked j' (if found then lives.map (.setMessages id msgs) else lives) ∧
      ∀ x, Backed j lives x →
        Backed j' (if found then lives.map (.setMessages id msgs) else lives) x := by
  have hfound := Journal.setScopeExitMessages_found h.wf he
  obtain ⟨scopes, found', hok, hs, hret⟩ := Journal.setScopeExitMessages_ok h.wf id msgs
  rw [hok] at he
  obtain ⟨rfl, rfl⟩ := Prod.mk.inj (Except.ok.inj he)
  have hret' : Journal.retained { j with buffer := { j.buffer with scopes } } =
      updateFirst (Scopes.hasId id) (·.setMessages msgs) j.retained := hret
  cases found' with
  | false =>
    refine h.congr ⟨h.wf.records, hs⟩ ?_ rfl
    rw [hret', updateFirst_of_none]
    simpa using hfound.symm
  | true =>
    have hids := map_updateFirst_of_eq (p := Scopes.hasId id) (f := (·.setMessages msgs))
      (e := fun b => b.scope.id) (fun _ => rfl) j.retained
    rw [if_pos rfl]
    refine ⟨h.map (Life.setMessages_scope id msgs) ⟨h.wf.records, hs⟩ (by rw [hret', hids]) rfl
      ?_ ?_ ?_, ?_⟩
    · intro l hl e hle
      rw [Life.setMessages_exited] at hle
      exact h.closed l hl e hle
    · intro b' hb'
      rw [hret'] at hb'
      rcases mem_updateFirst hb' with hb | ⟨b, hb, hbid, rfl⟩
      · obtain ⟨l, hl, hshows, hclosed⟩ := h.held b' hb
        exact ⟨l, hl, hshows.setMessages id msgs, by simpa using hclosed⟩
      · obtain ⟨l, hl, hshows, hclosed⟩ := h.held b hb
        have hlid : l.scope.id = id := hshows.id.symm.trans (by simpa [Scopes.hasId] using hbid)
        exact ⟨l, hl, hshows.overlay hlid hclosed msgs, hclosed.trans (by simp)⟩
    · intro l hl hopen
      rwa [Life.setMessages_exited] at hopen
    · rintro x ⟨l, hl, hshows, hwithin⟩
      refine ⟨_, List.mem_map_of_mem hl, hshows.setMessages id msgs, ?_⟩
      intro b' hb' hbx hopen
      rw [hret'] at hb'
      rcases mem_updateFirst hb' with hb | ⟨b, hb, -, rfl⟩
      · exact hwithin b' hb hbx hopen
      · exact (hwithin b hb hbx hopen).trans (ExitMessages.within_overlay _ _)

/-- The exit closes the entry of the open scope. -/
theorem Tracked.exits {id : ScopeId} {outcome : Outcome} {t : Instant} {ms ns : UInt64}
    {rid : RecordId} {record : Record} {scope : Scope}
    (he : j.exitScopeNoWrite id outcome t ms ns = .ok (j', rid, some (record, scope))) :
    scope.id = id ∧ Exits j j' ms scope := by
  obtain ⟨hwf, -, -, hnext, -, -, hret, hcase⟩ := Journal.exitScopeNoWrite_inv h.wf he
  cases hx : (j.retained.find? (Scopes.hasId id)).bind (Scopes.exitOf ms t) with
  | none =>
    rw [hx] at hcase
    cases hcase.1
  | some closed =>
    rw [hx] at hcase
    obtain ⟨record', hpayload, -, -, -⟩ := hcase
    obtain ⟨-, hscope⟩ := Prod.mk.inj (Option.some.inj hpayload)
    obtain ⟨b, hb, hexit⟩ := Option.bind_eq_some_iff.1 hx
    obtain ⟨hopen, rfl⟩ := Journal.exitOf_eq_some hexit
    have hbid : b.scope.id = id := by simpa [Scopes.hasId] using List.find?_some hb
    rw [Scopes.close_scope] at hscope
    have hsid : scope.id = id := by rw [hscope]; exact hbid
    have hids := Journal.forall₂_updates_ids
      (Journal.updateFirst_updates (p := Scopes.hasId id) (Journal.closeIfOpen_updates ms t) j.retained)
    rw [List.map_map, List.map_map] at hids
    refine ⟨hsid, ⟨b, List.mem_of_find?_eq_some hb, hopen, hscope⟩, hwf, hnext, ?_, ?_, ?_⟩
    · rw [hret]
      exact hids
    · -- the entry that changed has the id
      intro b' hb' hid
      rw [hret] at hb'
      rcases mem_updateFirst hb' with hb' | ⟨a, -, haid, rfl⟩
      · exact hb'
      · refine absurd ?_ hid
        rw [(Journal.closeIfOpen_updates ms t a).1, hsid]
        simpa [Scopes.hasId] using haid
    · intro b' hb' hid
      rw [hret] at hb'
      obtain ⟨c, hc, rfl⟩ := Journal.eq_of_exit h.nodup hb' (hid.trans hsid)
      obtain rfl := Option.some.inj (hb.symm.trans hc)
      rw [Scopes.closeIfOpen, if_neg (by rw [hopen]; exact Bool.false_ne_true), Scopes.close_scope,
        hscope]

section
variable {ms : UInt64} {scope : Scope} (he : Exits j j' ms scope)
include he

/-- The life that ends, and its last copy. -/
theorem Tracked.ends : ∃ l ∈ lives, l.scope.id = scope.id ∧ l.exited = none ∧
    ∃ b ∈ j.retained, Scopes.isClosed b = false ∧ l.Shows b.scope ∧
      scope = { b.scope with exitedAt := some ms } := by
  obtain ⟨b, hb, hopen, hscope⟩ := he.entry
  obtain ⟨l, hl, hshows, hclosed⟩ := h.held b hb
  refine ⟨l, hl, ?_, ?_, b, hb, hopen, hshows, hscope⟩
  · rw [hscope]
    exact hshows.id.symm
  · rw [hopen] at hclosed
    simpa using hclosed.symm

/-- The scope shows the life that it ended. -/
theorem Tracked.shows_exit {l : Life} (hl : l ∈ lives) (hid : l.scope.id = scope.id) :
    (l.exit scope).Shows scope := by
  obtain ⟨l₀, hl₀, hid₀, -, b, -, -, hshows, hscope⟩ := h.ends he
  rw [h.life_unique hl hl₀ (hid.trans hid₀.symm), Life.exit_of_eq hid₀, hscope]
  exact hshows.exit ms

/-- The journal holds the lives after the exit. -/
theorem Tracked.after_exit : Tracked j' (lives.map (.exit scope)) := by
  refine h.map (Life.exit_id scope) he.wf he.ids he.next ?_ ?_ ?_
  · intro l hl e hle
    by_cases hid : l.scope.id = scope.id
    · rw [Life.exit_of_eq hid] at hle
      obtain rfl := Option.some.inj hle
      exact he.isSome
    · rw [Life.exit_of_ne hid] at hle
      exact h.closed l hl e hle
  · intro b hb
    by_cases hid : b.scope.id = scope.id
    · obtain ⟨l, hl, hlid, -⟩ := h.ends he
      refine ⟨l, hl, ?_, ?_⟩
      · rw [he.new b hb hid]
        exact h.shows_exit he hl hlid
      · rw [Scopes.isClosed, he.new b hb hid, he.isSome, Life.exit_of_eq hlid]
        rfl
    · obtain ⟨l, hl, hshows, hclosed⟩ := h.held b (he.old b hb hid)
      refine ⟨l, hl, ?_⟩
      rw [Life.exit_of_ne (hshows.id ▸ hid)]
      exact ⟨hshows, hclosed⟩
  · intro l hl hopen
    by_cases hid : l.scope.id = scope.id
    · rw [Life.exit_of_eq hid] at hopen
      cases hopen
    · rwa [Life.exit_of_ne hid] at hopen

/-- An older copy is backed after the exit: its messages are within those of the exit. -/
theorem Tracked.backed_exit {x : Scope} (hx : Backed j lives x) :
    Backed j' (lives.map (.exit scope)) x := by
  obtain ⟨l, hl, hshows, hwithin⟩ := hx
  by_cases hid : l.scope.id = scope.id
  · obtain ⟨l₀, hl₀, hid₀, hopen₀, b, hb, hopen, hshows₀, hscope⟩ := h.ends he
    obtain rfl := h.life_unique hl hl₀ (hid.trans hid₀.symm)
    have hmsgs : scope.exitMessages = b.scope.exitMessages := by rw [hscope]
    refine ⟨l.exit scope, List.mem_map_of_mem hl, ?_, ?_⟩
    · rw [Life.exit_of_eq hid]
      refine hshows.exit_of_within (hshows.exitedAt_none hopen₀) ?_
      rw [hmsgs]
      exact hwithin b hb (hshows₀.id.trans hshows.id.symm) hopen
    · intro b' hb' hb'x hb'open
      rw [he.isClosed hb' (hb'x.trans (hshows.id.trans hid))] at hb'open
      cases hb'open
  · refine ⟨l.exit scope, List.mem_map_of_mem hl, by rwa [Life.exit_of_ne hid], ?_⟩
    intro b hb hbx hopen
    exact hwithin b (he.old b hb (by rw [hbx, hshows.id]; exact hid)) hbx hopen

/-- The copy that the exit hands over is backed. -/
theorem Tracked.backed_exited : Backed j' (lives.map (.exit scope)) scope := by
  obtain ⟨l, hl, hid, -⟩ := h.ends he
  refine ⟨l.exit scope, List.mem_map_of_mem hl, h.shows_exit he hl hid, ?_⟩
  intro b hb hbid hopen
  rw [he.isClosed hb hbid] at hopen
  cases hopen

end

/-- **Exiting** ends the life of the open scope with the id; its copy is backed. -/
theorem Tracked.exit {id : ScopeId} {outcome : Outcome} {t : Instant} {ms ns : UInt64}
    {rid : RecordId} {record : Record} {scope : Scope}
    (he : j.exitScopeNoWrite id outcome t ms ns = .ok (j', rid, some (record, scope))) :
    Tracked j' (lives.map (.exit scope)) ∧
      (∀ x, Backed j lives x → Backed j' (lives.map (.exit scope)) x) ∧
      Backed j' (lives.map (.exit scope)) scope ∧ scope.id = id ∧ scope.exitedAt = some ms ∧
      ∃ l ∈ lives, l.scope.id = id ∧ l.exited = none := by
  obtain ⟨rfl, hexits⟩ := h.exits he
  obtain ⟨l, hl, hid, hopen, -⟩ := h.ends hexits
  exact ⟨h.after_exit hexits, fun _ => h.backed_exit hexits, h.backed_exited hexits, rfl,
    hexits.exitedAt, l, hl, hid, hopen⟩

end

end Eventline
