/-
  Vacant slots of the scope storage stay bounded.

  Evicting a scope behind an open one leaves a vacant slot.  Only `trim` makes
  such slots, and it ends by removing those at the front and, if they outnumber
  the scopes, all of them.

  * `Scopes.Trimmed`: what the slots are directly after a trim.
  * `Scopes.Bounded`: what they are in every state; every write keeps it.
  * `vacant_slots_bounded`: both, for every run from the empty storage.
-/
import Eventline.Buffer.Scopes
import Eventline.Lib.Machine

namespace Eventline

open Checked Slots

/-- A write to the storage, under the write lock. -/
inductive StorageOp where
  | push (entry : BufferedScope)
  | finalize (id : ScopeId) (millis : UInt64) (now : Instant)
  | setMessages (id : ScopeId) (msgs : ExitMessages)
  | trim (max : ℕ)
  | clear

namespace Scopes

/-- The storage after a write that returns. -/
def operate (s : Scopes) : StorageOp → Option Scopes
  | .push entry => (s.push entry).toOption
  | .finalize id millis now => (s.finalizeScopeExitAt id millis now).toOption.map Prod.fst
  | .setMessages id msgs => (s.setScopeExitMessages id msgs).toOption.map Prod.fst
  | .trim max => (s.trim max).toOption
  | .clear => some s.clear

/-- Directly after a trim: of more than 64 slots at most half are vacant, and
    the front slot is occupied. -/
structure Trimmed (s : Scopes) : Prop where
  slots : s.entries.length ≤ max 64 (2 * s.len)
  front : s.entries ≠ [] → ∃ b later, s.entries = some b :: later

/-- At most 63 slots are vacant, or at most as many as there are scopes. -/
structure Bounded (s : Scopes) : Prop where
  wf : s.WF
  len : s.len ≤ s.entries.length
  vacant : s.entries.length - s.len ≤ max 63 s.len

theorem WF.len_le {s : Scopes} (h : s.WF) : s.len ≤ s.entries.length := by
  rw [h.len]
  exact s.retained_length_le

/-! ## Trimming -/

/-- A front slot that is not vacant is occupied. -/
theorem front_of_not_vacant {s : Scopes} (h : s.frontVacant = false) (hne : s.entries ≠ []) :
    ∃ b later, s.entries = some b :: later := by
  obtain ⟨slot, later, hentries⟩ := List.exists_cons_of_ne_nil hne
  cases slot with
  | some b => exact ⟨b, later, hentries⟩
  | none =>
    rw [frontVacant, hentries] at h
    cases h

/-- What `settle` leaves when the vacant slots at the front are gone. -/
theorem settle_trimmed {s t : Scopes} (h : s.WF) (hfront : s.frontVacant = false)
    (hs : s.settle = .ok t) : t.Trimmed := by
  have hle := s.retained_length_le
  have hbound := h.bound
  unfold settle at hs
  split_ifs at hs with hnil hbig
  · have hnil : s.entries = [] := by simpa using hnil
    obtain rfl := Except.ok.inj hs
    refine ⟨?_, fun hne => absurd hnil hne⟩
    rw [hnil]
    exact Nat.zero_le _
  · rw [sub_ok h.len_le, ok_bind] at hs
    split_ifs at hs with hvacant
    · -- compaction leaves occupied slots only
      rw [compact_ok h.len (by omega)] at hs
      obtain rfl := Except.ok.inj hs
      refine ⟨?_, fun hne => ?_⟩
      · simp only [ofEntries, List.length_map, reduceOption_map_some]
        omega
      · cases hretained : s.retained with
        | nil => exact absurd (by simp [ofEntries, hretained]) hne
        | cons b later => exact ⟨b, later.map some, by simp [ofEntries]⟩
    · obtain rfl := Except.ok.inj hs
      exact ⟨by omega, front_of_not_vacant hfront⟩
  · obtain rfl := Except.ok.inj hs
    exact ⟨by omega, front_of_not_vacant hfront⟩

/-- **A trim returns**, and leaves the slots trimmed. -/
theorem trim_trimmed {s : Scopes} (h : s.WF) (max : ℕ) :
    ∃ t, s.trim max = .ok t ∧ t.WF ∧ t.Trimmed := by
  obtain ⟨u, hu, huwf, -⟩ := evictLoop_ok h max
  obtain ⟨v, hv, hvwf, -⟩ := popLoop_ok huwf
  obtain ⟨t, ht, htwf, -⟩ := settle_ok hvwf
  exact ⟨t, by rw [trim, hu, ok_bind, hv, ok_bind, ht], htwf,
    settle_trimmed hvwf (whileM_exit hv) ht⟩

theorem Trimmed.bounded {s : Scopes} (h : s.Trimmed) (hwf : s.WF) : s.Bounded := by
  have hslots := h.slots
  refine ⟨hwf, hwf.len_le, ?_⟩
  by_cases hne : s.entries = []
  · rw [hne, List.length_nil, Nat.zero_sub]
    exact Nat.zero_le _
  · -- the scope in the front slot is one that is held
    obtain ⟨b, later, hentries⟩ := h.front hne
    have hlen : 0 < s.len := by
      rw [hwf.len, retained, hentries, List.reduceOption_cons_of_some, List.length_cons]
      exact Nat.succ_pos _
    omega

/-! ## The other writes -/

/-- Rebasing leaves the storage alone, or leaves no slot vacant. -/
theorem rebase_slots {s t : Scopes} (h : s.WF) (hs : s.rebase = .ok t) :
    t = s ∨ t.entries.length = t.len := by
  have hle := s.retained_length_le
  have hbound := h.bound
  have hcompact : s.compact = .ok t → t.entries.length = t.len := by
    intro hs
    rw [compact_ok h.len (by omega)] at hs
    obtain rfl := Except.ok.inj hs
    simp [ofEntries]
  unfold rebase at hs
  split at hs
  · split_ifs at hs
    · exact .inr (hcompact hs)
    · exact .inl (Except.ok.inj hs).symm
  · exact .inr (hcompact hs)

/-- A push adds an occupied slot to those that rebasing leaves. -/
theorem push_slots {s t : Scopes} {b : BufferedScope} (hp : s.push b = .ok t) :
    ∃ u, s.rebase = .ok u ∧ t.entries = u.entries ++ [some b] ∧ t.len = u.len + 1 := by
  obtain ⟨u, hu, hp⟩ := bind_eq_ok.1 hp
  obtain ⟨key, -, hp⟩ := bind_eq_ok.1 hp
  obtain ⟨byId, -, hp⟩ := bind_eq_ok.1 hp
  obtain ⟨entries, hentries, hp⟩ := bind_eq_ok.1 hp
  obtain ⟨len, hlen, hp⟩ := bind_eq_ok.1 hp
  obtain rfl := Except.ok.inj hp
  unfold pushBack at hentries
  split_ifs at hentries
  unfold add at hlen
  split_ifs at hlen
  exact ⟨u, hu, (Except.ok.inj hentries).symm, (Except.ok.inj hlen).symm⟩

theorem write_slots (s : Scopes) (i : ℕ) (b : BufferedScope) :
    (s.write i b).entries.length = s.entries.length ∧ (s.write i b).len = s.len :=
  ⟨List.length_set, rfl⟩

theorem finalize_slots {s t : Scopes} {id : ScopeId} {millis : UInt64} {now : Instant}
    {result : Option (Scope × Duration)} (hs : s.finalizeScopeExitAt id millis now = .ok (t, result)) :
    t.entries.length = s.entries.length ∧ t.len = s.len := by
  obtain ⟨found, -, hs⟩ := bind_eq_ok.1 hs
  cases found with
  | none =>
    obtain ⟨rfl, -⟩ := Prod.mk.inj (Except.ok.inj hs)
    exact ⟨rfl, rfl⟩
  | some found =>
    obtain ⟨i, b⟩ := found
    dsimp only at hs
    split_ifs at hs
    · obtain ⟨rfl, -⟩ := Prod.mk.inj (Except.ok.inj hs)
      exact ⟨rfl, rfl⟩
    · obtain ⟨position, -, hs⟩ := bind_eq_ok.1 hs
      obtain ⟨rfl, -⟩ := Prod.mk.inj (Except.ok.inj hs)
      exact s.write_slots i _

theorem setMessages_slots {s t : Scopes} {id : ScopeId} {msgs : ExitMessages} {found : Bool}
    (hs : s.setScopeExitMessages id msgs = .ok (t, found)) :
    t.entries.length = s.entries.length ∧ t.len = s.len := by
  obtain ⟨located, -, hs⟩ := bind_eq_ok.1 hs
  cases located with
  | none =>
    obtain ⟨rfl, -⟩ := Prod.mk.inj (Except.ok.inj hs)
    exact ⟨rfl, rfl⟩
  | some located =>
    obtain ⟨i, b⟩ := located
    obtain ⟨rfl, -⟩ := Prod.mk.inj (Except.ok.inj hs)
    exact s.write_slots i _

/-! ## Runs -/

/-- A write in place. -/
theorem Bounded.of_slots {s t : Scopes} (h : s.Bounded) (hwf : t.WF)
    (hslots : t.entries.length = s.entries.length ∧ t.len = s.len) : t.Bounded := by
  refine ⟨hwf, hwf.len_le, ?_⟩
  rw [hslots.1, hslots.2]
  exact h.vacant

/-- **Every write keeps the bound.** -/
theorem Bounded.operate {s t : Scopes} (h : s.Bounded) {op : StorageOp}
    (hs : s.operate op = some t) : t.Bounded := by
  cases op with
  | push b =>
    have hp := toOption_eq_some.1 hs
    obtain ⟨hwf, -⟩ := push_inv h.wf hp
    obtain ⟨u, hu, hentries, hlen⟩ := push_slots hp
    refine ⟨hwf, hwf.len_le, ?_⟩
    rw [hentries, hlen, List.length_append, List.length_singleton]
    rcases rebase_slots h.wf hu with rfl | hfull
    · have hvacant := h.vacant
      omega
    · omega
  | finalize id millis now =>
    obtain ⟨⟨t', result⟩, hf, rfl⟩ := Option.map_eq_some_iff.1 hs
    have hf := toOption_eq_some.1 hf
    obtain ⟨u, hok, hwf, -⟩ := finalizeScopeExitAt_ok h.wf id millis now
    have hslots := finalize_slots hf
    rw [hok] at hf
    obtain ⟨rfl, -⟩ := Prod.mk.inj (Except.ok.inj hf)
    exact h.of_slots hwf hslots
  | setMessages id msgs =>
    obtain ⟨⟨t', found⟩, hf, rfl⟩ := Option.map_eq_some_iff.1 hs
    have hf := toOption_eq_some.1 hf
    obtain ⟨u, hok, hwf, -⟩ := setScopeExitMessages_ok h.wf id msgs
    have hslots := setMessages_slots hf
    rw [hok] at hf
    obtain ⟨rfl, -⟩ := Prod.mk.inj (Except.ok.inj hf)
    exact h.of_slots hwf hslots
  | trim max =>
    obtain ⟨u, hok, hwf, htrimmed⟩ := trim_trimmed h.wf max
    have ht := toOption_eq_some.1 hs
    obtain rfl := Except.ok.inj (hok.symm.trans ht)
    exact htrimmed.bounded hwf
  | clear =>
    obtain rfl := Option.some.inj hs
    exact ⟨empty_wf, le_rfl, Nat.zero_le _⟩

theorem Bounded.of_run {s : Scopes} {ops : List StorageOp}
    (hrun : Machine.run Scopes.operate .empty ops = some s) : s.Bounded :=
  Machine.run_invariant (fun _ _ _ h hs => h.operate hs) hrun
    ⟨empty_wf, le_rfl, Nat.zero_le _⟩

end Scopes

/-- **Vacant slots stay bounded**: in every state that writes lead to, and more
    tightly directly after a trim, which returns in every such state. -/
theorem vacant_slots_bounded {s : Scopes} {ops : List StorageOp}
    (hrun : Machine.run Scopes.operate .empty ops = some s) :
    s.len ≤ s.entries.length ∧ s.entries.length - s.len ≤ max 63 s.len ∧
      ∀ max, ∃ t, s.trim max = .ok t ∧ t.Trimmed := by
  have h := Scopes.Bounded.of_run hrun
  refine ⟨h.len, h.vacant, fun max => ?_⟩
  obtain ⟨t, ht, -, htrimmed⟩ := Scopes.trim_trimmed h.wf max
  exact ⟨t, ht, htrimmed⟩

/-- A scope stays open, and two behind it are closed and evicted. -/
def evictedBehind : List StorageOp :=
  let entry : UInt64 → BufferedScope := fun n => ⟨⟨⟨n⟩, none, 0, none, none, .none⟩, none⟩
  [.push (entry 0), .push (entry 1), .push (entry 2), .finalize ⟨1⟩ 5 0, .finalize ⟨2⟩ 6 0, .trim 0]

theorem vacant_slots_bounded_evicted :
    ∃ s, Machine.run Scopes.operate .empty evictedBehind = some s ∧ s.entries.length = 3 ∧
      s.len = 1 ∧ s.entries.length - s.len ≤ max 63 s.len :=
  ⟨_, rfl, rfl, rfl, (vacant_slots_bounded
    (show Machine.run Scopes.operate .empty evictedBehind = some _ from rfl)).2.1⟩

end Eventline
