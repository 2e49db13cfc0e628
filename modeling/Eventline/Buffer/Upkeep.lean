/-
  What the upkeep of the storage visits.

  The loops of `trim`, `compact` and `build_index` in `journal/buffer.rs` visit
  slots and records.  The functions here count them beside the functions that
  they are about; `Scopes.trimCounted` and `Records.trimCounted` trim and count.

  * `Scopes.credit`, `Records.credit`: what the storage has been paid for.
  * `Scopes.trim_pays`, `Records.trim_pays`: while ids are distinct, a trim
    visits no more than the credit that it uses up.
-/
import Eventline.Buffer.Vacancy
import Eventline.Lib.Counted

namespace Eventline

open Checked Positions Slots

namespace Scopes

/-! ## The slots that are visited -/

/-- `compact` visits every slot, and every occupied one again. -/
def compactVisits (s : Scopes) : ℕ :=
  s.entries.length + (s.entries.filter Option.isSome).length

/-- The overflow check at the head of `Scopes::push`. -/
def rebaseVisits (s : Scopes) : ℕ :=
  match checkedAdd s.base s.entries.length with
  | some key => if key = usizeMax then s.compactVisits else 0
  | none => s.compactVisits

/-- The search for the next scope with the id of the one that is evicted. -/
def scanVisits (s : Scopes) (id : ScopeId) (key : ℕ) (entries : List (Option BufferedScope)) : ℕ :=
  match s.byId id with
  | none => 0
  | some position =>
    if position.count = 1 then 0
    else if position.first = key then
      (entries.findIdx fun c => c.any fun b => b.scope.id = id) + 1
    else 0

/-- One iteration of the first loop of `Scopes::trim`. -/
def evictVisits (s : Scopes) : ℕ :=
  match s.exited with
  | [] => 0
  | key :: _ =>
    match s.entries[key - s.base]?.join with
    | none => 0
    | some entry => 1 + s.scanVisits entry.scope.id key (s.entries.set (key - s.base) none)

/-- The end of `Scopes::trim`. -/
def settleVisits (s : Scopes) : ℕ :=
  if s.entries.isEmpty then 0
  else if 64 < s.entries.length then
    if s.len < s.entries.length - s.len then s.compactVisits else 0
  else 0

/-- `Scopes::trim`, with the slots that it visits. -/
def trimCounted (s : Scopes) (max : ℕ) : Checked (Scopes × ℕ) := do
  let s ← whileM (fun s => max < s.1.exited.length) (counting evictVisits evictFirst)
    s.exited.length (s, 0)
  let s ← whileM (fun s => s.1.frontVacant) (counting (fun _ => 1) popVacant) s.1.entries.length s
  counting settleVisits settle s

def trimVisits (s : Scopes) (max : ℕ) : ℕ := (s.trimCounted max).toOption.elim 0 Prod.snd

/-- Counting apart, it is the trim. -/
theorem map_fst_trimCounted (s : Scopes) (max : ℕ) :
    Prod.fst <$> s.trimCounted max = s.trim max := by
  have hrest : ∀ s : Scopes × ℕ, Prod.fst <$> (do
      let s ← whileM (fun s => s.1.frontVacant) (counting (fun _ => 1) popVacant)
        s.1.entries.length s
      counting settleVisits settle s) =
      (do
        let s ← whileM frontVacant popVacant s.1.entries.length s.1
        s.settle) := by
    intro s
    rw [map_fst_bind settle map_fst_counting, map_fst_whileM (fun _ => 1) popVacant frontVacant]
  rw [trimCounted, trim, map_fst_bind (fun s => do
      let s ← whileM frontVacant popVacant s.entries.length s
      s.settle) hrest,
    map_fst_whileM evictVisits evictFirst fun s : Scopes => max < s.exited.length]

/-! ## What they are paid with -/

/-- No two scopes that are held have one id. -/
def Distinct (s : Scopes) : Prop := (s.retained.map (·.scope.id)).Nodup

/-- Three units for a slot, and one for a scope. -/
def credit (s : Scopes) : ℕ := 3 * s.entries.length + s.len

/-- The key of the next scope. -/
def nextKey (s : Scopes) : ℕ := s.base + s.entries.length

theorem countP_holds (entries : List (Option BufferedScope)) (id : ScopeId) :
    entries.countP (holds key id) = (entries.reduceOption.map (·.scope.id)).count id := by
  induction entries with
  | nil => rfl
  | cons o es ih =>
    cases o with
    | none => simp [holds, key, List.reduceOption_cons_of_none, ih]
    | some b =>
      rw [List.countP_cons, List.reduceOption_cons_of_some, List.map_cons, List.count_cons, ih]
      simp [holds, key]

/-- An id that is held once is not looked for when its scope goes. -/
theorem scanVisits_eq {s : Scopes} (h : s.WF) (hd : s.Distinct) (id : ScopeId) (k : ℕ)
    (entries : List (Option BufferedScope)) : s.scanVisits id k entries = 0 := by
  rw [scanVisits, h.byId]
  cases hp : positionOf key s.base s.entries id with
  | none => rfl
  | some p =>
    obtain ⟨pre, e, post, he, -, hid, -, hcount⟩ := positionOf_eq_some hp
    have hle := List.nodup_iff_count_le_one.1 hd id
    have hpos : 0 < s.entries.countP (holds key id) :=
      List.countP_pos_iff.2 ⟨e, by rw [he]; simp, by simpa [holds] using hid⟩
    rw [retained, ← countP_holds] at hle
    exact if_pos (by omega)

theorem evictVisits_le {s : Scopes} (h : s.WF) (hd : s.Distinct) : s.evictVisits ≤ 1 := by
  rw [evictVisits]
  cases s.exited with
  | nil => exact Nat.zero_le 1
  | cons key exited =>
    dsimp only
    cases s.entries[key - s.base]?.join with
    | none => exact Nat.zero_le 1
    | some b =>
      dsimp only
      rw [scanVisits_eq h hd]

theorem evictFirst_slots {s t : Scopes} (hs : s.evictFirst = .ok t) :
    t.base = s.base ∧ t.entries.length = s.entries.length ∧ t.len + 1 = s.len := by
  unfold evictFirst at hs
  cases hexited : s.exited with
  | nil =>
    rw [hexited] at hs
    cases hs
  | cons key exited =>
    rw [hexited] at hs
    obtain ⟨i, -, hs⟩ := bind_eq_ok.1 hs
    obtain ⟨slot, -, hs⟩ := bind_eq_ok.1 hs
    obtain ⟨entry, -, hs⟩ := bind_eq_ok.1 hs
    obtain ⟨len, hlen, hs⟩ := bind_eq_ok.1 hs
    obtain ⟨byId, -, hs⟩ := bind_eq_ok.1 hs
    obtain rfl := Except.ok.inj hs
    unfold sub at hlen
    split_ifs at hlen with hpos
    have hlen := Except.ok.inj hlen
    refine ⟨rfl, List.length_set, ?_⟩
    dsimp only
    omega

/-- The storage is in order, with distinct ids and keys up to `k`. -/
structure Upkept (k : ℕ) (s : Scopes) : Prop where
  wf : s.WF
  distinct : s.Distinct
  keys : s.nextKey ≤ k

theorem evictFirst_pays {k : ℕ} {s t : Scopes} (h : s.Upkept k) (hs : s.evictFirst = .ok t) :
    t.Upkept k ∧ t.credit + s.evictVisits ≤ s.credit := by
  have hne : s.exited ≠ [] := by
    intro hnil
    rw [evictFirst, hnil] at hs
    cases hs
  obtain ⟨u, pre, b, post, hu, hwf, hold, -, -, hnew⟩ := evictFirst_ok h.wf hne
  obtain rfl := Except.ok.inj (hu.symm.trans hs)
  obtain ⟨hbase, hslots, hlen⟩ := evictFirst_slots hs
  have hvisits := evictVisits_le h.wf h.distinct
  have hdistinct : u.Distinct := by
    have hsub : u.retained.Sublist s.retained := by
      rw [hold, hnew]
      exact (List.sublist_cons_self b post).append_left pre
    exact h.distinct.sublist (hsub.map _)
  refine ⟨⟨hwf, hdistinct, ?_⟩, ?_⟩
  · rw [nextKey, hbase, hslots]
    exact h.keys
  · rw [credit, credit, hslots]
    omega

theorem popVacant_pays {k : ℕ} {s t : Scopes} (h : s.Upkept k) (hfront : s.frontVacant = true)
    (hs : s.popVacant = .ok t) : t.Upkept k ∧ t.credit + 1 ≤ s.credit := by
  obtain ⟨es, hes⟩ : ∃ es, s.entries = none :: es := by
    unfold frontVacant at hfront
    cases hentries : s.entries with
    | nil => simp [hentries] at hfront
    | cons o es =>
      cases o with
      | none => exact ⟨es, rfl⟩
      | some b => simp [hentries] at hfront
  obtain ⟨u, hu, hwf, hret, hslots⟩ := popVacant_ok h.wf hes
  obtain rfl := Except.ok.inj (hu.symm.trans hs)
  obtain ⟨base, hbase, hs⟩ := bind_eq_ok.1 hs
  obtain rfl := Except.ok.inj hs
  unfold add at hbase
  split_ifs at hbase
  obtain rfl := Except.ok.inj hbase
  have hkeys := h.keys
  rw [nextKey, hes, List.length_cons] at hkeys
  refine ⟨⟨hwf, ?_, ?_⟩, ?_⟩
  · rw [Distinct, hret]
    exact h.distinct
  · rw [nextKey, hes, List.tail_cons]
    dsimp only
    omega
  · rw [credit, credit, hes, List.tail_cons, List.length_cons]
    dsimp only
    omega

theorem compactVisits_eq {s : Scopes} (h : s.WF) : s.compactVisits = s.entries.length + s.len := by
  rw [compactVisits, filter_isSome_eq, List.length_map, h.len]
  rfl

theorem compact_upkept {k : ℕ} {s t : Scopes} (h : s.Upkept k) (hs : s.compact = .ok t) :
    t.Upkept k ∧ t.credit = 4 * s.len := by
  have hle := s.retained_length_le
  have hkeys := h.keys
  have hbound := h.wf.bound
  unfold nextKey at hkeys
  rw [compact_ok h.wf.len (by omega)] at hs
  obtain rfl := Except.ok.inj hs
  refine ⟨⟨compact_wf (by omega), ?_, ?_⟩, ?_⟩
  · rw [Distinct, retained_ofEntries, reduceOption_map_some]
    exact h.distinct
  · rw [nextKey, ofEntries, List.length_map]
    dsimp only
    omega
  · rw [credit, ofEntries, reduceOption_map_some, List.length_map, h.wf.len]
    dsimp only
    omega

/-- **Compaction at the end of a trim** is paid for by the vacant slots. -/
theorem settle_pays {k : ℕ} {s t : Scopes} (h : s.Upkept k) (hs : s.settle = .ok t) :
    t.Upkept k ∧ t.credit + s.settleVisits ≤ s.credit := by
  have hle := h.wf.len_le
  unfold settleVisits
  unfold settle at hs
  by_cases hnil : s.entries.isEmpty
  · rw [if_pos hnil] at hs ⊢
    obtain ⟨u, hu, hwf, -⟩ := settle_ok h.wf
    rw [settle, if_pos hnil] at hu
    obtain rfl := Except.ok.inj hs
    obtain rfl := Except.ok.inj hu
    refine ⟨⟨hwf, h.distinct, ?_⟩, le_rfl⟩
    have hkeys := h.keys
    unfold nextKey at hkeys ⊢
    dsimp only
    omega
  · rw [if_neg hnil] at hs ⊢
    by_cases hbig : 64 < s.entries.length
    · rw [if_pos hbig, sub_ok hle, ok_bind] at hs
      rw [if_pos hbig]
      by_cases hvacant : s.len < s.entries.length - s.len
      · rw [if_pos hvacant] at hs ⊢
        obtain ⟨hupkept, hcredit⟩ := compact_upkept h hs
        refine ⟨hupkept, ?_⟩
        rw [compactVisits_eq h.wf, hcredit, credit]
        omega
      · rw [if_neg hvacant] at hs ⊢
        obtain rfl := Except.ok.inj hs
        exact ⟨h, le_rfl⟩
    · rw [if_neg hbig] at hs ⊢
      obtain rfl := Except.ok.inj hs
      exact ⟨h, le_rfl⟩

/-- **A trim is paid for.** -/
theorem trimCounted_pays {k : ℕ} {s : Scopes} {t : Scopes × ℕ} {max : ℕ} (h : s.Upkept k)
    (hs : s.trimCounted max = .ok t) : t.1.Upkept k ∧ t.1.credit + t.2 ≤ s.credit := by
  obtain ⟨u, hu, hs⟩ := bind_eq_ok.1 hs
  obtain ⟨v, hv, hs⟩ := bind_eq_ok.1 hs
  have hevict : ∀ s t : Scopes, s.Upkept k → decide (max < s.exited.length) = true →
      s.evictFirst = .ok t → t.Upkept k ∧ t.credit + s.evictVisits ≤ s.credit :=
    fun s t hs _ ht => evictFirst_pays hs ht
  obtain ⟨hku, hcu⟩ := whileM_pays (Upkept k) credit hevict h hu
  obtain ⟨hkv, hcv⟩ := whileM_pays (Upkept k) credit
    (fun s t hs hc ht => popVacant_pays hs hc ht) hku hv
  obtain ⟨hkt, hct⟩ := counting_pays (Upkept k) credit (fun w hw => settle_pays hkv hw) hs
  refine ⟨hkt, ?_⟩
  dsimp only at hcu
  omega

theorem trim_pays {k : ℕ} {s t : Scopes} {max : ℕ} (h : s.Upkept k) (hs : s.trim max = .ok t) :
    t.Upkept k ∧ t.credit + s.trimVisits max ≤ s.credit := by
  rw [← map_fst_trimCounted] at hs
  obtain ⟨u, hu, rfl⟩ := map_eq_ok.1 hs
  rw [trimVisits, hu]
  exact trimCounted_pays h hu

/-! ## The other writes to the scopes -/

/-- **A push pays** four units, and rebases nothing before the keys run out. -/
theorem push_pays {s t : Scopes} {b : BufferedScope} (hroom : s.nextKey < usizeMax)
    (hp : s.push b = .ok t) : t.nextKey = s.nextKey + 1 ∧
      t.credit + s.rebaseVisits = s.credit + 4 := by
  unfold nextKey at hroom
  have hrebase : s.rebase = .ok s := by
    rw [rebase, checkedAdd_eq_some hroom.le]
    exact if_neg hroom.ne
  have hvisits : s.rebaseVisits = 0 := by
    rw [rebaseVisits, checkedAdd_eq_some hroom.le]
    exact if_neg hroom.ne
  rw [push, hrebase, ok_bind] at hp
  obtain ⟨key, -, hp⟩ := bind_eq_ok.1 hp
  obtain ⟨byId, -, hp⟩ := bind_eq_ok.1 hp
  obtain ⟨entries, hentries, hp⟩ := bind_eq_ok.1 hp
  obtain ⟨len, hlen, hp⟩ := bind_eq_ok.1 hp
  obtain rfl := Except.ok.inj hp
  unfold pushBack at hentries
  split_ifs at hentries
  obtain rfl := Except.ok.inj hentries
  unfold add at hlen
  split_ifs at hlen
  obtain rfl := Except.ok.inj hlen
  constructor
  · simp only [nextKey, List.length_append, List.length_singleton]
    omega
  · simp only [credit, hvisits, List.length_append, List.length_singleton]
    omega

/-- A write in place visits nothing and pays nothing. -/
theorem finalize_pays {s t : Scopes} {id : ScopeId} {millis : UInt64} {now : Instant}
    {result : Option (Scope × Duration)} (hs : s.finalizeScopeExitAt id millis now = .ok (t, result)) :
    t.nextKey = s.nextKey ∧ t.credit = s.credit := by
  have hbase : t.base = s.base := by
    obtain ⟨found, -, hs⟩ := bind_eq_ok.1 hs
    cases found with
    | none => exact congrArg (fun out => out.1.base) (Except.ok.inj hs).symm
    | some found =>
      dsimp only at hs
      split_ifs at hs
      · exact congrArg (fun out => out.1.base) (Except.ok.inj hs).symm
      · obtain ⟨position, -, hs⟩ := bind_eq_ok.1 hs
        exact congrArg (fun out => out.1.base) (Except.ok.inj hs).symm
  obtain ⟨hslots, hlen⟩ := finalize_slots hs
  constructor
  · rw [nextKey, nextKey, hbase, hslots]
  · rw [credit, credit, hslots, hlen]

theorem setMessages_pays {s t : Scopes} {id : ScopeId} {msgs : ExitMessages} {found : Bool}
    (hs : s.setScopeExitMessages id msgs = .ok (t, found)) :
    t.nextKey = s.nextKey ∧ t.credit = s.credit := by
  have hbase : t.base = s.base := by
    obtain ⟨located, -, hs⟩ := bind_eq_ok.1 hs
    cases located with
    | none => exact congrArg (fun out => out.1.base) (Except.ok.inj hs).symm
    | some located => exact congrArg (fun out => out.1.base) (Except.ok.inj hs).symm
  obtain ⟨hslots, hlen⟩ := setMessages_slots hs
  constructor
  · rw [nextKey, nextKey, hbase, hslots]
  · rw [credit, credit, hslots, hlen]

end Scopes

namespace Records

/-! ## The records that are visited -/

/-- `reindex` visits every record, if there is an index. -/
def reindexVisits (s : Records) : ℕ := if s.byId.isSome then s.entries.length else 0

/-- The overflow check at the head of `Records::push`. -/
def rebaseVisits (s : Records) : ℕ :=
  match checkedAdd s.base s.entries.length with
  | some key => if key = usizeMax then s.reindexVisits else 0
  | none => s.reindexVisits

/-- The search for the next record with the id of the one that is evicted. -/
def scanVisits (index : RecordId → Option Position) (id : RecordId) (entries : List Record) : ℕ :=
  match index id with
  | none => 0
  | some position =>
    if position.count = 1 then 0 else (entries.findIdx fun r => r.id = id) + 1

/-- One iteration of the loop of `Records::trim`. -/
def popVisits (s : Records) : ℕ :=
  match s.entries with
  | [] => 0
  | record :: entries => 1 + s.byId.elim 0 fun index => scanVisits index record.id entries

/-- `Records::trim`, with the records that it visits. -/
def trimCounted (s : Records) (max : ℕ) : Checked (Records × ℕ) := do
  let s ← whileM (fun s => max < s.1.entries.length) (counting popVisits popFront)
    s.entries.length (s, 0)
  pure (if s.1.entries.isEmpty then { s.1 with base := 0 } else s.1, s.2)

def trimVisits (s : Records) (max : ℕ) : ℕ := (s.trimCounted max).toOption.elim 0 Prod.snd

/-- The first look-up of an id visits every record, to build the index. -/
def lookupVisits (s : Records) : ℕ := if s.byId.isNone then s.entries.length else 0

/-- Both phases of `Buffer::get_record_by_id`. -/
def getRecordById (s : Records) (id : RecordId) : Checked (Records × Option Record) := do
  match ← s.lookupRead id with
  | some record => pure (s, record)
  | none => s.lookupWrite id

/-- Counting apart, it is the trim. -/
theorem map_fst_trimCounted (s : Records) (max : ℕ) :
    Prod.fst <$> s.trimCounted max = s.trim max := by
  have hrest : ∀ s : Records × ℕ, Prod.fst <$> (pure
      (if s.1.entries.isEmpty then { s.1 with base := 0 } else s.1, s.2) : Checked (Records × ℕ)) =
      pure (if s.1.entries.isEmpty then { s.1 with base := 0 } else s.1) := fun _ => rfl
  rw [trimCounted, trim,
    map_fst_bind (fun s => pure (if s.entries.isEmpty then { s with base := 0 } else s)) hrest,
    map_fst_whileM popVisits popFront fun s : Records => max < s.entries.length]

/-! ## What they are paid with -/

/-- One unit for a record, and one for the index that is still to be built. -/
def credit (s : Records) : ℕ := s.entries.length + s.lookupVisits

def nextKey (s : Records) : ℕ := s.base + s.entries.length

structure Upkept (k : ℕ) (s : Records) : Prop where
  wf : s.WF
  distinct : (s.entries.map (·.id)).Nodup
  keys : s.nextKey ≤ k

/-- An id that is held once is not looked for when its record goes. -/
theorem popVisits_le {s : Records} (h : s.WF) (hd : (s.entries.map (·.id)).Nodup) :
    s.popVisits ≤ 1 := by
  rw [popVisits]
  cases hentries : s.entries with
  | nil => exact Nat.zero_le 1
  | cons r es =>
    dsimp only
    cases hindex : s.byId with
    | none => exact le_rfl
    | some index =>
      rw [hentries, List.map_cons, List.nodup_cons] at hd
      have hother : es.countP (holds key r.id) = 0 := by
        rw [List.countP_eq_zero]
        intro x hx hxr
        have hid : x.id = r.id := by simpa [holds, key] using hxr
        exact hd.1 (hid ▸ List.mem_map_of_mem hx)
      have hposition : index r.id = some ⟨s.base, 1⟩ := by
        rw [h.index index hindex, hentries]
        have hsplit : positionOf key s.base ([] ++ r :: es) r.id = _ := positionOf_split rfl (by simp)
        simpa [hother] using hsplit
      rw [Option.elim_some, scanVisits, hposition]
      exact le_rfl

theorem popFront_pays {k : ℕ} {s t : Records} (h : s.Upkept k) (hs : s.popFront = .ok t) :
    t.Upkept k ∧ t.credit + s.popVisits ≤ s.credit := by
  have hvisits := popVisits_le h.wf h.distinct
  obtain ⟨r, es, hentries⟩ : ∃ r es, s.entries = r :: es := by
    cases hl : s.entries with
    | nil =>
      rw [popFront, hl] at hs
      cases hs
    | cons r es => exact ⟨r, es, rfl⟩
  obtain ⟨u, hu, hwf, hes⟩ := popFront_ok h.wf hentries
  obtain rfl := Except.ok.inj (hu.symm.trans hs)
  have hfields : u.base = s.base + 1 ∧ u.byId.isNone = s.byId.isNone := by
    rw [popFront, hentries] at hs
    obtain ⟨base, hbase, hs⟩ := bind_eq_ok.1 hs
    unfold add at hbase
    split_ifs at hbase
    obtain rfl := Except.ok.inj hbase
    cases hindex : s.byId with
    | none =>
      rw [hindex] at hs
      obtain rfl := Except.ok.inj hs
      exact ⟨rfl, rfl⟩
    | some index =>
      rw [hindex] at hs
      obtain ⟨index', -, hs⟩ := bind_eq_ok.1 hs
      obtain rfl := Except.ok.inj hs
      exact ⟨rfl, rfl⟩
  have hkeys := h.keys
  have hdistinct := h.distinct
  rw [hentries, List.map_cons, List.nodup_cons] at hdistinct
  rw [nextKey, hentries, List.length_cons] at hkeys
  refine ⟨⟨hwf, ?_, ?_⟩, ?_⟩
  · rw [hes]
    exact hdistinct.2
  · rw [nextKey, hfields.1, hes]
    omega
  · rw [credit, credit, lookupVisits, lookupVisits, hfields.2, hes, hentries, List.length_cons]
    split_ifs <;> omega

/-- The end of `Records::trim`. -/
theorem Upkept.settle {k : ℕ} {s : Records} (h : s.Upkept k)
    (hwf : (if s.entries.isEmpty then { s with base := 0 } else s : Records).WF) :
    (if s.entries.isEmpty then { s with base := 0 } else s : Records).Upkept k ∧
      (if s.entries.isEmpty then { s with base := 0 } else s : Records).credit = s.credit := by
  have hkeys := h.keys
  split_ifs at hwf ⊢
  · refine ⟨⟨hwf, h.distinct, ?_⟩, rfl⟩
    unfold nextKey at hkeys ⊢
    dsimp only
    omega
  · exact ⟨h, rfl⟩

/-- **A trim is paid for.** -/
theorem trim_pays {k : ℕ} {s t : Records} {max : ℕ} (h : s.Upkept k) (hs : s.trim max = .ok t) :
    t.Upkept k ∧ t.credit + s.trimVisits max ≤ s.credit := by
  obtain ⟨w, hw, hwf, -⟩ := trim_ok h.wf max
  obtain rfl := Except.ok.inj (hw.symm.trans hs)
  rw [← map_fst_trimCounted] at hs
  obtain ⟨⟨u, n⟩, hu, rfl⟩ := map_eq_ok.1 hs
  rw [trimVisits, hu]
  obtain ⟨v, hv, hu⟩ := bind_eq_ok.1 hu
  obtain ⟨rfl, rfl⟩ := Prod.mk.inj (Except.ok.inj hu)
  have hpop : ∀ s t : Records, s.Upkept k → decide (max < s.entries.length) = true →
      s.popFront = .ok t → t.Upkept k ∧ t.credit + s.popVisits ≤ s.credit :=
    fun s t hs _ ht => popFront_pays hs ht
  obtain ⟨hupkept, hcredit⟩ := whileM_pays (Upkept k) credit hpop h hv
  obtain ⟨hsettled, heq⟩ := hupkept.settle hwf
  refine ⟨hsettled, ?_⟩
  show Records.credit _ + v.2 ≤ s.credit
  rw [heq]
  exact hcredit

/-! ## The other accesses to the records -/

/-- **A push pays** two units at most. -/
theorem push_pays {s t : Records} {r : Record} (hroom : s.nextKey < usizeMax)
    (hp : s.push r = .ok t) : t.nextKey = s.nextKey + 1 ∧
      t.credit + s.rebaseVisits ≤ s.credit + 2 := by
  unfold nextKey at hroom
  have hrebase : s.rebase = .ok s := by
    rw [rebase, checkedAdd_eq_some hroom.le]
    exact if_neg hroom.ne
  have hvisits : s.rebaseVisits = 0 := by
    rw [rebaseVisits, checkedAdd_eq_some hroom.le]
    exact if_neg hroom.ne
  rw [push, hrebase, ok_bind] at hp
  obtain ⟨key, -, hp⟩ := bind_eq_ok.1 hp
  obtain ⟨byId, hbyId, hp⟩ := bind_eq_ok.1 hp
  obtain ⟨entries, hentries, hp⟩ := bind_eq_ok.1 hp
  obtain rfl := Except.ok.inj hp
  unfold pushBack at hentries
  split_ifs at hentries
  obtain rfl := Except.ok.inj hentries
  have hindexed : byId.isNone = s.byId.isNone := by
    cases hindex : s.byId with
    | none =>
      rw [hindex] at hbyId
      obtain rfl := Except.ok.inj hbyId
      rfl
    | some index =>
      rw [hindex] at hbyId
      obtain ⟨index', -, rfl⟩ := map_eq_ok.1 hbyId
      rfl
  constructor
  · simp only [nextKey, List.length_append, List.length_singleton]
    omega
  · simp only [credit, lookupVisits, hindexed, hvisits, List.length_append, List.length_singleton]
    split_ifs <;> omega

/-- **A look-up is paid for**, if it has to build the index. -/
theorem getRecordById_pays {k : ℕ} {s t : Records} {id : RecordId} {found : Option Record}
    (h : s.Upkept k) (hs : s.getRecordById id = .ok (t, found)) :
    t.WF ∧ t.entries = s.entries ∧ t.nextKey = s.nextKey ∧ t.credit + s.lookupVisits ≤ s.credit := by
  rw [getRecordById, lookupRead_ok h.wf, ok_bind] at hs
  cases hindex : s.byId with
  | some index =>
    rw [hindex] at hs
    obtain ⟨rfl, -⟩ := Prod.mk.inj (Except.ok.inj hs)
    refine ⟨h.wf, rfl, rfl, ?_⟩
    simp [lookupVisits, hindex]
  | none =>
    rw [hindex] at hs
    have hbuilt : s.ensureIndex = .ok { s with byId := some (positionOf key s.base s.entries) } := by
      rw [ensureIndex, hindex]
      exact buildIndex_ok h.wf.bound
    simp only [Option.map_none, lookupWrite, hbuilt, ok_bind, unwrap_some] at hs
    obtain ⟨entry, -, hs⟩ := bind_eq_ok.1 hs
    obtain ⟨rfl, -⟩ := Prod.mk.inj (Except.ok.inj hs)
    refine ⟨buildIndex_wf h.wf, rfl, rfl, ?_⟩
    simp [credit, lookupVisits, hindex]

end Records

end Eventline
