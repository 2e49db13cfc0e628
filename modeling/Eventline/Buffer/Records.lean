/-
  Record storage (`Records` and the record half of `Buffer` in
  `journal/buffer.rs`).

  The entries are a deque with a logical base; the id index is absent until
  the first look-up and maintained from then on.

  * `Records.WF`: a present index is the one of the retained entries
    (`positionOf`), and the logical keys are representable.
  * `push_ok`, `trim_ok`, `clear_wf`, `buildIndex_ok` and the two phases of
    `get_record_by_id` say what each operation does to the list of entries.
-/
import Eventline.Core
import Eventline.Lib.Checked
import Eventline.Lib.Positions

namespace Eventline

open Checked Positions

/-- `VecDeque::push_back`: a deque holds at most `usize::MAX` entries. -/
def pushBack {α : Type} (es : List α) (e : α) : Checked (List α) :=
  if es.length < usizeMax then .ok (es ++ [e]) else .error .capacityOverflow

/-- `entry(k).and_modify(|p| p.count += 1).or_insert(..)`. -/
def indexKey {K : Type} [DecidableEq K] (index : K → Option Position) (k : K) (pos : ℕ) :
    Checked (K → Option Position) :=
  match index k with
  | some p => do
    let count ← add p.count 1
    pure (Function.update index k (some { p with count }))
  | none => pure (Function.update index k (some ⟨pos, 1⟩))

theorem indexKey_ok {K α : Type} [DecidableEq K] {key : α → Option K} {base : ℕ} {es : List α}
    (h : es.length < usizeMax) (k : K) (pos : ℕ) :
    indexKey (positionOf key base es) k pos = .ok (bump (positionOf key base es) k pos) := by
  cases hp : positionOf key base es k with
  | none => simp [indexKey, bump, hp]
  | some p =>
    obtain ⟨-, -, -, -, -, -, -, hc⟩ := positionOf_eq_some hp
    have hle : p.count ≤ es.length := hc ▸ List.countP_le_length
    simp [indexKey, bump, hp, add_ok (show p.count + 1 ≤ usizeMax by omega)]

structure Records where
  entries : List Record
  /-- the id index, built on the first look-up -/
  byId : Option (RecordId → Option Position)
  base : ℕ

namespace Records

/-- `Records::default()`. -/
def empty : Records := ⟨[], none, 0⟩

/-- One iteration of the loop of `Records::build_index`. -/
def indexEntry (base : ℕ) (index : RecordId → Option Position) (entry : Record × ℕ) :
    Checked (RecordId → Option Position) := do
  let first ← add base entry.2
  indexKey index entry.1.id first

def buildIndex (s : Records) : Checked Records := do
  let index ← s.entries.zipIdx.foldlM (indexEntry s.base) (fun _ => none)
  pure { s with byId := some index }

def reindex (s : Records) : Checked Records :=
  let s := { s with base := 0 }
  if s.byId.isSome then s.buildIndex else pure s

/-- The overflow check at the head of `Records::push`. -/
def rebase (s : Records) : Checked Records :=
  match checkedAdd s.base s.entries.length with
  | some key => if key = usizeMax then s.reindex else pure s
  | none => s.reindex

/-- The index, if built, with one more entry. -/
def indexPush (byId : Option (RecordId → Option Position)) (id : RecordId) (key : ℕ) :
    Checked (Option (RecordId → Option Position)) :=
  match byId with
  | none => pure none
  | some index => some <$> indexKey index id key

def push (s : Records) (record : Record) : Checked Records := do
  let s ← s.rebase
  let key ← add s.base s.entries.length
  let byId ← indexPush s.byId record.id key
  let entries ← pushBack s.entries record
  pure { s with entries, byId }

/-- The index after evicting `record` from the front: the update of `by_id`
    in `Records::trim`, `base` and `entries` being those after the pop. -/
def evictId (index : RecordId → Option Position) (id : RecordId) (base : ℕ)
    (entries : List Record) : Checked (RecordId → Option Position) := do
  let position ← unwrap (index id)
  if position.count = 1 then pure (Function.update index id none)
  else do
    let count ← sub position.count 1
    let i ← unwrap (entries.findIdx? fun r => r.id = id)
    let first ← add base i
    pure (Function.update index id (some ⟨first, count⟩))

/-- One iteration of the loop of `Records::trim`. -/
def popFront (s : Records) : Checked Records :=
  match s.entries with
  | [] => .error .unwrapNone
  | record :: entries => do
    let base ← add s.base 1
    match s.byId with
    | none => pure { entries, byId := none, base }
    | some index => do
      let index ← evictId index record.id base entries
      pure { entries, byId := some index, base }

def trim (s : Records) (max : ℕ) : Checked Records := do
  let s ← whileM (fun s => max < s.entries.length) popFront s.entries.length s
  pure (if s.entries.isEmpty then { s with base := 0 } else s)

/-- The record half of `Buffer::clear`. -/
def clear (s : Records) : Records :=
  { entries := [], byId := s.byId.map fun _ _ => none, base := 0 }

def ensureIndex (s : Records) : Checked Records :=
  if s.byId.isNone then s.buildIndex else pure s

/-- The entry an index leads to. -/
def entryAt (s : Records) (index : RecordId → Option Position) (id : RecordId) :
    Checked (Option Record) :=
  match index id with
  | none => pure none
  | some position => do
    let i ← sub position.first s.base
    pure s.entries[i]?

/-- The read-locked phase of `get_record_by_id`: `none` when the index is
    absent and the write lock has to be taken. -/
def lookupRead (s : Records) (id : RecordId) : Checked (Option (Option Record)) :=
  match s.byId with
  | none => pure none
  | some index => some <$> s.entryAt index id

/-- The write-locked phase of `get_record_by_id`. -/
def lookupWrite (s : Records) (id : RecordId) : Checked (Records × Option Record) := do
  let s ← s.ensureIndex
  let index ← unwrap s.byId
  let entry ← s.entryAt index id
  pure (s, entry)

/-- `Buffer::records_len`. -/
def len (s : Records) : ℕ := s.entries.length

/-- `Buffer::records_snapshot`. -/
def snapshot (s : Records) : List Record := s.entries

/-- `Buffer::get_record`. -/
def getRecord (s : Records) (idx : ℕ) : Option Record := s.entries[idx]?

/-! ## The representation invariant -/

def key (r : Record) : Option RecordId := some r.id

theorem holds_key (id : RecordId) : holds key id = fun r : Record => decide (r.id = id) := by
  funext r; simp [holds, key]

/-- The index is that of the retained entries, and the keys are representable. -/
structure WF (s : Records) : Prop where
  index : ∀ index, s.byId = some index → index = positionOf key s.base s.entries
  bound : s.base + s.entries.length ≤ usizeMax

/-- The storage with the given entries and base, its index built or not. -/
def ofEntries (base : ℕ) (entries : List Record) (indexed : Bool) : Records :=
  { entries, base, byId := if indexed then some (positionOf key base entries) else none }

theorem ofEntries_wf {base : ℕ} {entries : List Record} (indexed : Bool)
    (h : base + entries.length ≤ usizeMax) : (ofEntries base entries indexed).WF := by
  refine ⟨fun index hi => ?_, h⟩
  cases indexed <;> simp [ofEntries] at hi ⊢
  exact hi.symm

theorem empty_wf : empty.WF := ⟨by simp [empty], by simp [empty, usizeMax]⟩

theorem clear_wf (s : Records) : s.clear.WF := by
  refine ⟨fun index hi => ?_, by simp [clear, usizeMax]⟩
  simp only [clear, Option.map_eq_some_iff] at hi
  obtain ⟨-, -, rfl⟩ := hi
  rfl

/-! ## Building the index -/

theorem foldlM_indexEntry (base : ℕ) (es done : List Record)
    (hb : base + (done ++ es).length ≤ usizeMax) :
    (es.zipIdx done.length).foldlM (indexEntry base) (positionOf key base done) =
      .ok (positionOf key base (done ++ es)) := by
  induction es generalizing done with
  | nil => simp
  | cons r es ih =>
    simp only [List.length_append, List.length_cons] at hb
    have hstep : indexEntry base (positionOf key base done) (r, done.length) =
        .ok (positionOf key base (done ++ [r])) := by
      rw [indexEntry, add_ok (by dsimp only; omega), ok_bind, indexKey_ok (by omega),
        positionOf_concat]
      rfl
    rw [List.zipIdx_cons, List.foldlM_cons, hstep, ok_bind]
    simpa using ih (done ++ [r]) (by simp; omega)

theorem buildIndex_ok {s : Records} (h : s.base + s.entries.length ≤ usizeMax) :
    s.buildIndex = .ok { s with byId := some (positionOf key s.base s.entries) } := by
  have := foldlM_indexEntry s.base s.entries [] (by simpa using h)
  rw [List.nil_append, List.length_nil, show positionOf key s.base ([] : List Record) =
    fun _ => none from funext fun _ => rfl] at this
  rw [buildIndex, this]
  rfl

theorem buildIndex_wf {s : Records} (h : s.WF) :
    ({ s with byId := some (positionOf key s.base s.entries) } : Records).WF :=
  ⟨fun _ hi => (Option.some.inj hi).symm, h.bound⟩

theorem reindex_ok {s : Records} (h : s.entries.length ≤ usizeMax) :
    ∃ t, s.reindex = .ok t ∧ t.WF ∧ t.entries = s.entries ∧ t.base = 0 := by
  unfold reindex
  cases hb : s.byId with
  | none => exact ⟨_, rfl, ⟨by simp, by simpa using h⟩, rfl, rfl⟩
  | some index =>
    simp only [Option.isSome_some, if_true]
    rw [buildIndex_ok (by simpa using h)]
    exact ⟨_, rfl, ⟨fun _ hi => (Option.some.inj hi).symm, by simpa using h⟩, rfl, rfl⟩

/-! ## Pushing -/

theorem rebase_ok {s : Records} (h : s.WF) (hroom : s.entries.length < usizeMax) :
    ∃ t, s.rebase = .ok t ∧ t.WF ∧ t.entries = s.entries ∧
      t.base + t.entries.length < usizeMax := by
  rw [rebase, checkedAdd_eq_some h.bound]
  by_cases hmax : s.base + s.entries.length = usizeMax
  · obtain ⟨t, ht, hwf, he, hb⟩ := reindex_ok (s := s) hroom.le
    exact ⟨t, by simpa [hmax] using ht, hwf, he, by rw [he, hb]; omega⟩
  · exact ⟨s, by simp [hmax], h, rfl, by have := h.bound; omega⟩

theorem indexPush_ok {s : Records} (h : s.WF) (hroom : s.entries.length < usizeMax) (r : Record) :
    ∃ byId, indexPush s.byId r.id (s.base + s.entries.length) = .ok byId ∧
      ∀ index, byId = some index → index = positionOf key s.base (s.entries ++ [r]) := by
  cases hi : s.byId with
  | none => exact ⟨none, rfl, by simp⟩
  | some index =>
    refine ⟨some (positionOf key s.base (s.entries ++ [r])), ?_, fun _ h => (Option.some.inj h).symm⟩
    simp only [indexPush, h.index index hi]
    rw [indexKey_ok hroom, positionOf_concat]
    rfl

/-- **Pushing appends**, while there is room for one more entry. -/
theorem push_ok {s : Records} (h : s.WF) (hroom : s.entries.length < usizeMax) (r : Record) :
    ∃ t, s.push r = .ok t ∧ t.WF ∧ t.entries = s.entries ++ [r] := by
  obtain ⟨u, hu, hwf, he, hlt⟩ := rebase_ok h hroom
  obtain ⟨byId, hi, hidx⟩ := indexPush_ok hwf (by omega) r
  refine ⟨⟨u.entries ++ [r], byId, u.base⟩, ?_, ⟨hidx, by simp; omega⟩, by simp [he]⟩
  rw [push, hu, ok_bind, add_ok hlt.le, ok_bind, hi, ok_bind, pushBack, if_pos (by omega)]
  rfl

/-- Without room the push stops with a fault. -/
theorem push_full {s : Records} (h : s.WF) (hfull : ¬ s.entries.length < usizeMax) (r : Record) :
    ∃ e, s.push r = .error e := by
  have hb := h.bound
  obtain ⟨u, hu, -, he, hbase⟩ := reindex_ok (s := s) (by omega)
  have hrebase : s.rebase = .ok u := by
    rw [rebase, checkedAdd_eq_some hb]
    simp [show s.base + s.entries.length = usizeMax by omega, hu]
  rw [push, hrebase, ok_bind, add_ok (by rw [hbase, he]; omega), ok_bind, pushBack,
    if_neg (by rwa [he])]
  cases indexPush u.byId r.id (u.base + u.entries.length) with
  | error e => exact ⟨e, rfl⟩
  | ok byId => exact ⟨.capacityOverflow, rfl⟩

/-- What a push that returns has done. -/
theorem push_inv {s t : Records} (h : s.WF) {r : Record} (hp : s.push r = .ok t) :
    t.WF ∧ t.entries = s.entries ++ [r] := by
  by_cases hroom : s.entries.length < usizeMax
  · obtain ⟨u, hu, hwf, he⟩ := push_ok h hroom r
    rw [hu, Except.ok.injEq] at hp
    exact hp ▸ ⟨hwf, he⟩
  · obtain ⟨e, he⟩ := push_full h hroom r
    rw [he] at hp
    cases hp

/-! ## Trimming -/

theorem evictId_ok {base : ℕ} {r : Record} {es : List Record}
    (hb : base + 1 + es.length ≤ usizeMax) :
    evictId (positionOf key base (r :: es)) r.id (base + 1) es =
      .ok (positionOf key (base + 1) es) := by
  have hpos : positionOf key base (r :: es) r.id = some ⟨base, es.countP (holds key r.id) + 1⟩ := by
    have hsplit : positionOf key base ([] ++ r :: es) r.id = _ := positionOf_split rfl (by simp)
    simpa using hsplit
  have hne : ∀ k, k ≠ r.id → positionOf key base (r :: es) k = positionOf key (base + 1) es k :=
    fun k hk => positionOf_cons_ne base es (by simpa [key] using Ne.symm hk)
  simp only [evictId, hpos, unwrap_some, ok_bind, pure_eq_ok]
  by_cases h1 : es.countP (holds key r.id) = 0
  · simp only [h1, if_true, Except.ok.injEq]
    funext k
    by_cases hk : k = r.id
    · subst hk
      rw [Function.update_self, eq_comm, positionOf_eq_none]
      exact fun x hx hk => List.countP_eq_zero.1 h1 x hx (holds_eq_true.2 hk)
    · rw [Function.update_of_ne hk, hne k hk]
  · simp only [Nat.add_eq_right, h1, if_false]
    have hsome : ∃ i, es.findIdx? (holds key r.id) = some i := by
      rw [← Option.isSome_iff_exists, List.findIdx?_isSome, List.any_eq_true]
      by_contra hno
      exact h1 (List.countP_eq_zero.2 fun x hx hh => hno ⟨x, hx, hh⟩)
    obtain ⟨i, hi⟩ := hsome
    have hlt := (List.findIdx?_eq_some_iff_getElem.1 hi).1
    rw [sub_ok (Nat.le_add_left 1 _), ok_bind, ← holds_key, hi]
    simp only [unwrap_some, ok_bind, add_ok (show base + 1 + i ≤ usizeMax by omega),
      Except.ok.injEq, Nat.add_sub_cancel]
    funext k
    by_cases hk : k = r.id
    · subst hk; simp [positionOf, hi]
    · rw [Function.update_of_ne hk, hne k hk]

theorem popFront_ok {s : Records} (h : s.WF) {r : Record} {es : List Record}
    (he : s.entries = r :: es) :
    ∃ t, s.popFront = .ok t ∧ t.WF ∧ t.entries = es := by
  have hb := h.bound
  rw [he, List.length_cons] at hb
  simp only [popFront, he, add_ok (show s.base + 1 ≤ usizeMax by omega), ok_bind]
  cases hi : s.byId with
  | none => exact ⟨_, rfl, ⟨by simp, by simp; omega⟩, rfl⟩
  | some index =>
    have hidx := h.index index hi
    rw [he] at hidx
    simp only [hidx, evictId_ok (show s.base + 1 + es.length ≤ usizeMax by omega),
      ok_bind]
    exact ⟨_, rfl, ⟨fun _ hi' => (Option.some.inj hi').symm, by simp; omega⟩, rfl⟩

/-- **Trimming keeps the newest entries.** -/
theorem trim_ok {s : Records} (h : s.WF) (max : ℕ) :
    ∃ t, s.trim max = .ok t ∧ t.WF ∧ t.entries = s.entries.drop (s.entries.length - max) := by
  let Inv := fun t : Records => t.WF ∧ ∃ n ≤ s.entries.length - max, t.entries = s.entries.drop n
  obtain ⟨t, ht, ⟨hwf, n, hn, he⟩, hc⟩ := whileM_total
    (fun s : Records => max < s.entries.length) popFront Inv
    (fun t => t.entries.length)
    (fun t ⟨hwf, n, hn, he⟩ hc => by
      obtain ⟨r, es, hcons⟩ : ∃ r es, t.entries = r :: es := by
        cases hl : t.entries with
        | nil => simp [hl] at hc
        | cons r es => exact ⟨r, es, rfl⟩
      obtain ⟨u, hu, huwf, hue⟩ := popFront_ok hwf hcons
      have hlen : max < s.entries.length - n := by simpa [he] using hc
      have hdrop : es = s.entries.drop (n + 1) := by
        rw [← List.drop_drop, ← he, hcons]; rfl
      exact ⟨u, hu, ⟨huwf, n + 1, by omega, by rw [hue, hdrop]⟩, by rw [hue, hcons]; simp⟩)
    s.entries.length s ⟨h, 0, by omega, rfl⟩ le_rfl
  have hn' : n = s.entries.length - max := by
    have : s.entries.length - n ≤ max := by simpa [he] using hc
    omega
  rw [hn'] at he
  simp only [trim, ht, ok_bind, pure_eq_ok, Except.ok.injEq, exists_eq_left']
  split_ifs with hemp
  · have hnil : t.entries = [] := by simpa using hemp
    refine ⟨⟨fun index hi => ?_, by simp [hnil, usizeMax]⟩, he⟩
    rw [hwf.index index hi, hnil]
    rfl
  · exact ⟨hwf, he⟩

/-! ## Look-ups -/

theorem entryAt_ok (s : Records) (id : RecordId) :
    s.entryAt (positionOf key s.base s.entries) id = .ok (s.entries.find? fun r => r.id = id) := by
  rw [entryAt, ← holds_key]
  cases hp : positionOf key s.base s.entries id with
  | none => simp [find?_of_position_none hp]
  | some p =>
    obtain ⟨hle, hget⟩ := getElem?_of_position hp
    simp [sub_ok hle, hget]

/-- With the index built, the first phase answers. -/
theorem lookupRead_ok {s : Records} (h : s.WF) (id : RecordId) :
    s.lookupRead id = .ok (s.byId.map fun _ => s.entries.find? fun r => r.id = id) := by
  cases hi : s.byId with
  | none => simp [lookupRead, hi]
  | some index =>
    simp only [lookupRead, hi, h.index index hi, entryAt_ok]
    rfl

theorem ensureIndex_ok {s : Records} (h : s.WF) :
    ∃ t index, s.ensureIndex = .ok t ∧ t.byId = some index ∧ t.WF ∧ t.entries = s.entries := by
  cases hi : s.byId with
  | none =>
    exact ⟨_, _, by rw [ensureIndex, hi]; exact buildIndex_ok h.bound, rfl, buildIndex_wf h, rfl⟩
  | some index => exact ⟨s, index, by simp [ensureIndex, hi], hi, h, rfl⟩

/-- The second phase answers, and leaves the entries as they are. -/
theorem lookupWrite_ok {s : Records} (h : s.WF) (id : RecordId) :
    ∃ t, s.lookupWrite id = .ok (t, s.entries.find? fun r => r.id = id) ∧ t.WF ∧
      t.entries = s.entries := by
  obtain ⟨t, index, ht, hi, hwf, he⟩ := ensureIndex_ok h
  refine ⟨t, ?_, hwf, he⟩
  rw [lookupWrite, ht, ok_bind, hi, unwrap_some, ok_bind, hwf.index index hi, entryAt_ok, he]
  rfl

end Records

end Eventline
