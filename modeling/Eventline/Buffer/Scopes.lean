/-
  Scope storage (`Scopes` and the scope half of `Buffer` in
  `journal/buffer.rs`).

  The entries are a deque of slots with a logical base.  Evicting a closed
  scope behind an open one leaves a vacant slot; `compact` removes the vacant
  slots.  The index leads from an id to its first key, and `exited` is the
  ordered set of the keys of the closed scopes.

  * `Scopes.WF`: index, closed keys and length are those of the slots
    (`positionOf`, `keysWhere`), and the keys are representable.
  * `Scopes.retained` lists the occupied slots; one lemma for each operation
    (`push_ok`, `get_ok`, `finalizeScopeExitAt_ok`, `setScopeExitMessages_ok`,
    `trim_ok`) says what it does to that list.
-/
import Eventline.Buffer.Records
import Eventline.Lib.Slots

namespace Eventline

open Checked Positions Slots

structure ScopeClock where
  startedAt : Instant
  finished : Option Duration
  deriving DecidableEq, Repr

structure BufferedScope where
  scope : Scope
  /-- absent for scopes pushed as portable metadata -/
  clock : Option ScopeClock
  deriving DecidableEq, Repr

/-- Elapsed time of a scope at an instant and a wall-clock time. -/
def BufferedScope.elapsed (b : BufferedScope) (now : Instant) (millis : UInt64) : Duration :=
  match b.clock with
  | some clock => clock.finished.getD (Instant.saturatingDurationSince now clock.startedAt)
  | none => b.scope.elapsed millis

structure Scopes where
  entries : List (Option BufferedScope)
  byId : ScopeId → Option Position
  /-- the keys of the closed scopes, in increasing order -/
  exited : List ℕ
  base : ℕ
  len : ℕ

namespace Scopes

/-- `Scopes::default()`. -/
def empty : Scopes := ⟨[], fun _ => none, [], 0, 0⟩

/-- One iteration of the loop of `Scopes::compact`. -/
def indexEntry (acc : (ScopeId → Option Position) × List ℕ) (entry : Option BufferedScope × ℕ) :
    Checked ((ScopeId → Option Position) × List ℕ) := do
  let b ← unwrap entry.1
  let byId ← indexKey acc.1 b.scope.id entry.2
  pure (byId, if b.scope.exitedAt.isSome then insertKey entry.2 acc.2 else acc.2)

def compact (s : Scopes) : Checked Scopes := do
  let entries := s.entries.filter Option.isSome
  let (byId, exited) ← entries.zipIdx.foldlM indexEntry (fun _ => none, [])
  pure { s with entries, base := 0, byId, exited }

/-- The overflow check at the head of `Scopes::push`. -/
def rebase (s : Scopes) : Checked Scopes :=
  match checkedAdd s.base s.entries.length with
  | some key => if key = usizeMax then s.compact else pure s
  | none => s.compact

def push (s : Scopes) (entry : BufferedScope) : Checked Scopes := do
  let s ← s.rebase
  let key ← add s.base s.entries.length
  let byId ← indexKey s.byId entry.scope.id key
  let entries ← pushBack s.entries (some entry)
  let len ← add s.len 1
  pure { s with
    entries, byId, len
    exited := if entry.scope.exitedAt.isSome then insertKey key s.exited else s.exited }

/-- The slot and the entry that an id leads to (`get`, `get_mut`). -/
def locate (s : Scopes) (id : ScopeId) : Checked (Option (ℕ × BufferedScope)) :=
  match s.byId id with
  | none => pure none
  | some position => do
    let i ← sub position.first s.base
    pure ((s.entries[i]?).join.map fun b => (i, b))

def get (s : Scopes) (id : ScopeId) : Checked (Option BufferedScope) := do
  let found ← s.locate id
  pure (found.map Prod.snd)

/-- A write through the reference `get_mut` returned. -/
def write (s : Scopes) (i : ℕ) (b : BufferedScope) : Scopes :=
  { s with entries := s.entries.set i (some b) }

/-- The index after vacating the slot with key `key`: the update of `by_id` in
    `Scopes::trim`, `entries` being those with the slot vacated. -/
def evictId (s : Scopes) (id : ScopeId) (key : ℕ) (entries : List (Option BufferedScope)) :
    Checked (ScopeId → Option Position) := do
  let position ← unwrap (s.byId id)
  if position.count = 1 then pure (Function.update s.byId id none)
  else do
    let count ← sub position.count 1
    if position.first = key then do
      let i ← unwrap (entries.findIdx? fun c => c.any fun b => b.scope.id = id)
      let first ← add s.base i
      pure (Function.update s.byId id (some ⟨first, count⟩))
    else pure (Function.update s.byId id (some ⟨position.first, count⟩))

/-- One iteration of the first loop of `Scopes::trim`. -/
def evictFirst (s : Scopes) : Checked Scopes :=
  match s.exited with
  | [] => .error .unwrapNone
  | key :: exited => do
    let i ← sub key s.base
    let slot ← index s.entries i
    let entry ← unwrap slot
    let entries := s.entries.set i none
    let len ← sub s.len 1
    let byId ← s.evictId entry.scope.id key entries
    pure { s with entries, byId, exited, len }

/-- One iteration of the second loop of `Scopes::trim`. -/
def popVacant (s : Scopes) : Checked Scopes := do
  let base ← add s.base 1
  pure { s with entries := s.entries.tail, base }

def frontVacant (s : Scopes) : Bool := s.entries.head?.any Option.isNone

/-- The end of `Scopes::trim`: vacant slots must not outnumber the scopes. -/
def settle (s : Scopes) : Checked Scopes :=
  if s.entries.isEmpty then pure { s with base := 0 }
  else if 64 < s.entries.length then do
    let vacant ← sub s.entries.length s.len
    if s.len < vacant then s.compact else pure s
  else pure s

def trim (s : Scopes) (max : ℕ) : Checked Scopes := do
  let s ← whileM (fun s => max < s.exited.length) evictFirst s.exited.length s
  let s ← whileM frontVacant popVacant s.entries.length s
  s.settle

/-- The scope half of `Buffer::clear`. -/
def clear (_ : Scopes) : Scopes := empty

/-- `Buffer::get_scope`. -/
def getScope (s : Scopes) (idx : ℕ) : Option Scope :=
  let entry := if s.len = s.entries.length then (s.entries[idx]?).join
    else (s.entries.filterMap id)[idx]?
  entry.map (·.scope)

/-- `Buffer::get_scope_by_id`. -/
def getScopeById (s : Scopes) (id : ScopeId) : Checked (Option Scope) := do
  let entry ← s.get id
  pure (entry.map (·.scope))

/-- `Buffer::get_scope_elapsed`. -/
def getScopeElapsed (s : Scopes) (id : ScopeId) (now : Instant) (millis : UInt64) :
    Checked (Option Duration) := do
  let entry ← s.get id
  pure (entry.map fun b => b.elapsed now millis)

/-- `Buffer::scopes_snapshot`. -/
def snapshot (s : Scopes) : List Scope := (s.entries.filterMap id).map (·.scope)

end Scopes

/-- The entry with the given messages overlaid. -/
def BufferedScope.setMessages (msgs : ExitMessages) (b : BufferedScope) : BufferedScope :=
  { b with scope := { b.scope with exitMessages := b.scope.exitMessages.overlay msgs } }

/-- The entry closed at the given times, and the duration that
    `finalize_scope_exit_at` returns with it. -/
def BufferedScope.close (millis : UInt64) (now : Instant) (b : BufferedScope) :
    BufferedScope × Duration :=
  let scope := { b.scope with exitedAt := some millis }
  match b.clock with
  | some clock =>
    let duration := Instant.saturatingDurationSince now clock.startedAt
    (⟨scope, some { clock with finished := some duration }⟩, duration)
  | none => (⟨scope, none⟩, scope.elapsed millis)

namespace Scopes

/-- `Buffer::set_scope_exit_messages`. -/
def setScopeExitMessages (s : Scopes) (id : ScopeId) (msgs : ExitMessages) :
    Checked (Scopes × Bool) := do
  match ← s.locate id with
  | none => pure (s, false)
  | some (i, b) => pure (s.write i (b.setMessages msgs), true)

/-- `Buffer::finalize_scope_exit_at`. -/
def finalizeScopeExitAt (s : Scopes) (id : ScopeId) (millis : UInt64) (now : Instant) :
    Checked (Scopes × Option (Scope × Duration)) := do
  match ← s.locate id with
  | none => pure (s, none)
  | some (i, b) =>
    if b.scope.exitedAt.isSome then pure (s, none)
    else do
      let closed := b.close millis now
      let s := s.write i closed.1
      let position ← unwrap (s.byId id)
      pure ({ s with exited := insertKey position.first s.exited }, some (closed.1.scope, closed.2))

/-! ## The representation invariant -/

def key (slot : Option BufferedScope) : Option ScopeId := slot.map (·.scope.id)

def closed (slot : Option BufferedScope) : Bool := slot.any (·.scope.exitedAt.isSome)

/-- The scopes held, in insertion order. -/
def retained (s : Scopes) : List BufferedScope := s.entries.reduceOption

def isClosed (b : BufferedScope) : Bool := b.scope.exitedAt.isSome

def hasId (id : ScopeId) (b : BufferedScope) : Bool := b.scope.id = id

/-- Index, closed keys and length are those of the slots. -/
structure WF (s : Scopes) : Prop where
  byId : s.byId = positionOf key s.base s.entries
  exited : s.exited = keysWhere closed s.base s.entries
  len : s.len = s.retained.length
  bound : s.base + s.entries.length ≤ usizeMax

/-- The storage with the given slots and base. -/
def ofEntries (base : ℕ) (entries : List (Option BufferedScope)) : Scopes where
  entries := entries
  byId := positionOf key base entries
  exited := keysWhere closed base entries
  base := base
  len := entries.reduceOption.length

theorem ofEntries_wf {base : ℕ} {entries : List (Option BufferedScope)}
    (h : base + entries.length ≤ usizeMax) : (ofEntries base entries).WF :=
  ⟨rfl, rfl, rfl, h⟩

theorem empty_wf : empty.WF := ⟨rfl, rfl, rfl, by simp [empty, usizeMax]⟩

@[simp] theorem retained_ofEntries (base : ℕ) (entries : List (Option BufferedScope)) :
    (ofEntries base entries).retained = entries.reduceOption := rfl

theorem retained_length_le (s : Scopes) : s.retained.length ≤ s.entries.length :=
  List.reduceOption_length_le _

theorem countP_closed (entries : List (Option BufferedScope)) :
    entries.countP closed = entries.reduceOption.countP isClosed := by
  induction entries with
  | nil => rfl
  | cons o es ih =>
    cases o with
    | none => simp [closed, List.reduceOption_cons_of_none, ih]
    | some b => rw [List.countP_cons, List.reduceOption_cons_of_some, List.countP_cons, ih]; rfl

theorem WF.exited_length {s : Scopes} (h : s.WF) : s.exited.length = s.retained.countP isClosed := by
  rw [h.exited, length_keysWhere, countP_closed]
  rfl

theorem holds_key (id : ScopeId) :
    holds key id = fun c : Option BufferedScope => c.any fun b => b.scope.id = id := by
  funext c; cases c <;> simp [holds, key]

/-! ## Compaction -/

theorem foldlM_indexEntry (bs done : List BufferedScope)
    (hb : (done ++ bs).length ≤ usizeMax) :
    ((bs.map some).zipIdx done.length).foldlM indexEntry
        (positionOf key 0 (done.map some), keysWhere closed 0 (done.map some)) =
      .ok (positionOf key 0 ((done ++ bs).map some), keysWhere closed 0 ((done ++ bs).map some)) := by
  induction bs generalizing done with
  | nil => simp
  | cons b bs ih =>
    simp only [List.length_append, List.length_cons] at hb
    have hstep : indexEntry (positionOf key 0 (done.map some), keysWhere closed 0 (done.map some))
        (some b, done.length) =
        .ok (positionOf key 0 ((done ++ [b]).map some), keysWhere closed 0 ((done ++ [b]).map some)) := by
      rw [indexEntry, unwrap_some, ok_bind, indexKey_ok (by simp; omega), List.map_append,
        List.map_singleton, positionOf_concat, keysWhere_concat]
      simp [key, closed]
    rw [List.map_cons, List.zipIdx_cons, List.foldlM_cons, hstep, ok_bind]
    simpa using ih (done ++ [b]) (by simp; omega)

/-- **Compaction removes the vacant slots** and rebuilds the indexes. -/
theorem compact_ok {s : Scopes} (hl : s.len = s.retained.length)
    (hb : s.retained.length ≤ usizeMax) :
    s.compact = .ok (ofEntries 0 (s.retained.map some)) := by
  have hfold := foldlM_indexEntry s.retained [] (by simpa using hb)
  simp only [List.length_nil, List.map_nil, List.nil_append] at hfold
  rw [compact, filter_isSome_eq]
  simp only [retained] at hfold hl
  rw [show ((fun _ => none, []) : (ScopeId → Option Position) × List ℕ) =
    (positionOf key 0 [], keysWhere closed 0 []) from rfl, hfold, ok_bind]
  simp [ofEntries, retained, hl]

theorem compact_wf {s : Scopes} (hb : s.retained.length ≤ usizeMax) :
    (ofEntries 0 (s.retained.map some)).WF := ofEntries_wf (by simpa using hb)

/-! ## Pushing -/

theorem rebase_ok {s : Scopes} (h : s.WF) (hroom : s.retained.length < usizeMax) :
    ∃ t, s.rebase = .ok t ∧ t.WF ∧ t.retained = s.retained ∧
      t.base + t.entries.length < usizeMax := by
  rw [rebase, checkedAdd_eq_some h.bound]
  by_cases hmax : s.base + s.entries.length = usizeMax
  · refine ⟨_, by simpa [hmax] using compact_ok h.len hroom.le, compact_wf hroom.le, by simp, ?_⟩
    simpa [ofEntries] using hroom
  · exact ⟨s, by simp [hmax], h, rfl, by have := h.bound; omega⟩

theorem concat_wf {s : Scopes} (hlt : s.base + s.entries.length < usizeMax)
    (b : BufferedScope) : (ofEntries s.base (s.entries ++ [some b])).WF :=
  ofEntries_wf (by simp; omega)

/-- **Pushing appends**, while there is room for one more scope. -/
theorem push_ok {s : Scopes} (h : s.WF) (hroom : s.retained.length < usizeMax)
    (b : BufferedScope) :
    ∃ t, s.push b = .ok t ∧ t.WF ∧ t.retained = s.retained ++ [b] := by
  obtain ⟨u, hu, hwf, he, hlt⟩ := rebase_ok h hroom
  refine ⟨_, ?_, concat_wf hlt b, ?_⟩
  · have hle := u.retained_length_le
    rw [push, hu, ok_bind, add_ok hlt.le, ok_bind, hwf.byId, indexKey_ok (by omega), ok_bind,
      pushBack, if_pos (by omega), ok_bind, hwf.len, add_ok (by omega), ok_bind, pure_eq_ok,
      Except.ok.injEq, ofEntries, positionOf_concat, keysWhere_concat, hwf.exited]
    simp [key, closed, List.reduceOption_append, retained]
    rfl
  · simp only [retained_ofEntries, List.reduceOption_append, ← he]
    rfl

/-- Without room the push stops with a fault. -/
theorem push_full {s : Scopes} (h : s.WF) (hfull : ¬ s.retained.length < usizeMax)
    (b : BufferedScope) : ∃ e, s.push b = .error e := by
  have hb := h.bound
  have hle := s.retained_length_le
  have hrebase : s.rebase = .ok (ofEntries 0 (s.retained.map some)) := by
    rw [rebase, checkedAdd_eq_some hb]
    simpa [show s.base + s.entries.length = usizeMax by omega] using compact_ok h.len (by omega)
  have hlen : (ofEntries 0 (s.retained.map some)).entries.length = s.retained.length := by
    simp [ofEntries]
  rw [push, hrebase, ok_bind, hlen, add_ok (by simp [ofEntries]; omega), ok_bind, pushBack,
    if_neg (by rwa [hlen])]
  generalize indexKey (ofEntries 0 (s.retained.map some)).byId b.scope.id _ = r
  cases r with
  | error e => exact ⟨e, rfl⟩
  | ok byId => exact ⟨.capacityOverflow, rfl⟩

/-- What a push that returns has done. -/
theorem push_inv {s t : Scopes} (h : s.WF) {b : BufferedScope} (hp : s.push b = .ok t) :
    t.WF ∧ t.retained = s.retained ++ [b] := by
  by_cases hroom : s.retained.length < usizeMax
  · obtain ⟨u, hu, hwf, he⟩ := push_ok h hroom b
    rw [hu, Except.ok.injEq] at hp
    exact hp ▸ ⟨hwf, he⟩
  · obtain ⟨e, he⟩ := push_full h hroom b
    rw [he] at hp
    cases hp

/-! ## Look-ups -/

/-- An id leads to the slot of the first scope with it, or nowhere. -/
theorem locate_cases {s : Scopes} (h : s.WF) (id : ScopeId) :
    (s.locate id = .ok none ∧ ∀ b ∈ s.retained, hasId id b = false) ∨
    ∃ pre b post count, s.entries = pre ++ some b :: post ∧ hasId id b = true ∧
      (∀ x ∈ pre.reduceOption, hasId id x = false) ∧
      s.byId id = some ⟨s.base + pre.length, count⟩ ∧
      s.locate id = .ok (some (pre.length, b)) := by
  cases hp : positionOf key s.base s.entries id with
  | none =>
    refine .inl ⟨by simp [locate, h.byId, hp], fun b hb => ?_⟩
    simpa [key, hasId] using positionOf_eq_none.1 hp (some b) (mem_reduceOption.1 hb)
  | some p =>
    obtain ⟨pre, e, post, he, hf, hk, hpre, -⟩ := positionOf_eq_some hp
    cases e with
    | none => simp [key] at hk
    | some b =>
      refine .inr ⟨pre, b, post, p.count, he, by simpa [key, hasId] using hk, fun x hx => ?_, ?_, ?_⟩
      · simpa [key, hasId] using hpre (some x) (mem_reduceOption.1 hx)
      · rw [h.byId, hp, ← hf]
      · rw [locate, h.byId, hp]
        simp [hf, sub_ok (Nat.le_add_right _ _), he]

theorem get_ok {s : Scopes} (h : s.WF) (id : ScopeId) :
    s.get id = .ok (s.retained.find? (hasId id)) := by
  rcases locate_cases h id with ⟨hl, hno⟩ | ⟨pre, b, post, -, he, hb, hpre, -, hl⟩
  · rw [get, hl, ok_bind, List.find?_eq_none.2 (by simpa using hno)]
    rfl
  · have hnone : pre.reduceOption.find? (hasId id) = none := List.find?_eq_none.2 (by simpa using hpre)
    rw [get, hl, ok_bind, retained, he, reduceOption_slot, List.find?_append, hnone,
      List.find?_cons, hb]
    rfl

/-- Positional access reads the retained scopes. -/
theorem getScope_eq {s : Scopes} (h : s.WF) (idx : ℕ) :
    s.getScope idx = (s.retained[idx]?).map (·.scope) := by
  unfold getScope
  split_ifs with hfull
  · have hmap := eq_map_some (l := s.entries) (by rw [h.len] at hfull; exact hfull)
    rw [hmap, List.getElem?_map]
    simp only [retained]
    cases s.entries.reduceOption[idx]? <;> rfl
  · rfl

theorem getScopeById_ok {s : Scopes} (h : s.WF) (id : ScopeId) :
    s.getScopeById id = .ok ((s.retained.find? (hasId id)).map (·.scope)) := by
  rw [getScopeById, get_ok h]
  rfl

/-! ## Updates of the first scope with an id -/

/-- Writing an entry with the same id and the same openness. -/
theorem write_wf {s : Scopes} (h : s.WF) {pre post : List (Option BufferedScope)}
    {b b' : BufferedScope} (he : s.entries = pre ++ some b :: post)
    (hid : b'.scope.id = b.scope.id) (hcl : isClosed b' = isClosed b) :
    (s.write pre.length b').WF := by
  have hset : s.entries.set pre.length (some b') = pre ++ some b' :: post := by simp [he]
  refine ⟨?_, ?_, ?_, ?_⟩
  · simp only [write, hset]
    rw [h.byId, he]
    exact (positionOf_replace s.base pre post (by simp [key, hid])).symm
  · simp only [write, hset]
    rw [h.exited, he]
    exact (keysWhere_replace s.base pre post (by simpa [closed, isClosed] using hcl)).symm
  · simp only [write, retained, hset, reduceOption_slot]
    rw [h.len, retained, he, reduceOption_slot]
    simp
  · simpa [write] using h.bound

theorem write_retained {s : Scopes} {pre post : List (Option BufferedScope)} {b b' : BufferedScope}
    (he : s.entries = pre ++ some b :: post) :
    (s.write pre.length b').retained = pre.reduceOption ++ b' :: post.reduceOption := by
  simp [write, retained, he, reduceOption_slot]

/-- **Messages are overlaid on the first scope with the id.** -/
theorem setScopeExitMessages_ok {s : Scopes} (h : s.WF) (id : ScopeId) (msgs : ExitMessages) :
    ∃ t, s.setScopeExitMessages id msgs = .ok (t, (s.retained.find? (hasId id)).isSome) ∧ t.WF ∧
      t.retained = updateFirst (hasId id) (·.setMessages msgs) s.retained := by
  rcases locate_cases h id with ⟨hl, hno⟩ | ⟨pre, b, post, -, he, hb, hpre, -, hl⟩
  · refine ⟨s, ?_, h, (updateFirst_of_none hno).symm⟩
    rw [setScopeExitMessages, hl, ok_bind, List.find?_eq_none.2 (by simpa using hno)]
    rfl
  · refine ⟨s.write pre.length (b.setMessages msgs), ?_, write_wf h he rfl rfl, ?_⟩
    · have hsome : (s.retained.find? (hasId id)).isSome = true := by
        rw [List.find?_isSome]
        exact ⟨b, mem_reduceOption.2 (by rw [he]; simp), hb⟩
      rw [setScopeExitMessages, hl, ok_bind, hsome]
      rfl
    · rw [write_retained he, retained, he, reduceOption_slot, updateFirst_split hb hpre]

@[simp] theorem close_isClosed (millis : UInt64) (now : Instant) (b : BufferedScope) :
    isClosed (b.close millis now).1 = true := by
  unfold BufferedScope.close
  cases b.clock <;> rfl

@[simp] theorem close_scope (millis : UInt64) (now : Instant) (b : BufferedScope) :
    (b.close millis now).1.scope = { b.scope with exitedAt := some millis } := by
  unfold BufferedScope.close
  cases b.clock <;> rfl

/-- The entry closed, if it is open. -/
def closeIfOpen (millis : UInt64) (now : Instant) (b : BufferedScope) : BufferedScope :=
  if isClosed b then b else (b.close millis now).1

/-- What `finalize_scope_exit_at` returns for an entry. -/
def exitOf (millis : UInt64) (now : Instant) (b : BufferedScope) : Option (Scope × Duration) :=
  if isClosed b then none else some ((b.close millis now).1.scope, (b.close millis now).2)

/-- **Finalizing closes the first scope with the id**, if it is open. -/
theorem finalizeScopeExitAt_ok {s : Scopes} (h : s.WF) (id : ScopeId) (millis : UInt64)
    (now : Instant) :
    ∃ t, s.finalizeScopeExitAt id millis now =
        .ok (t, (s.retained.find? (hasId id)).bind (exitOf millis now)) ∧ t.WF ∧
      t.retained = updateFirst (hasId id) (closeIfOpen millis now) s.retained := by
  rcases locate_cases h id with ⟨hl, hno⟩ | ⟨pre, b, post, count, he, hb, hpre, hpos, hl⟩
  · refine ⟨s, ?_, h, (updateFirst_of_none hno).symm⟩
    rw [finalizeScopeExitAt, hl, ok_bind, List.find?_eq_none.2 (by simpa using hno)]
    rfl
  · have hfind : s.retained.find? (hasId id) = some b := by
      have hnone : pre.reduceOption.find? (hasId id) = none :=
        List.find?_eq_none.2 (by simpa using hpre)
      rw [retained, he, reduceOption_slot, List.find?_append, hnone, List.find?_cons, hb]
      rfl
    have hupd : updateFirst (hasId id) (closeIfOpen millis now) s.retained =
        pre.reduceOption ++ closeIfOpen millis now b :: post.reduceOption := by
      rw [retained, he, reduceOption_slot, updateFirst_split hb hpre]
    rw [finalizeScopeExitAt, hl, ok_bind, hfind, hupd]
    cases hcl : isClosed b with
    | true =>
      refine ⟨s, by simp [exitOf, hcl, show b.scope.exitedAt.isSome = true from hcl], h, ?_⟩
      rw [retained, he, reduceOption_slot, closeIfOpen, hcl]
      rfl
    | false =>
      have hset : s.entries.set pre.length (some (b.close millis now).1) =
          pre ++ some (b.close millis now).1 :: post := by simp [he]
      refine ⟨{ s.write pre.length (b.close millis now).1 with
        exited := insertKey (s.base + pre.length) s.exited }, ?_, ⟨?_, ?_, ?_, ?_⟩, ?_⟩
      · simp [exitOf, hcl, show b.scope.exitedAt.isSome = false from hcl, write, hpos]
      · simp only [write, hset]
        rw [h.byId, he]
        exact (positionOf_replace s.base pre post (by simp [key])).symm
      · simp only [write, hset]
        rw [h.exited, he]
        have hopen : closed (some b) = false := hcl
        have hclosed : closed (some (b.close millis now).1) = true := close_isClosed millis now b
        exact (keysWhere_gain s.base pre post hopen hclosed).symm
      · simp only [write, retained, hset, reduceOption_slot]
        rw [h.len, retained, he, reduceOption_slot]
        simp
      · simpa [write] using h.bound
      · rw [closeIfOpen, hcl]
        exact write_retained he

/-! ## Trimming -/

/-- The index stays that of the slots when the slot of a scope is vacated. -/
theorem evictId_ok {s : Scopes} (h : s.WF) {pre post : List (Option BufferedScope)}
    {b : BufferedScope} (he : s.entries = pre ++ some b :: post) :
    s.evictId b.scope.id (s.base + pre.length) (pre ++ none :: post) =
      .ok (positionOf key s.base (pre ++ none :: post)) := by
  have hkey : key (some b) = some b.scope.id := rfl
  have hbound := h.bound
  rw [he, List.length_append, List.length_cons] at hbound
  -- `b` is an entry of its id, so the id has a position
  obtain ⟨p, hp⟩ : ∃ p, positionOf key s.base (pre ++ some b :: post) b.scope.id = some p := by
    rw [← Option.isSome_iff_exists, Option.isSome_iff_ne_none]
    exact fun hnone => positionOf_eq_none.1 hnone (some b) (by simp) hkey
  have hcount := count_of_vacate hkey (v := none) rfl hp
  have hne : ∀ k, k ≠ b.scope.id → positionOf key s.base (pre ++ some b :: post) k =
      positionOf key s.base (pre ++ none :: post) k :=
    fun k hk => (positionOf_vacate_ne s.base pre post hkey rfl hk).symm
  have hupd : ∀ q, positionOf key s.base (pre ++ none :: post) b.scope.id = q →
      Function.update (positionOf key s.base (pre ++ some b :: post)) b.scope.id q =
        positionOf key s.base (pre ++ none :: post) := by
    rintro q rfl
    funext k
    by_cases hk : k = b.scope.id
    · subst hk; simp
    · rw [Function.update_of_ne hk, hne k hk]
  rw [evictId, h.byId, he, hp, unwrap_some, ok_bind]
  by_cases h1 : p.count = 1
  · rw [if_pos h1, hupd none (positionOf_vacate_only hkey rfl hp h1)]
    rfl
  · rw [if_neg h1, sub_ok (by omega), ok_bind]
    by_cases hf : p.first = s.base + pre.length
    · obtain ⟨i, hi, hpos⟩ := positionOf_vacate_first hkey (v := none) rfl hp h1
      have hlt := (List.findIdx?_eq_some_iff_getElem.1 hi).1
      rw [List.length_append, List.length_cons] at hlt
      rw [if_pos hf, ← holds_key, hi, unwrap_some, ok_bind, add_ok (by omega), ok_bind,
        hupd _ hpos]
      rfl
    · rw [if_neg hf, hupd _ (positionOf_vacate_later hkey rfl hp hf)]
      rfl

/-- One eviction takes the first closed scope. -/
theorem evictFirst_ok {s : Scopes} (h : s.WF) (hne : s.exited ≠ []) :
    ∃ t pre b post, s.evictFirst = .ok t ∧ t.WF ∧ s.retained = pre ++ b :: post ∧
      isClosed b = true ∧ (∀ x ∈ pre, isClosed x = false) ∧ t.retained = pre ++ post := by
  obtain ⟨x, exited, hx⟩ := List.exists_cons_of_ne_nil hne
  obtain ⟨pre, e, post, he, rfl, hcl, hpre, hrest⟩ := keysWhere_eq_cons (h.exited.symm.trans hx)
  cases e with
  | none => simp [closed] at hcl
  | some b =>
    have hpre' : ∀ y ∈ pre.reduceOption, isClosed y = false := fun y hy =>
      hpre (some y) (mem_reduceOption.1 hy)
    have hlen : s.len = pre.reduceOption.length + (post.reduceOption.length + 1) := by
      rw [h.len, retained, he, reduceOption_slot, List.length_append, List.length_cons]
    refine ⟨⟨pre ++ none :: post, positionOf key s.base (pre ++ none :: post), exited, s.base,
        s.len - 1⟩, pre.reduceOption, b, post.reduceOption, ?_, ⟨rfl, ?_, ?_, ?_⟩,
      by rw [retained, he, reduceOption_slot], hcl, hpre', reduceOption_vacate⟩
    · have hset : s.entries.set pre.length none = pre ++ none :: post := by simp [he]
      rw [evictFirst, hx]
      simp only [sub_ok (Nat.le_add_right s.base pre.length), ok_bind, Nat.add_sub_cancel_left]
      rw [index_ok (show s.entries[pre.length]? = some (some b) by simp [he]), ok_bind, unwrap_some,
        ok_bind, hset, sub_ok (by omega), ok_bind, evictId_ok h he]
      rfl
    · rw [hrest, keysWhere_append, keysWhere_none hpre]
      rfl
    · rw [retained, reduceOption_vacate, List.length_append]
      dsimp only
      omega
    · simpa [he] using h.bound

theorem evictLoop_ok {s : Scopes} (h : s.WF) (max : ℕ) :
    ∃ t, whileM (fun s => max < s.exited.length) evictFirst s.exited.length s = .ok t ∧ t.WF ∧
      t.retained = dropFirst isClosed (s.retained.countP isClosed - max) s.retained := by
  -- what is still to be evicted from `t` gives what is to be evicted from `s`
  let Inv := fun t : Scopes => t.WF ∧
    dropFirst isClosed (t.retained.countP isClosed - max) t.retained =
      dropFirst isClosed (s.retained.countP isClosed - max) s.retained
  obtain ⟨t, ht, ⟨hwf, he⟩, hc⟩ := whileM_total
    (fun s : Scopes => max < s.exited.length) evictFirst Inv
    (fun t => t.exited.length)
    (fun t ⟨hwf, he⟩ hc => by
      have hlt : max < t.exited.length := by simpa using hc
      obtain ⟨u, pre, b, post, hu, huwf, htr, hcl, hpre, hur⟩ :=
        evictFirst_ok hwf fun h0 => by simp [h0] at hlt
      have hcount : t.retained.countP isClosed = u.retained.countP isClosed + 1 := by
        rw [htr, hur, List.countP_append, List.countP_append, List.countP_cons, hcl]
        simp only [if_true]
        omega
      rw [hwf.exited_length, hcount] at hlt
      refine ⟨u, hu, ⟨huwf, ?_⟩, by rw [huwf.exited_length, hwf.exited_length]; omega⟩
      rw [← he, hcount, Nat.succ_sub (show max ≤ u.retained.countP isClosed by omega), htr, hur,
        dropFirst_split _ hcl hpre])
    s.exited.length s ⟨h, rfl⟩ le_rfl
  have hle : t.retained.countP isClosed ≤ max := by
    rw [← hwf.exited_length]
    simpa using hc
  refine ⟨t, ht, hwf, ?_⟩
  rw [← he, Nat.sub_eq_zero_of_le hle, dropFirst_zero]

theorem popVacant_ok {s : Scopes} (h : s.WF) {es : List (Option BufferedScope)}
    (he : s.entries = none :: es) :
    ∃ t, s.popVacant = .ok t ∧ t.WF ∧ t.retained = s.retained ∧ t.entries = es := by
  have hb := h.bound
  rw [he, List.length_cons] at hb
  refine ⟨{ s with entries := es, base := s.base + 1 }, ?_, ⟨?_, ?_, ?_, by simp; omega⟩, ?_, rfl⟩
  · rw [popVacant, add_ok (by omega), he]
    rfl
  · rw [h.byId, he, positionOf_cons_vacant s.base es rfl]
  · rw [h.exited, he]
    rfl
  · rw [h.len, retained, he, List.reduceOption_cons_of_none]
    rfl
  · rw [retained, retained, he, List.reduceOption_cons_of_none]

theorem popLoop_ok {s : Scopes} (h : s.WF) :
    ∃ t, whileM frontVacant popVacant s.entries.length s = .ok t ∧ t.WF ∧
      t.retained = s.retained := by
  obtain ⟨t, ht, ⟨hwf, he⟩, -⟩ := whileM_total frontVacant popVacant
    (fun t => t.WF ∧ t.retained = s.retained) (fun t => t.entries.length)
    (fun t ⟨hwf, he⟩ hc => by
      obtain ⟨es, hes⟩ : ∃ es, t.entries = none :: es := by
        cases hl : t.entries with
        | nil => simp [frontVacant, hl] at hc
        | cons o es =>
          cases o with
          | none => exact ⟨es, rfl⟩
          | some b => simp [frontVacant, hl] at hc
      obtain ⟨u, hu, huwf, hur, hue⟩ := popVacant_ok hwf hes
      exact ⟨u, hu, ⟨huwf, hur.trans he⟩, by rw [hue, hes]; simp⟩)
    s.entries.length s ⟨h, rfl⟩ le_rfl
  exact ⟨t, ht, hwf, he⟩

theorem settle_ok {s : Scopes} (h : s.WF) :
    ∃ t, s.settle = .ok t ∧ t.WF ∧ t.retained = s.retained := by
  have hle := s.retained_length_le
  have hb := h.bound
  unfold settle
  split_ifs with hnil hbig
  · have hnil : s.entries = [] := by simpa using hnil
    refine ⟨_, rfl, ⟨?_, ?_, h.len, by simp [hnil, usizeMax]⟩, rfl⟩
    · rw [h.byId, hnil]; rfl
    · rw [h.exited, hnil]; rfl
  · rw [h.len, sub_ok hle, ok_bind]
    split_ifs
    · exact ⟨_, compact_ok h.len (by omega), compact_wf (by omega), by simp⟩
    · exact ⟨s, rfl, h, rfl⟩
  · exact ⟨s, rfl, h, rfl⟩

/-- **Trimming drops the oldest closed scopes**, and no open one. -/
theorem trim_ok {s : Scopes} (h : s.WF) (max : ℕ) :
    ∃ t, s.trim max = .ok t ∧ t.WF ∧
      t.retained = dropFirst isClosed (s.retained.countP isClosed - max) s.retained := by
  obtain ⟨u, hu, huwf, hur⟩ := evictLoop_ok h max
  obtain ⟨v, hv, hvwf, hvr⟩ := popLoop_ok huwf
  obtain ⟨t, ht, htwf, htr⟩ := settle_ok hvwf
  exact ⟨t, by rw [trim, hu, ok_bind, hv, ok_bind, ht], htwf, by rw [htr, hvr, hur]⟩

end Scopes

end Eventline
