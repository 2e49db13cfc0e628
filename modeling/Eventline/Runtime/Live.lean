/-
  What the runtime hands to its writer.

  Every operation takes the journal and the writer in separate sections, so the
  writer gets copies of a scope after newer ones, and children before their
  parents.

  * `Process.Live`: a step without a clear or a new writer, that names only ids
    which an `enter_scope` has returned.
  * `Placed`, `Numbered` and `Handed` say where ids, records and copies are;
    with `Tracked` they are the invariant `Chronicle` of the runs of such steps.
-/
import Eventline.Lib.Handoff
import Eventline.Runtime.Lives

namespace Eventline

open Checked Slots

/-- What a thread has taken from the journal and not yet given to the writer. -/
def Thread.inHand (th : Thread) : Option Parts :=
  match th.pc with
  | .recorded record scope | .due record scope | .trimming _ record scope
  | .writing record scope => some ⟨some record, scope⟩
  | _ => none

/-- The parts of the entry that a call writes. -/
def WriterCall.parts : WriterCall → Parts
  | .scope s => ⟨none, some s⟩
  | .record r s => ⟨some r, s⟩

namespace Runtime

/-- The entries that the writer got. -/
def written (r : Runtime) : List Parts := r.writer.calls.map WriterCall.parts

def writtenRecords (r : Runtime) : List Record := r.written.filterMap (·.record)

/-- The scope was entered at some time. -/
def Known (r : Runtime) (id : ScopeId) : Prop := ∃ l ∈ r.lives, l.scope.id = id

end Runtime

namespace Process

/-- An `enter_scope` has returned the id. -/
def Returned (s : Process) (id : ScopeId) : Prop :=
  s.runtime.Known id ∧ ∀ t, (s.threads t).pending ≠ some id

/-- A step of a process whose journal is not cleared and whose writer stays, that
    names only ids which have been returned. -/
def Live (s : Process) : Action → Prop
  | .call _ .clear | .call _ (.updateWriters _) => False
  | .call _ (.exitScope id ..) | .call _ (.setScopeExitMessages id _) => s.Returned id
  | _ => True

end Process

/-! ## The invariant -/

/-- Ids on the stacks were given out; nothing exits a scope before its id is
    returned. -/
structure Placed (r : Runtime) (threads : ThreadId → Thread) (futures : FutureId → Option Wrapper) :
    Prop where
  stacked : ∀ t, ∀ id ∈ (threads t).stack, r.Known id
  wrapped : ∀ f w, futures f = some w → ∀ id ∈ w.stack, r.Known id
  pending : ∀ t id, (threads t).pending = some id → ∃ l ∈ r.lives, l.scope.id = id ∧ l.exited = none

/-- The records pushed have distinct ids, name scopes that were entered, and are
    the only exits of these. -/
structure Numbered (r : Runtime) : Prop where
  next : r.journal.nextRecordId = UInt64.ofNat r.recordIds
  before : ∀ x ∈ r.pushed, x.id.n.toNat < r.recordIds
  distinct : r.pushed.Pairwise fun x y => x.id ≠ y.id
  exitsOnce : r.pushed.Pairwise fun x y => ∀ id o o',
    Journal.exitOf x = some (id, o) → Journal.exitOf y ≠ some (id, o')
  exited : ∀ x ∈ r.pushed, ∀ id o, Journal.exitOf x = some (id, o) →
    ∃ l ∈ r.lives, l.scope.id = id ∧ l.exited.isSome
  named : ∀ x ∈ r.pushed, ∀ id, x.scope = some id → r.Known id

/-- The writer got the parts, or a thread is about to give them to it. -/
def Taken (r : Runtime) (threads : ThreadId → Thread) (p : Parts) : Prop :=
  p ∈ r.written ∨ ∃ t, (threads t).inHand = some p

/-- Every record is written or in one hand; every copy is backed by the journal;
    every scope is written or about to be, with its exit. -/
structure Handed (r : Runtime) (threads : ThreadId → Thread) : Prop where
  wants : r.writer.wantsScopeMetadata = true
  records : Handoff r.pushed r.writtenRecords fun t => (threads t).inHand.bind (·.record)
  paired : ∀ p x, Taken r threads p → p.record = some x → x.Paired p.scope
  backed : ∀ p x, Taken r threads p → p.scope = some x → Backed r.journal r.lives x
  entered : ∀ l ∈ r.lives, (∃ p ∈ r.written, ∃ x, p.scope = some x ∧ x.id = l.scope.id) ∨
    ∃ t, (threads t).pending = some l.scope.id
  closed : ∀ l ∈ r.lives, l.exited.isSome →
    ∃ p x, Taken r threads p ∧ p.scope = some x ∧ x.id = l.scope.id ∧ x.exitedAt.isSome

structure Chronicle (s : Process) : Prop where
  tracked : Tracked s.runtime.journal s.runtime.lives
  placed : Placed s.runtime s.threads s.futures
  numbered : Numbered s.runtime
  handed : Handed s.runtime s.threads

theorem new_chronicle (runId : String) (max : ℕ) : Chronicle (.new runId true max) where
  tracked := new_tracked runId
  placed := ⟨fun _ _ h => (by cases h), fun _ _ h => (by cases h), fun _ _ h => (by cases h)⟩
  numbered := ⟨rfl, fun _ h => (by cases h), .nil, .nil, fun _ h => (by cases h),
    fun _ h => (by cases h)⟩
  handed := by
    have hnone : ∀ p, ¬ Taken (Process.new runId true max).runtime
        (Process.new runId true max).threads p := by
      rintro p (hp | ⟨t, ht⟩)
      · cases hp
      · cases ht
    exact ⟨rfl, .empty fun _ => rfl, fun p x h => absurd h (hnone p),
      fun p x h => absurd h (hnone p), fun _ h => (by cases h), fun _ h => (by cases h)⟩

/-! ## Ids -/

/-- Lives that are there later too. -/
def Remembers (lives lives' : List Life) : Prop :=
  ∀ l ∈ lives, ∃ l' ∈ lives', l'.scope = l.scope ∧ (l.exited.isSome → l'.exited.isSome)

theorem remembers_refl (lives : List Life) : Remembers lives lives :=
  fun l hl => ⟨l, hl, rfl, id⟩

theorem remembers_map {f : Life → Life} (hscope : ∀ l, (f l).scope = l.scope)
    (hexited : ∀ l, l.exited.isSome → (f l).exited.isSome) (lives : List Life) :
    Remembers lives (lives.map f) :=
  fun l hl => ⟨f l, List.mem_map_of_mem hl, hscope l, hexited l⟩

section
variable {r r' : Runtime} {threads threads' : ThreadId → Thread}
  {futures futures' : FutureId → Option Wrapper}

theorem Runtime.Known.mono {id : ScopeId} (h : r.Known id) (hlives : Remembers r.lives r'.lives) :
    r'.Known id := by
  obtain ⟨l, hl, rfl⟩ := h
  obtain ⟨l', hl', hscope, -⟩ := hlives l hl
  exact ⟨l', hl', by rw [hscope]⟩

/-- A thread moves on: it puts only known ids on its stack, and the scopes that
    are waited for stay open. -/
theorem Placed.update (h : Placed r threads futures) (hlives : Remembers r.lives r'.lives)
    {t : ThreadId} {th : Thread}
    (hstack : ∀ id ∈ th.stack, r'.Known id ∨ id ∈ (threads t).stack)
    (hpend : ∀ id, th.pending = some id → (∃ l ∈ r'.lives, l.scope.id = id ∧ l.exited = none) ∨
      (threads t).pending = some id)
    (hopen : ∀ u id, (threads u).pending = some id →
      ∃ l ∈ r'.lives, l.scope.id = id ∧ l.exited = none) :
    Placed r' (Function.update threads t th) futures := by
  refine ⟨?_, fun f w hw id hid => (h.wrapped f w hw id hid).mono hlives, ?_⟩
  · refine (Function.forall_update_iff threads (p := fun _ x => ∀ id ∈ x.stack, r'.Known id)).2
      ⟨?_, fun u _ id hid => (h.stacked u id hid).mono hlives⟩
    intro id hid
    exact (hstack id hid).elim (fun h => h) fun hid => (h.stacked t id hid).mono hlives
  · refine (Function.forall_update_iff threads (p := fun _ x => ∀ id, x.pending = some id →
      ∃ l ∈ r'.lives, l.scope.id = id ∧ l.exited = none)).2 ⟨?_, fun u _ => hopen u⟩
    intro id hid
    exact (hpend id hid).elim (fun h => h) fun hid => hopen t id hid

/-- A thread that waits for nothing moves on. -/
theorem Placed.still (h : Placed r threads futures) (hlives : r'.lives = r.lives) {t : ThreadId}
    {th : Thread} (hstack : th.stack = (threads t).stack) (hpend : th.pending = none) :
    Placed r' (Function.update threads t th) futures := by
  refine h.update (by rw [hlives]; exact remembers_refl _) (fun id hid => .inr (hstack ▸ hid)) ?_ ?_
  · intro id hid
    rw [hpend] at hid
    cases hid
  · rw [hlives]
    exact h.pending

/-- The current scope of a thread was entered. -/
theorem Placed.current (h : Placed r threads futures) {t : ThreadId} {id : ScopeId}
    (hid : (threads t).currentScope = some id) : r.Known id :=
  h.stacked t id (List.mem_of_getLast? hid)

theorem mem_removeScopeFromStack {stack : List ScopeId} {id x : ScopeId}
    (hx : x ∈ removeScopeFromStack stack id) : x ∈ stack := by
  unfold removeScopeFromStack at hx
  split_ifs at hx
  · exact List.mem_of_mem_dropLast hx
  · split at hx
    · exact List.mem_of_mem_eraseIdx hx
    · exact hx

/-! ## Records -/

theorem Numbered.frame (h : Numbered r) (hpushed : r'.pushed = r.pushed)
    (hnext : r'.journal.nextRecordId = UInt64.ofNat r'.recordIds) (hle : r.recordIds ≤ r'.recordIds)
    (hlives : Remembers r.lives r'.lives) : Numbered r' := by
  refine ⟨hnext, ?_, hpushed ▸ h.distinct, hpushed ▸ h.exitsOnce, ?_, ?_⟩
  · intro x hx
    rw [hpushed] at hx
    exact (h.before x hx).trans_le hle
  · intro x hx id o hxo
    rw [hpushed] at hx
    obtain ⟨l, hl, rfl, hexited⟩ := h.exited x hx id o hxo
    obtain ⟨l', hl', hscope, hkeep⟩ := hlives l hl
    exact ⟨l', hl', by rw [hscope], hkeep hexited⟩
  · intro x hx id hid
    rw [hpushed] at hx
    exact (h.named x hx id hid).mono hlives

/-- A record is pushed with the next id; an exit is that of a life that ends. -/
theorem Numbered.push (h : Numbered r) (hm : r.recordIds < 2 ^ 64) {x : Record}
    (hpushed : r'.pushed = r.pushed ++ [x]) (hid : x.id = ⟨r.journal.nextRecordId⟩)
    (hnext : r'.journal.nextRecordId = r.journal.nextRecordId + 1)
    (hids : r'.recordIds = r.recordIds + 1) (hlives : Remembers r.lives r'.lives)
    (hexit : ∀ id o, Journal.exitOf x = some (id, o) →
      (∀ l ∈ r.lives, l.scope.id = id → l.exited = none) ∧
        ∃ l ∈ r'.lives, l.scope.id = id ∧ l.exited.isSome)
    (hnamed : ∀ id, x.scope = some id → r.Known id) : Numbered r' ∧ x ∉ r.pushed := by
  have hidn : x.id.n.toNat = r.recordIds := by
    rw [hid, h.next]
    exact UInt64.toNat_ofNat_of_lt' hm
  have hfresh : ∀ y ∈ r.pushed, y.id ≠ x.id := by
    intro y hy heq
    have hlt := h.before y hy
    rw [heq, hidn] at hlt
    exact lt_irrefl _ hlt
  refine ⟨⟨?_, ?_, ?_, ?_, ?_, ?_⟩, fun hx => hfresh x hx rfl⟩
  · rw [hnext, h.next, hids, UInt64.ofNat_add]
    rfl
  · intro y hy
    rw [hpushed] at hy
    rw [hids]
    rcases List.mem_append.1 hy with hy | hy
    · exact (h.before y hy).trans (Nat.lt_succ_self _)
    · rw [List.mem_singleton.1 hy, hidn]
      exact Nat.lt_succ_self _
  · rw [hpushed, List.pairwise_append]
    refine ⟨h.distinct, List.pairwise_singleton _ _, ?_⟩
    intro y hy z hz
    rw [List.mem_singleton.1 hz]
    exact hfresh y hy
  · rw [hpushed, List.pairwise_append]
    refine ⟨h.exitsOnce, List.pairwise_singleton _ _, ?_⟩
    intro y hy z hz id o o' hyo hzo
    rw [List.mem_singleton.1 hz] at hzo
    obtain ⟨l, hl, hlid, hexited⟩ := h.exited y hy id o hyo
    rw [(hexit id o' hzo).1 l hl hlid] at hexited
    cases hexited
  · intro y hy id o hyo
    rw [hpushed] at hy
    rcases List.mem_append.1 hy with hy | hy
    · obtain ⟨l, hl, rfl, hexited⟩ := h.exited y hy id o hyo
      obtain ⟨l', hl', hscope, hkeep⟩ := hlives l hl
      exact ⟨l', hl', by rw [hscope], hkeep hexited⟩
    · rw [List.mem_singleton.1 hy] at hyo
      exact (hexit id o hyo).2
  · intro y hy id hyid
    rw [hpushed] at hy
    rcases List.mem_append.1 hy with hy | hy
    · exact (h.named y hy id hyid).mono hlives
    · rw [List.mem_singleton.1 hy] at hyid
      exact (hnamed id hyid).mono hlives

/-! ## Hands -/

/-- Hands and waiting threads are as they were, and so are the entries written. -/
theorem Handed.frame (h : Handed r threads) (hwriter : r'.writer = r.writer)
    (hpushed : r'.pushed = r.pushed)
    (hback : ∀ x, Backed r.journal r.lives x → Backed r'.journal r'.lives x)
    (hlives : ∀ l' ∈ r'.lives, ∃ l ∈ r.lives, l.scope = l'.scope ∧ l.exited.isSome = l'.exited.isSome)
    (hth : ∀ u, (threads' u).inHand = (threads u).inHand ∧
      (threads' u).pending = (threads u).pending) : Handed r' threads' := by
  have hwritten : r'.written = r.written := by rw [Runtime.written, hwriter, Runtime.written]
  have htaken : ∀ p, Taken r' threads' p ↔ Taken r threads p := by
    intro p
    simp only [Taken, hwritten, (hth _).1]
  refine ⟨hwriter ▸ h.wants, ?_, ?_, ?_, ?_, ?_⟩
  · have hhand : (fun t => (threads' t).inHand.bind (·.record)) =
        fun t => (threads t).inHand.bind (·.record) := by
      funext u
      rw [(hth u).1]
    rw [hhand, hpushed, Runtime.writtenRecords, hwritten]
    exact h.records
  · intro p x hp
    exact h.paired p x ((htaken p).1 hp)
  · intro p x hp hx
    exact hback x (h.backed p x ((htaken p).1 hp) hx)
  · intro l' hl'
    obtain ⟨l, hl, hscope, -⟩ := hlives l' hl'
    rw [← hscope, hwritten]
    rcases h.entered l hl with hw | ⟨u, hu⟩
    · exact .inl hw
    · exact .inr ⟨u, (hth u).2.trans hu⟩
  · intro l' hl' hexited
    obtain ⟨l, hl, hscope, hsame⟩ := hlives l' hl'
    obtain ⟨p, x, hp, hx⟩ := h.closed l hl (hsame.trans hexited)
    rw [← hscope]
    exact ⟨p, x, (htaken p).2 hp, hx⟩

/-- An empty hand takes parts: a new record, and maybe the last copy of a scope. -/
theorem Handed.take (h : Handed r threads) {t : ThreadId} {th : Thread} {p : Parts} {x : Record}
    (hempty : (threads t).inHand = none) (hidle : (threads t).pending = none)
    (hhand : th.inHand = some p) (hx : p.record = some x) (hwriter : r'.writer = r.writer)
    (hpushed : r'.pushed = r.pushed ++ [x]) (hnew : x ∉ r.pushed) (hpair : x.Paired p.scope)
    (hback : ∀ x, Backed r.journal r.lives x → Backed r'.journal r'.lives x)
    (hscope : ∀ x, p.scope = some x → Backed r'.journal r'.lives x)
    (hlives : ∀ l' ∈ r'.lives, ∃ l ∈ r.lives, l.scope = l'.scope ∧
      (l'.exited.isSome → l.exited.isSome ∨
        ∃ x, p.scope = some x ∧ x.id = l.scope.id ∧ x.exitedAt.isSome)) :
    Handed r' (Function.update threads t th) := by
  have hwritten : r'.written = r.written := by rw [Runtime.written, hwriter, Runtime.written]
  have htaken : ∀ q, Taken r' (Function.update threads t th) q → Taken r threads q ∨ q = p := by
    rintro q (hq | ⟨u, hu⟩)
    · exact .inl (.inl (hwritten ▸ hq))
    · by_cases hut : u = t
      · rw [hut, Function.update_self, hhand] at hu
        exact .inr (Option.some.inj hu).symm
      · rw [Function.update_of_ne hut] at hu
        exact .inl (.inr ⟨u, hu⟩)
  have hkeeps : ∀ q, Taken r threads q → Taken r' (Function.update threads t th) q := by
    rintro q (hq | ⟨u, hu⟩)
    · exact .inl (hwritten ▸ hq)
    · refine .inr ⟨u, ?_⟩
      rw [Function.update_of_ne (by rintro rfl; rw [hempty] at hu; cases hu)]
      exact hu
  refine ⟨hwriter ▸ h.wants, ?_, ?_, ?_, ?_, ?_⟩
  · have hhands : (fun u => (Function.update threads t th u).inHand.bind (·.record)) =
        Function.update (fun u => (threads u).inHand.bind (·.record)) t (some x) := by
      funext u
      by_cases hut : u = t
      · subst hut
        rw [Function.update_self, Function.update_self, hhand, Option.bind_some, hx]
      · rw [Function.update_of_ne hut, Function.update_of_ne hut]
    rw [hhands, hpushed, Runtime.writtenRecords, hwritten]
    exact h.records.take (by rw [hempty]; rfl) hnew
  · intro q y hq hqy
    rcases htaken q hq with hq | rfl
    · exact h.paired q y hq hqy
    · obtain rfl := Option.some.inj (hx.symm.trans hqy)
      exact hpair
  · intro q y hq hqy
    rcases htaken q hq with hq | rfl
    · exact hback y (h.backed q y hq hqy)
    · exact hscope y hqy
  · intro l' hl'
    obtain ⟨l, hl, hsame, -⟩ := hlives l' hl'
    rw [← hsame, hwritten]
    rcases h.entered l hl with hw | ⟨u, hu⟩
    · exact .inl hw
    · refine .inr ⟨u, ?_⟩
      rw [Function.update_of_ne (by rintro rfl; rw [hidle] at hu; cases hu)]
      exact hu
  · intro l' hl' hexited
    obtain ⟨l, hl, hsame, hcase⟩ := hlives l' hl'
    rw [← hsame]
    rcases hcase hexited with hold | ⟨y, hy, hid, hclosed⟩
    · obtain ⟨q, y, hq, hqy⟩ := h.closed l hl hold
      exact ⟨q, y, hkeeps q hq, hqy⟩
    · exact ⟨p, y, .inr ⟨t, by rw [Function.update_self, hhand]⟩, hy, hid, hclosed⟩

/-- A thread gives to the writer what it holds, or the scope that it has entered. -/
theorem Handed.write (h : Handed r threads) {t : ThreadId} {th : Thread} {c : WriterCall}
    (hcall : r'.writer = r.writer.call c) (hjournal : r'.journal = r.journal)
    (hlives : r'.lives = r.lives) (hpushed : r'.pushed = r.pushed) (hempty : th.inHand = none)
    (hcase : (threads t).inHand = some c.parts ∧ (threads t).pending = none ∨
      ∃ x, c = .scope x ∧ (threads t).inHand = none ∧ (threads t).pending = some x.id ∧
        Backed r.journal r.lives x) : Handed r' (Function.update threads t th) := by
  have hwritten : r'.written = r.written ++ [c.parts] := by
    rw [Runtime.written, hcall, AttachedWriter.call, List.map_append]
    rfl
  have htaken : ∀ q, Taken r' (Function.update threads t th) q → Taken r threads q ∨
      q = c.parts := by
    rintro q (hq | ⟨u, hu⟩)
    · rw [hwritten] at hq
      rcases List.mem_append.1 hq with hq | hq
      · exact .inl (.inl hq)
      · exact .inr (List.mem_singleton.1 hq)
    · by_cases hut : u = t
      · rw [hut, Function.update_self, hempty] at hu
        cases hu
      · rw [Function.update_of_ne hut] at hu
        exact .inl (.inr ⟨u, hu⟩)
  have hkeeps : ∀ q, Taken r threads q → Taken r' (Function.update threads t th) q := by
    rintro q (hq | ⟨u, hu⟩)
    · exact .inl (by rw [hwritten]; exact List.mem_append_left _ hq)
    · by_cases hut : u = t
      · subst hut
        rcases hcase with ⟨hheld, -⟩ | ⟨x, -, hheld, -⟩
        · rw [hheld] at hu
          obtain rfl := Option.some.inj hu
          exact .inl (by rw [hwritten]; simp)
        · rw [hheld] at hu
          cases hu
      · exact .inr ⟨u, by rw [Function.update_of_ne hut]; exact hu⟩
  refine ⟨by rw [hcall]; exact h.wants, ?_, ?_, ?_, ?_, ?_⟩
  · have hhands : (fun u => (Function.update threads t th u).inHand.bind (·.record)) =
        Function.update (fun u => (threads u).inHand.bind (·.record)) t none := by
      funext u
      by_cases hut : u = t
      · subst hut
        rw [Function.update_self, Function.update_self, hempty]
        rfl
      · rw [Function.update_of_ne hut, Function.update_of_ne hut]
    rw [hhands, hpushed, Runtime.writtenRecords, hwritten, List.filterMap_append]
    have hsame : c.parts.record = none → (threads t).inHand.bind (·.record) = none →
        Handoff r.pushed (r.written.filterMap (·.record) ++ [c.parts].filterMap (·.record))
          (Function.update (fun u => (threads u).inHand.bind (·.record)) t none) := by
      intro hnone hhand
      rw [← hhand, Function.update_eq_self, List.filterMap_cons, hnone, List.filterMap_nil,
        List.append_nil]
      exact h.records
    rcases hcase with ⟨hheld, -⟩ | ⟨x, rfl, hheld, -⟩
    · cases hrec : c.parts.record with
      | none => exact hsame hrec (by rw [hheld, Option.bind_some, hrec])
      | some y =>
        rw [List.filterMap_cons, hrec]
        exact h.records.deliver (by rw [hheld, Option.bind_some, hrec])
    · exact hsame rfl (by rw [hheld]; rfl)
  · intro q y hq hqy
    rcases htaken q hq with hq | rfl
    · exact h.paired q y hq hqy
    · rcases hcase with ⟨hheld, -⟩ | ⟨x, rfl, -⟩
      · exact h.paired _ y (.inr ⟨t, hheld⟩) hqy
      · cases hqy
  · intro q y hq hqy
    rw [hjournal, hlives]
    rcases htaken q hq with hq | rfl
    · exact h.backed q y hq hqy
    · rcases hcase with ⟨hheld, -⟩ | ⟨x, rfl, -, -, hback⟩
      · exact h.backed _ y (.inr ⟨t, hheld⟩) hqy
      · obtain rfl := Option.some.inj hqy
        exact hback
  · intro l hl
    rw [hlives] at hl
    rw [hwritten]
    rcases h.entered l hl with ⟨q, hq, y, hy⟩ | ⟨u, hu⟩
    · exact .inl ⟨q, List.mem_append_left _ hq, y, hy⟩
    · by_cases hut : u = t
      · subst hut
        rcases hcase with ⟨-, hnone⟩ | ⟨x, rfl, -, hpend, -⟩
        · rw [hnone] at hu
          cases hu
        · rw [hpend] at hu
          exact .inl ⟨_, List.mem_append_right _ (List.mem_singleton.2 rfl), x, rfl,
            Option.some.inj hu⟩
      · exact .inr ⟨u, by rw [Function.update_of_ne hut]; exact hu⟩
  · intro l hl hexited
    rw [hlives] at hl
    obtain ⟨q, y, hq, hqy⟩ := h.closed l hl hexited
    exact ⟨q, y, hkeeps q hq, hqy⟩

/-- A thread has entered a scope and is to write it. -/
theorem Handed.enter (h : Handed r threads) {t : ThreadId} {th : Thread} {l₀ : Life}
    (hempty : (threads t).inHand = none) (hidle : (threads t).pending = none)
    (hhand : th.inHand = none) (hpend : th.pending = some l₀.scope.id)
    (hwriter : r'.writer = r.writer) (hpushed : r'.pushed = r.pushed)
    (hlives : r'.lives = r.lives ++ [l₀]) (hopen : l₀.exited = none)
    (hback : ∀ x, Backed r.journal r.lives x → Backed r'.journal r'.lives x) :
    Handed r' (Function.update threads t th) := by
  have hwritten : r'.written = r.written := by rw [Runtime.written, hwriter, Runtime.written]
  have hhand' : ∀ u, (Function.update threads t th u).inHand = (threads u).inHand := by
    intro u
    by_cases hut : u = t
    · rw [hut, Function.update_self, hhand, hempty]
    · rw [Function.update_of_ne hut]
  have htaken : ∀ q, Taken r' (Function.update threads t th) q ↔ Taken r threads q := by
    intro q
    simp only [Taken, hwritten, hhand']
  refine ⟨hwriter ▸ h.wants, ?_, ?_, ?_, ?_, ?_⟩
  · have hhands : (fun u => (Function.update threads t th u).inHand.bind (·.record)) =
        fun u => (threads u).inHand.bind (·.record) := by
      funext u
      rw [hhand']
    rw [hhands, hpushed, Runtime.writtenRecords, hwritten]
    exact h.records
  · intro q y hq
    exact h.paired q y ((htaken q).1 hq)
  · intro q y hq hqy
    exact hback y (h.backed q y ((htaken q).1 hq) hqy)
  · intro l hl
    rw [hwritten]
    rw [hlives] at hl
    rcases List.mem_append.1 hl with hl | hl
    · rcases h.entered l hl with hw | ⟨u, hu⟩
      · exact .inl hw
      · refine .inr ⟨u, ?_⟩
        rw [Function.update_of_ne (by rintro rfl; rw [hidle] at hu; cases hu)]
        exact hu
    · rw [List.mem_singleton.1 hl]
      exact .inr ⟨t, by rw [Function.update_self, hpend]⟩
  · intro l hl hexited
    rw [hlives] at hl
    rcases List.mem_append.1 hl with hl | hl
    · obtain ⟨q, y, hq, hqy⟩ := h.closed l hl hexited
      exact ⟨q, y, (htaken q).2 hq, hqy⟩
    · rw [List.mem_singleton.1 hl, hopen] at hexited
      cases hexited

end

/-! ## Steps -/

/-- The chronicle of the state after a section of a thread. -/
def Process.Keeps (s : Process) (t : ThreadId) (r : Runtime) (th : Thread) : Prop :=
  Tracked r.journal r.lives ∧ Placed r (Function.update s.threads t th) s.futures ∧
    Numbered r ∧ Handed r (Function.update s.threads t th)

namespace Thread

theorem inHand_of_user {th : Thread} (h : th.pc = .user) : th.inHand = none ∧ th.pending = none := by
  rw [inHand, pending, h]
  exact ⟨rfl, rfl⟩

end Thread

section
variable {s s' : Process} (h : Chronicle s)
include h

/-- A section that only moves its thread on, or changes scopes of the journal in
    a way that their lives allow. -/
theorem Chronicle.quiet {t : ThreadId} {r : Runtime} {th : Thread}
    (hjournal : Tracked r.journal r.lives ∧
      ∀ x, Backed s.runtime.journal s.runtime.lives x → Backed r.journal r.lives x)
    (hlives : ∃ f : Life → Life, (∀ l, (f l).scope = l.scope ∧ (f l).exited = l.exited) ∧
      r.lives = s.runtime.lives.map f)
    (hwriter : r.writer = s.runtime.writer) (hpushed : r.pushed = s.runtime.pushed)
    (hnext : r.journal.nextRecordId = UInt64.ofNat r.recordIds)
    (hle : s.runtime.recordIds ≤ r.recordIds) (hhand : th.inHand = (s.threads t).inHand)
    (hpend : th.pending = (s.threads t).pending)
    (hstack : ∀ id ∈ th.stack, id ∈ (s.threads t).stack) :
    s.Keeps t r th := by
  obtain ⟨f, hf, hmap⟩ := hlives
  have hremember : Remembers s.runtime.lives r.lives := by
    rw [hmap]
    exact remembers_map (fun l => (hf l).1) (fun l hl => by rw [(hf l).2]; exact hl) _
  have hth : ∀ u, (Function.update s.threads t th u).inHand = (s.threads u).inHand ∧
      (Function.update s.threads t th u).pending = (s.threads u).pending := by
    refine (Function.forall_update_iff s.threads (p := fun u x =>
      x.inHand = (s.threads u).inHand ∧ x.pending = (s.threads u).pending)).2 ⟨⟨hhand, hpend⟩, ?_⟩
    exact fun _ _ => ⟨rfl, rfl⟩
  refine ⟨hjournal.1, h.placed.update hremember (fun id hid => .inr (hstack id hid))
    (fun id hid => .inr (hpend ▸ hid)) ?_, h.numbered.frame hpushed hnext hle hremember,
    h.handed.frame hwriter hpushed hjournal.2 ?_ hth⟩
  · intro u id hid
    obtain ⟨l, hl, hlid, hopen⟩ := h.placed.pending u id hid
    refine ⟨f l, hmap ▸ List.mem_map_of_mem hl, by rw [(hf l).1, hlid], by rw [(hf l).2, hopen]⟩
  · intro l' hl'
    rw [hmap] at hl'
    obtain ⟨l, hl, rfl⟩ := List.mem_map.1 hl'
    exact ⟨l, hl, (hf l).1.symm, by rw [(hf l).2]⟩

/-- A section that leaves journal, lives and writer alone. -/
theorem Chronicle.pass {t : ThreadId} {r : Runtime} {th : Thread}
    (hjournal : r.journal = s.runtime.journal) (hlives : r.lives = s.runtime.lives)
    (hwriter : r.writer = s.runtime.writer) (hpushed : r.pushed = s.runtime.pushed)
    (hids : r.recordIds = s.runtime.recordIds) (hhand : th.inHand = (s.threads t).inHand)
    (hpend : th.pending = (s.threads t).pending)
    (hstack : ∀ id ∈ th.stack, id ∈ (s.threads t).stack) :
    s.Keeps t r th := by
  refine h.quiet ?_ ⟨id, fun _ => ⟨rfl, rfl⟩, ?_⟩ hwriter hpushed ?_ hids.ge hhand hpend hstack
  · rw [hjournal, hlives]
    exact ⟨h.tracked, fun _ hx => hx⟩
  · rw [hlives, List.map_id]
  · rw [hjournal, hids]
    exact h.numbered.next

/-- A thread emits: the record is new, and its copy of the scope is backed. -/
theorem Chronicle.emit {t : ThreadId} {kind : EventKind} {message : String} {fields : Fields}
    {nanos : UInt64} {j : Journal} {id : RecordId} {record : Record} {scope : Option Scope}
    (hpc : (s.threads t).pc = .user)
    (he : s.runtime.journal.recordNoWriteInScope kind message fields (s.threads t).currentScope
      nanos = .ok (j, id, record, scope)) (hm : s.runtime.recordIds < 2 ^ 64) :
    s.Keeps t
      { s.runtime with
        journal := j
        pushed := s.runtime.pushed ++ [record]
        recordIds := s.runtime.recordIds + 1 }
      { s.threads t with pc := .recorded record scope } := by
  have hwf := h.tracked.wf
  obtain ⟨records, rfl, hrecords, -, hid, hrecord, hscope⟩ :=
    Journal.recordNoWriteInScope_inv hwf he
  have hwf' : Journal.WF { s.runtime.journal with
      nextRecordId := s.runtime.journal.nextRecordId + 1
      buffer := { s.runtime.journal.buffer with records } } := ⟨hrecords, hwf.scopes⟩
  have hkeeps := h.tracked.congr hwf' rfl rfl
  obtain ⟨hempty, hidle⟩ := Thread.inHand_of_user hpc
  have hremember := remembers_refl s.runtime.lives
  have hcopy : ∀ x, scope = some x → record.scope = some x.id ∧
      Backed s.runtime.journal s.runtime.lives x := by
    intro x hx
    rw [hscope] at hx
    obtain ⟨sid, hsid, hfind⟩ := Option.bind_eq_some_iff.1 hx
    obtain ⟨hxid, hback⟩ := h.tracked.backed_of_find hfind
    exact ⟨by rw [hrecord, hxid]; exact hsid, hback⟩
  obtain ⟨hnumbered, hnew⟩ : Numbered { s.runtime with
      journal := { s.runtime.journal with
        nextRecordId := s.runtime.journal.nextRecordId + 1
        buffer := { s.runtime.journal.buffer with records } }
      pushed := s.runtime.pushed ++ [record]
      recordIds := s.runtime.recordIds + 1 } ∧ record ∉ s.runtime.pushed :=
    h.numbered.push hm rfl (by rw [hrecord, hid]) rfl rfl hremember
    (by rw [hrecord]; rintro id o ⟨⟩)
    (by rw [hrecord]; exact fun id hid => h.placed.current hid)
  refine ⟨hkeeps.1, h.placed.still (by rfl) (by rfl) (by rfl), hnumbered,
    h.handed.take (p := ⟨some record, scope⟩) hempty hidle rfl rfl rfl rfl hnew ?_ hkeeps.2
      (fun x hx => hkeeps.2 x (hcopy x hx).2) fun l hl => ⟨l, hl, rfl, .inl⟩⟩
  exact ⟨by rw [hrecord]; simp, fun x hx => (hcopy x hx).1⟩

/-- A thread enters a scope: its life starts, and its copy is pending. -/
theorem Chronicle.enterScope {t : ThreadId} {name : String} {startedAt : Instant} {millis : UInt64}
    {j : Journal} {id : ScopeId} (hpc : (s.threads t).pc = .user)
    (he : s.runtime.journal.enterScopeWithParent name (s.threads t).currentScope startedAt millis =
      .ok (j, id)) (hlt : s.runtime.lives.length < 2 ^ 64) :
    s.Keeps t
      { s.runtime with
        journal := j
        lives := s.runtime.lives ++
          [⟨⟨id, (s.threads t).currentScope, millis, some name, none, .none⟩, none, false⟩] }
      { s.threads t with stack := (s.threads t).stack ++ [id], pc := .entered id } := by
  have hwf := h.tracked.wf
  obtain ⟨htracked, hback, hnew⟩ := h.tracked.enter hlt (fun p hp => h.placed.current hp) he
  obtain ⟨hempty, hidle⟩ := Thread.inHand_of_user hpc
  obtain ⟨-, -, -, -, -, hnextr, -, -⟩ := Journal.pushScope_inv hwf he
  have hremember : Remembers s.runtime.lives (s.runtime.lives ++
      [⟨⟨id, (s.threads t).currentScope, millis, some name, none, .none⟩, none, false⟩]) :=
    fun l hl => ⟨l, List.mem_append_left _ hl, rfl, fun h => h⟩
  refine ⟨htracked, h.placed.update hremember ?_ ?_ ?_,
    h.numbered.frame rfl (hnextr.trans h.numbered.next) le_rfl hremember,
    h.handed.enter hempty hidle rfl rfl rfl rfl rfl rfl hback⟩
  · intro x hx
    rcases List.mem_append.1 hx with hx | hx
    · exact .inr hx
    · rw [List.mem_singleton.1 hx]
      exact .inl ⟨_, List.mem_append_right _ (List.mem_singleton.2 rfl), rfl⟩
  · intro x hx
    exact .inl ⟨_, List.mem_append_right _ (List.mem_singleton.2 rfl), Option.some.inj hx, rfl⟩
  · intro u x hx
    obtain ⟨l, hl, hlid, hopen⟩ := h.placed.pending u x hx
    exact ⟨l, List.mem_append_left _ hl, hlid, hopen⟩

/-- A thread exits a scope whose id has been returned: the record is new and the
    only exit of the scope, and its copy is the closed scope. -/
theorem Chronicle.exitScope {t : ThreadId} {id : ScopeId} {outcome : Outcome} {finishedAt : Instant}
    {millis nanos : UInt64} {j : Journal} {rid : RecordId} {record : Record} {scope : Scope}
    (hpc : (s.threads t).pc = .user)
    (he : s.runtime.journal.exitScopeNoWrite id outcome finishedAt millis nanos =
      .ok (j, rid, some (record, scope))) (hm : s.runtime.recordIds < 2 ^ 64)
    (hreturned : ∀ u, (s.threads u).pending ≠ some id) :
    s.Keeps t
      { s.runtime with
        journal := j
        recordIds := s.runtime.recordIds + 1
        pushed := s.runtime.pushed ++ [record]
        lives := s.runtime.lives.map (.exit scope) }
      { s.threads t with
        stack := removeScopeFromStack (s.threads t).stack id
        pc := .writing record (some scope) } := by
  have hwf := h.tracked.wf
  obtain ⟨htracked, hback, hscope, hsid, hexited, l₀, hl₀, hl₀id, hl₀open⟩ := h.tracked.exit he
  obtain ⟨-, hrid, hnextr, -, -, -, -, hcase⟩ := Journal.exitScopeNoWrite_inv hwf he
  obtain ⟨hempty, hidle⟩ := Thread.inHand_of_user hpc
  obtain ⟨elapsed, hrecord⟩ : ∃ elapsed, record =
      ⟨rid, some id, nanos, .scopeExit outcome (durationNanos elapsed)⟩ := by
    split at hcase
    · cases hcase.1
    · obtain ⟨record', hpayload, rfl, -⟩ := hcase
      obtain ⟨rfl, -⟩ := Prod.mk.inj (Option.some.inj hpayload)
      exact ⟨_, rfl⟩
  have hremember : Remembers s.runtime.lives (s.runtime.lives.map (.exit scope)) := by
    refine remembers_map (Life.exit_id scope) ?_ _
    intro l hl
    unfold Life.exit
    split_ifs
    · rfl
    · exact hl
  have hends : (l₀.exit scope).exited = some scope := by
    rw [Life.exit, if_pos (hl₀id.trans hsid.symm)]
  obtain ⟨hnumbered, hnew⟩ : Numbered { s.runtime with
      journal := j
      recordIds := s.runtime.recordIds + 1
      pushed := s.runtime.pushed ++ [record]
      lives := s.runtime.lives.map (.exit scope) } ∧ record ∉ s.runtime.pushed :=
    h.numbered.push hm rfl (by rw [hrecord, hrid]) hnextr rfl hremember
    (by
      rw [hrecord]
      intro x o hxo
      obtain ⟨rfl, -⟩ := Prod.mk.inj (Option.some.inj hxo)
      refine ⟨?_, l₀.exit scope, List.mem_map_of_mem hl₀, by rw [Life.exit_id, hl₀id],
        by rw [hends]; rfl⟩
      intro l hl hlid
      rw [h.tracked.life_unique hl hl₀ (hlid.trans hl₀id.symm), hl₀open])
    (by
      rw [hrecord]
      intro x hx
      obtain rfl := Option.some.inj hx
      exact ⟨l₀, hl₀, hl₀id⟩)
  refine ⟨htracked, h.placed.update hremember (fun _ hx => .inr (mem_removeScopeFromStack hx))
    (by rintro x ⟨⟩) ?_, hnumbered,
    h.handed.take (p := ⟨some record, some scope⟩) hempty hidle rfl rfl rfl rfl hnew ?_ hback
      ?_ ?_⟩
  · intro u x hx
    obtain ⟨l, hl, rfl, hopen⟩ := h.placed.pending u x hx
    refine ⟨_, List.mem_map_of_mem hl, by rw [Life.exit_id], ?_⟩
    -- the id that is exited has been returned
    have hne : l.scope.id ≠ scope.id := by
      intro heq
      exact hreturned u (by rw [hx, heq, hsid])
    rw [Life.exit, if_neg hne, hopen]
  · refine ⟨by rw [hrecord]; simp, ?_⟩
    intro x hx
    obtain rfl := Option.some.inj hx
    rw [hrecord, hsid]
  · intro x hx
    obtain rfl := Option.some.inj hx
    exact hscope
  · intro l' hl'
    obtain ⟨l, hl, rfl⟩ := List.mem_map.1 hl'
    refine ⟨l, hl, by rw [Life.exit_id], ?_⟩
    intro hclosed
    by_cases hlid : l.scope.id = scope.id
    · exact .inr ⟨scope, rfl, hlid.symm, by rw [hexited]; rfl⟩
    · rw [Life.exit, if_neg hlid] at hclosed
      exact .inl hclosed

/-- A thread trims: no counter and no hand changes. -/
theorem Chronicle.trim {t : ThreadId} {max : ℕ} {record : Record} {scope : Option Scope}
    {j₁ j₂ : Journal} (hpc : (s.threads t).pc = .trimming max record scope)
    (hrecords : s.runtime.journal.trimRecords max = .ok j₁)
    (hscopes : j₁.trimScopes max = .ok j₂) :
    s.Keeps t { s.runtime with journal := j₂ } { s.threads t with pc := .writing record scope } := by
  have hwf := h.tracked.wf
  refine h.quiet (h.tracked.trim hrecords hscopes)
    ⟨fun l => l, fun _ => ⟨rfl, rfl⟩, (List.map_id' _).symm⟩ rfl rfl ?_ le_rfl ?_ ?_ fun _ hid => hid
  · obtain ⟨records, hok, hr, -⟩ := Journal.trimRecords_ok hwf _
    rw [hok] at hrecords
    obtain rfl := Except.ok.inj hrecords
    obtain ⟨scopes, hok, -⟩ := Journal.trimScopes_ok (j := { s.runtime.journal with
      buffer := { s.runtime.journal.buffer with records } }) ⟨hr, hwf.scopes⟩ _
    rw [hok] at hscopes
    obtain rfl := Except.ok.inj hscopes
    exact h.numbered.next
  · rw [Thread.inHand, Thread.inHand, hpc]
  · rw [Thread.pending, Thread.pending, hpc]

/-- A thread hands the metadata of its scope to the writer: the copy is backed. -/
theorem Chronicle.found {t : ThreadId} {id : ScopeId} {scope : Scope}
    (hpc : (s.threads t).pc = .lookingUp id)
    (hget : s.runtime.journal.getScope id = .ok (some scope)) :
    s.Keeps t
      { s.runtime with writer := s.runtime.writer.call (.scope scope), writerLocked := false }
      { s.threads t with pc := .user } := by
  have hheld : (s.threads t).inHand = none := by rw [Thread.inHand, hpc]
  have hpend : (s.threads t).pending = some id := by rw [Thread.pending, hpc]
  rw [Journal.getScope_ok h.tracked.wf] at hget
  obtain ⟨hxid, hback⟩ := h.tracked.backed_of_find (Except.ok.inj hget)
  exact ⟨h.tracked, h.placed.still (by rfl) (by rfl) (by rfl),
    h.numbered.frame rfl h.numbered.next le_rfl (remembers_refl _),
    h.handed.write (c := .scope scope) rfl rfl rfl rfl rfl
      (.inr ⟨scope, rfl, hheld, by rw [hpend, hxid], hback⟩)⟩

/-- An exit without an open scope takes a record id and nothing else. -/
theorem Chronicle.exitNothing {t : ThreadId} {id : ScopeId} {outcome : Outcome}
    {finishedAt : Instant} {millis nanos : UInt64} {j : Journal} {rid : RecordId}
    (he : s.runtime.journal.exitScopeNoWrite id outcome finishedAt millis nanos =
      .ok (j, rid, none)) :
    s.Keeps t { s.runtime with journal := j, recordIds := s.runtime.recordIds + 1 }
      { s.threads t with stack := removeScopeFromStack (s.threads t).stack id } := by
  obtain ⟨hwf', -, hnextr, hnexts, -, -, hret, hcase⟩ :=
    Journal.exitScopeNoWrite_inv h.tracked.wf he
  have hsame : j.retained = s.runtime.journal.retained := by
    split at hcase
    · rename_i hx
      exact hret.trans (Journal.closeIfOpen_missing hx)
    · obtain ⟨record, hpayload, -⟩ := hcase
      cases hpayload
  refine h.quiet (h.tracked.congr hwf' hsame hnexts)
    ⟨fun l => l, fun _ => ⟨rfl, rfl⟩, (List.map_id' _).symm⟩ rfl rfl ?_ (Nat.le_succ _) rfl rfl
    fun _ hx => mem_removeScopeFromStack hx
  rw [hnextr, h.numbered.next, UInt64.ofNat_add]
  rfl

/-- The messages of a scope are set, in its life as well. -/
theorem Chronicle.messages {t : ThreadId} {id : ScopeId} {msgs : ExitMessages} {j : Journal}
    {found : Bool} (he : s.runtime.journal.setScopeExitMessages id msgs = .ok (j, found)) :
    s.Keeps t
      { s.runtime with
        journal := j
        lives := if found then s.runtime.lives.map (.setMessages id msgs) else s.runtime.lives }
      (s.threads t) := by
  obtain ⟨htracked, hback⟩ := h.tracked.messages he
  have hnext : j.nextRecordId = s.runtime.journal.nextRecordId := by
    obtain ⟨scopes, found', hok, -⟩ := Journal.setScopeExitMessages_ok h.tracked.wf id msgs
    rw [hok] at he
    obtain ⟨rfl, -⟩ := Prod.mk.inj (Except.ok.inj he)
    rfl
  refine h.quiet ⟨htracked, hback⟩ ?_ rfl rfl (hnext.trans h.numbered.next) le_rfl rfl rfl
    fun _ hx => hx
  cases found with
  | true =>
    exact ⟨Life.setMessages id msgs,
      fun l => ⟨Life.setMessages_scope id msgs l, Life.setMessages_exited id msgs l⟩, rfl⟩
  | false => exact ⟨fun l => l, fun _ => ⟨rfl, rfl⟩, (List.map_id' _).symm⟩

/-- **A section of a live step** keeps the chronicle, while no counter has
    wrapped. -/
theorem Chronicle.section {t : ThreadId} {a : Act} (ha : s.Live (.call t a)) {r : Runtime}
    {th : Thread} (hsec : Section s.runtime (s.threads t) a r th) (hn : r.lives.length ≤ 2 ^ 64)
    (hm : r.recordIds ≤ 2 ^ 64) :
    s.Keeps t r th := by
  cases hsec with
  | emit hpc he => exact h.emit hpc he (Nat.lt_of_succ_le hm)
  | count hpc hnext =>
    refine h.pass rfl rfl rfl rfl rfl ?_ ?_ fun _ hid => hid
    · rw [Thread.inHand, Thread.inHand, hpc]
      rcases hnext with rfl | rfl <;> rfl
    · rw [Thread.pending, Thread.pending, hpc]
      rcases hnext with rfl | rfl <;> rfl
  | due hpc =>
    refine h.pass rfl rfl rfl rfl rfl ?_ ?_ fun _ hid => hid
    · rw [Thread.inHand, Thread.inHand, hpc]
    · rw [Thread.pending, Thread.pending, hpc]
  | trim hpc hrecords hscopes => exact h.trim hpc hrecords hscopes
  | @write record scope hpc hfree =>
    have hheld : (s.threads t).inHand = some ⟨some record, scope⟩ := by rw [Thread.inHand, hpc]
    have hnone : (s.threads t).pending = none := by rw [Thread.pending, hpc]
    exact ⟨h.tracked, h.placed.still (by rfl) (by rfl) (by rfl),
      h.numbered.frame rfl h.numbered.next le_rfl (remembers_refl _),
      h.handed.write (c := .record record scope) rfl rfl rfl rfl rfl (.inl ⟨hheld, hnone⟩)⟩
  | @enterScope name startedAt millis j id hpc he =>
    have hlen := hn
    simp only [List.length_append, List.length_singleton] at hlen
    exact h.enterScope hpc he hlen
  | lock hpc hfree hwants =>
    refine h.pass rfl rfl rfl rfl rfl ?_ ?_ fun _ hid => hid
    · rw [Thread.inHand, Thread.inHand, hpc]
    · rw [Thread.pending, Thread.pending, hpc]
  | unwanted hpc hfree hwants =>
    rw [h.handed.wants] at hwants
    cases hwants
  | found hpc hget => exact h.found hpc hget
  | @panic id hpc hnone =>
    obtain ⟨l, hl, rfl, hopen⟩ := h.placed.pending t id (by rw [Thread.pending, hpc])
    obtain ⟨x, hx⟩ := h.tracked.lookup hl hopen
    rw [hnone] at hx
    cases hx
  | exitScope hpc he => exact h.exitScope hpc he (Nat.lt_of_succ_le hm) ha.2
  | exitNothing hpc he => exact h.exitNothing he
  | messages hpc he => exact h.messages he
  | clear => exact ha.elim
  | finishClear hpc =>
    refine h.pass rfl rfl rfl rfl rfl ?_ ?_ (by rintro x ⟨⟩)
    · rw [Thread.inHand, Thread.inHand, hpc]
    · rw [Thread.pending, Thread.pending, hpc]
  | updateWriters => exact ha.elim
  | retention hpc => exact h.pass rfl rfl rfl rfl rfl rfl rfl fun _ hid => hid

/-- The steps of contexts move stacks around. -/
theorem Chronicle.context {a : Action} (hs : s.step a = some s') (ha : ∀ t b, a ≠ .call t b) :
    Chronicle s' := by
  obtain ⟨hruntime, hth⟩ := Process.step_context hs ha
  have hplaced : (∀ t, ∀ id ∈ (s'.threads t).stack, s.runtime.Known id) ∧
      ∀ f w, s'.futures f = some w → ∀ id ∈ w.stack, s.runtime.Known id := by
    have hstacked := h.placed.stacked
    have hwrapped := h.placed.wrapped
    cases a with
    | call t b => exact absurd rfl (ha t b)
    | wrap t f capture =>
      obtain ⟨stack, -, -, hstack, rfl⟩ := Process.wrap_inv hs
      refine ⟨hstacked, (Function.forall_update_iff s.futures (p := fun _ x => ∀ w, x = some w →
        ∀ id ∈ w.stack, s.runtime.Known id)).2 ⟨?_, fun f' _ => hwrapped f'⟩⟩
      intro w hw id hid
      obtain rfl := Option.some.inj hw
      rw [hstack] at hid
      split_ifs at hid
      · exact hstacked t id hid
      · cases hid
    | install t f =>
      obtain ⟨stack, -, hf, rfl⟩ := Process.install_inv hs
      refine ⟨(Function.forall_update_iff s.threads (p := fun _ x =>
        ∀ id ∈ x.stack, s.runtime.Known id)).2 ⟨hwrapped f _ hf, fun u _ => hstacked u⟩,
        (Function.forall_update_iff s.futures (p := fun _ x => ∀ w, x = some w →
          ∀ id ∈ w.stack, s.runtime.Known id)).2 ⟨?_, fun f' _ => hwrapped f'⟩⟩
      intro w hw id hid
      obtain rfl := Option.some.inj hw
      exact hstacked t id hid
    | uninstall t dropped =>
      obtain ⟨frame, frames, w, -, -, hw, rfl⟩ := Process.uninstall_inv hs
      refine ⟨(Function.forall_update_iff s.threads (p := fun _ x =>
        ∀ id ∈ x.stack, s.runtime.Known id)).2 ⟨hwrapped _ w hw, fun u _ => hstacked u⟩,
        (Function.forall_update_iff s.futures (p := fun _ x => ∀ w, x = some w →
          ∀ id ∈ w.stack, s.runtime.Known id)).2 ⟨?_, fun f' _ => hwrapped f'⟩⟩
      intro x hx id hid
      split_ifs at hx
      obtain rfl := Option.some.inj hx
      exact hstacked t id hid
  have hpc : ∀ u, (s'.threads u).inHand = (s.threads u).inHand ∧
      (s'.threads u).pending = (s.threads u).pending := by
    intro u
    rw [Thread.inHand, Thread.pending, (hth u).1, Thread.inHand, Thread.pending]
    exact ⟨rfl, rfl⟩
  refine ⟨by rw [hruntime]; exact h.tracked, ?_, by rw [hruntime]; exact h.numbered, ?_⟩
  · refine ⟨by rw [hruntime]; exact hplaced.1, by rw [hruntime]; exact hplaced.2, ?_⟩
    intro u id hid
    rw [(hpc u).2] at hid
    rw [hruntime]
    exact h.placed.pending u id hid
  · rw [hruntime]
    exact h.handed.frame rfl rfl (fun _ hx => hx) (fun l hl => ⟨l, hl, rfl, rfl⟩) hpc

/-- **A live step** keeps the chronicle, while no counter has wrapped. -/
theorem Chronicle.step {a : Action} (ha : s.Live a) (hs : s.step a = some s')
    (hn : s'.runtime.lives.length ≤ 2 ^ 64) (hm : s'.runtime.recordIds ≤ 2 ^ 64) : Chronicle s' := by
  by_cases hcall : ∃ t b, a = .call t b
  · obtain ⟨t, b, rfl⟩ := hcall
    obtain ⟨r, th, hsec, hr, hthreads, hfutures, -⟩ := Process.call_inv hs
    rw [hr] at hn hm
    obtain ⟨htracked, hplaced, hnumbered, hhanded⟩ := h.section ha hsec hn hm
    exact ⟨hr ▸ htracked, by rw [hr, hthreads, hfutures]; exact hplaced, hr ▸ hnumbered,
      by rw [hr, hthreads]; exact hhanded⟩
  · exact h.context hs fun t b he => hcall ⟨t, b, he⟩

end

/-- Ids are only given out. -/
theorem Section.counts {r r' : Runtime} {th th' : Thread} {a : Act} (h : Section r th a r' th') :
    r.lives.length ≤ r'.lives.length ∧ r.recordIds ≤ r'.recordIds := by
  cases h with
  | emit => exact ⟨le_rfl, Nat.le_succ _⟩
  | enterScope => exact ⟨by simp, le_rfl⟩
  | exitScope => exact ⟨by simp, Nat.le_succ _⟩
  | exitNothing => exact ⟨le_rfl, Nat.le_succ _⟩
  | messages =>
    refine ⟨?_, le_rfl⟩
    dsimp only
    split_ifs
    · rw [List.length_map]
    · exact le_rfl
  | _ => exact ⟨le_rfl, le_rfl⟩

theorem Process.step_counts {s s' : Process} {a : Action} (hs : s.step a = some s') :
    s.runtime.lives.length ≤ s'.runtime.lives.length ∧
      s.runtime.recordIds ≤ s'.runtime.recordIds := by
  by_cases hcall : ∃ t b, a = .call t b
  · obtain ⟨t, b, rfl⟩ := hcall
    obtain ⟨r, th, hsec, rfl, -⟩ := Process.call_inv hs
    exact hsec.counts
  · rw [(Process.step_context hs fun t b he => hcall ⟨t, b, he⟩).1]
    exact ⟨le_rfl, le_rfl⟩

/-- **Every run of live steps** that gives out at most 2⁶⁴ ids of each kind has
    a chronicle. -/
theorem Chronicle.of_run {runId : String} {max : ℕ} {actions : List Action} {s : Process}
    (hrun : Machine.run Process.step (.new runId true max) actions = some s)
    (hlive : Machine.Meets Process.step Process.Live (.new runId true max) actions)
    (hn : s.runtime.lives.length ≤ 2 ^ 64) (hm : s.runtime.recordIds ≤ 2 ^ 64) : Chronicle s := by
  refine Machine.run_invariant_of_meets
    (I := fun s => s.runtime.lives.length ≤ 2 ^ 64 → s.runtime.recordIds ≤ 2 ^ 64 → Chronicle s)
    ?_ hrun hlive (fun _ _ => new_chronicle runId max) hn hm
  intro s a s' h ha hs hn hm
  obtain ⟨hn', hm'⟩ := Process.step_counts hs
  exact (h (hn'.trans hn) (hm'.trans hm)).step ha hs hn hm

end Eventline
