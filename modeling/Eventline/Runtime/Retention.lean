/-
  Retention: how many records and closed scopes the runtime holds.

  `emit` and `exit_scope` push records and `exit_scope` closes scopes, but only
  every 128th `emit` trims.

  * `Ledger` counts the pushes and closings of a run, and how many of them came
    before the last trim; `Accounted`: what the journal holds follows from it,
    in every interleaving.
  * `Tally` counts the calls alone; `Timely`: when they come one after another,
    it says where the trims are.
  * `retention_bounded`: the bound holds in a run of calls exactly when the
    emits and exits after the emits 1, 129, 257, ... never outgrow it.
  * `exits_unbounded`: a run of entries and exits alone breaks it.
-/
import Eventline.Runtime.Machine
import Eventline.Wire.Render

namespace Eventline

open Checked Slots

namespace Journal

/-- The number of closed scopes held. -/
def closedScopes (j : Journal) : ℕ := j.scopes.countP fun s => s.exitedAt.isSome

/-- The number of records and that of closed scopes are at most `TRIM_INTERVAL`
    over the cap. -/
def Bounded (max : ℕ) (j : Journal) : Prop :=
  j.records.length ≤ max + trimInterval.toNat ∧ j.closedScopes ≤ max + trimInterval.toNat

end Journal

/-- Neither a clear nor a change of the cap. -/
def Action.keepsRetention : Action → Bool
  | .call _ .clear | .call _ (.setJournalRetention _) => false
  | _ => true

/-- The records pushed and the scopes closed so far, and those of them that came
    before the last trim. -/
structure Ledger where
  pushes : ℕ
  closings : ℕ
  trimmedPushes : ℕ
  trimmedClosings : ℕ

namespace Ledger

def new : Ledger := ⟨0, 0, 0, 0⟩

/-- The ledger after a step. -/
def after (s : Process) (l : Ledger) : Action → Ledger
  | .call _ (.emit ..) => { l with pushes := l.pushes + 1 }
  | .call _ (.exitScope id ..) =>
    if s.runtime.journal.isOpen id then
      { l with pushes := l.pushes + 1, closings := l.closings + 1 } else l
  | .call t .next =>
    match (s.threads t).pc with
    | .trimming .. => { l with trimmedPushes := l.pushes, trimmedClosings := l.closings }
    | _ => l
  | _ => l

/-- The ledger after a run. -/
def ofRun (s : Process) (l : Ledger) : List Action → Ledger
  | [] => l
  | a :: actions =>
    match s.step a with
    | some s' => ofRun s' (l.after s a) actions
    | none => l

/-- What a trim left (all there was, up to the cap) and what came since is at
    most `TRIM_INTERVAL` over the cap. -/
def Within (max : ℕ) (l : Ledger) : Prop :=
  min max l.trimmedPushes + (l.pushes - l.trimmedPushes) ≤ max + trimInterval.toNat ∧
    min max l.trimmedClosings + (l.closings - l.trimmedClosings) ≤ max + trimInterval.toNat

instance (max : ℕ) (l : Ledger) : Decidable (l.Within max) := inferInstanceAs (Decidable (_ ∧ _))

end Ledger

/-! ## What the operations do to the number of closed scopes -/

namespace Journal

variable {j j' : Journal}

theorem closedScopes_eq (j : Journal) : j.closedScopes = j.retained.countP Scopes.isClosed := by
  rw [closedScopes, scopes_eq, List.countP_map]
  rfl

theorem closedScopes_push (hwf : j.WF) {name : Option String} {parent : Option ScopeId}
    {t : Instant} {ms : UInt64} {id : ScopeId} (h : j.pushScope name parent t ms = .ok (j', id)) :
    j'.records = j.records ∧ j'.closedScopes = j.closedScopes := by
  obtain ⟨-, -, hret, hrecords, -⟩ := pushScope_inv hwf h
  constructor
  · rw [records, hrecords, records]
  · rw [closedScopes_eq, hret, List.countP_append, closedScopes_eq]
    rfl

theorem closedScopes_messages (hwf : j.WF) {id : ScopeId} {msgs : ExitMessages} {found : Bool}
    (h : j.setScopeExitMessages id msgs = .ok (j', found)) :
    j'.records = j.records ∧ j'.closedScopes = j.closedScopes := by
  obtain ⟨scopes, found', hok, -, hret⟩ := setScopeExitMessages_ok hwf id msgs
  rw [hok] at h
  obtain ⟨rfl, -⟩ := Prod.mk.inj (Except.ok.inj h)
  refine ⟨rfl, ?_⟩
  have hkeep := map_updateFirst_of_eq (p := Scopes.hasId id) (f := (·.setMessages msgs))
    (e := Scopes.isClosed) (fun b => rfl) j.retained
  have hcount : ∀ l : List BufferedScope, l.countP Scopes.isClosed =
      (l.map Scopes.isClosed).countP fun closed => closed := by
    intro l
    rw [List.countP_map]
    rfl
  rw [closedScopes_eq, retained, hret, hcount, hkeep, ← hcount, closedScopes_eq]

/-- An exit of a scope that is not open changes nothing that is counted; one of
    an open scope pushes a record and closes the scope. -/
theorem closedScopes_exit (hwf : j.WF) {id : ScopeId} {outcome : Outcome} {t : Instant}
    {ms ns : UInt64} {rid : RecordId} {payload : Option (Record × Scope)}
    (h : j.exitScopeNoWrite id outcome t ms ns = .ok (j', rid, payload)) :
    payload.isSome = j.isOpen id ∧
      j'.records.length = j.records.length + (j.isOpen id).toNat ∧
      j'.closedScopes = j.closedScopes + (j.isOpen id).toNat := by
  obtain ⟨-, -, -, -, -, -, hret, hcase⟩ := exitScopeNoWrite_inv hwf h
  rw [closedScopes_eq, hret, closedScopes_eq]
  cases hfind : j.retained.find? (Scopes.hasId id) with
  | none =>
    have hnone := List.find?_eq_none.1 hfind
    rw [updateFirst_of_none (by simpa using hnone), isOpen, hfind]
    rw [hfind] at hcase
    obtain ⟨rfl, hrecords, -⟩ := hcase
    exact ⟨rfl, by rw [hrecords]; rfl, rfl⟩
  | some b =>
    obtain ⟨pre, post, hsplit, hb, hpre⟩ := find?_split hfind
    rw [hfind] at hcase
    rw [hsplit, updateFirst_split hb hpre, isOpen, ← hsplit, hfind, hsplit]
    cases hcl : Scopes.isClosed b with
    | true =>
      simp only [Option.bind_some, Scopes.exitOf, hcl, if_true] at hcase
      obtain ⟨rfl, hrecords, -⟩ := hcase
      refine ⟨by simp [hcl], by simp [hcl, hrecords], ?_⟩
      simp [Scopes.closeIfOpen, hcl]
    | false =>
      simp only [Option.bind_some, Scopes.exitOf, hcl, Bool.false_eq_true, if_false] at hcase
      obtain ⟨record, rfl, -, hrecords, -⟩ := hcase
      refine ⟨by simp [hcl], by simp [hcl, hrecords], ?_⟩
      simp [Scopes.closeIfOpen, hcl, List.countP_append]
      omega

theorem closedScopes_trim (hwf : j.WF) {max : ℕ} {j₁ j₂ : Journal}
    (hrecords : j.trimRecords max = .ok j₁) (hscopes : j₁.trimScopes max = .ok j₂) :
    j₂.records.length = min max j.records.length ∧ j₂.closedScopes = min max j.closedScopes := by
  obtain ⟨records, hok, hr, hents⟩ := trimRecords_ok hwf max
  rw [hok] at hrecords
  obtain rfl := Except.ok.inj hrecords
  obtain ⟨scopes, hok, -, hret⟩ := trimScopes_ok (j := { j with
    buffer := { j.buffer with records } }) ⟨hr, hwf.scopes⟩ max
  rw [hok] at hscopes
  obtain rfl := Except.ok.inj hscopes
  constructor
  · have hlen := congrArg List.length hents
    rw [List.length_drop] at hlen
    have hdef : (records.entries).length = _ := hlen
    exact hdef.trans (by omega)
  · rw [closedScopes_eq, retained, hret, countP_dropFirst, closedScopes_eq]
    have heq : ({ j with buffer := { j.buffer with records } } : Journal).retained = j.retained := rfl
    rw [heq]
    omega

end Journal

/-! ## The account -/

/-- What the journal holds is what the ledger says. -/
structure Accounted (max : ℕ) (s : Process) (l : Ledger) : Prop where
  journal : s.runtime.journal.WF
  cap : s.runtime.maxJournalRecords = max
  read : ∀ t m record scope, (s.threads t).pc = .trimming m record scope → m = max
  pushes : l.trimmedPushes ≤ l.pushes
  closings : l.trimmedClosings ≤ l.closings
  records : s.runtime.journal.records.length =
    min max l.trimmedPushes + (l.pushes - l.trimmedPushes)
  closed : s.runtime.journal.closedScopes =
    min max l.trimmedClosings + (l.closings - l.trimmedClosings)

theorem new_accounted (runId : String) (wants : Bool) (max : ℕ) :
    Accounted max (.new runId wants max) .new where
  journal := Journal.new_wf runId
  cap := rfl
  read t m record scope h := by cases h
  pushes := le_rfl
  closings := le_rfl
  records := (Nat.min_zero max).symm
  closed := (Nat.min_zero max).symm

/-- A section that neither trims nor changes the cap, and what it adds. -/
theorem Accounted.adds {max : ℕ} {s s' : Process} {l : Ledger} (h : Accounted max s l)
    {t : ThreadId} {th : Thread} (hwf : s'.runtime.journal.WF)
    (hcap : s'.runtime.maxJournalRecords = s.runtime.maxJournalRecords)
    (hthreads : s'.threads = Function.update s.threads t th)
    (hpc : ∀ m record scope, th.pc = .trimming m record scope →
      m = max ∨ (s.threads t).pc = .trimming m record scope)
    {n k : ℕ} (hrecords : s'.runtime.journal.records.length = s.runtime.journal.records.length + n)
    (hclosed : s'.runtime.journal.closedScopes = s.runtime.journal.closedScopes + k) :
    Accounted max s' { l with pushes := l.pushes + n, closings := l.closings + k } where
  journal := hwf
  cap := hcap.trans h.cap
  read u m record scope hu := by
    rw [hthreads] at hu
    by_cases hut : u = t
    · subst hut
      rw [Function.update_self] at hu
      rcases hpc m record scope hu with hm | hold
      · exact hm
      · exact h.read u m record scope hold
    · rw [Function.update_of_ne hut] at hu
      exact h.read u m record scope hu
  pushes := h.pushes.trans (Nat.le_add_right _ _)
  closings := h.closings.trans (Nat.le_add_right _ _)
  records := by
    have := h.pushes
    rw [hrecords, h.records]
    dsimp only
    omega
  closed := by
    have := h.closings
    rw [hclosed, h.closed]
    dsimp only
    omega

theorem Accounted.call {max : ℕ} {s s' : Process} {l : Ledger} (h : Accounted max s l)
    {t : ThreadId} {a : Act} (ha : (Action.call t a).keepsRetention = true)
    (hs : s.call t a = some s') : Accounted max s' (l.after s (.call t a)) := by
  obtain ⟨r, th, hsec, rfl, hthreads, -, -⟩ := Process.call_inv hs
  have hwf := hsec.wf h.journal
  -- the sections that push and close nothing
  have hsame : l.after s (.call t a) = l →
      s'.runtime.maxJournalRecords = s.runtime.maxJournalRecords →
      (∀ m record scope, th.pc = .trimming m record scope →
        m = max ∨ (s.threads t).pc = .trimming m record scope) →
      s'.runtime.journal.records = s.runtime.journal.records ∧
        s'.runtime.journal.closedScopes = s.runtime.journal.closedScopes →
      Accounted max s' (l.after s (.call t a)) := by
    intro hl hcap hpc hj
    rw [hl]
    exact h.adds (n := 0) (k := 0) hwf hcap hthreads hpc (by rw [hj.1]; rfl) hj.2
  generalize hr : s'.runtime = r at hsec hsame
  cases hsec with
  | emit hpc he =>
    obtain ⟨records, rfl, -, hents, -⟩ := Journal.recordNoWriteInScope_inv h.journal he
    refine h.adds (n := 1) (k := 0) hwf (by rw [hr]) hthreads (by simp) ?_ (by rw [hr]; rfl)
    rw [hr]
    exact (congrArg List.length hents).trans (List.length_append ..)
  | count hpc hnext =>
    refine hsame (by simp [Ledger.after, hpc]) rfl ?_ ⟨rfl, rfl⟩
    rcases hnext with rfl | rfl
    · simp
    · simp
  | due hpc =>
    refine hsame (by simp [Ledger.after, hpc]) rfl ?_ ⟨rfl, rfl⟩
    rintro m record scope ⟨⟩
    exact .inl h.cap
  | @trim m record scope j₁ j₂ hpc hrecords hscopes =>
    obtain rfl := h.read t m record scope hpc
    obtain ⟨hlen, hclosed⟩ := Journal.closedScopes_trim h.journal hrecords hscopes
    have hl : l.after s (.call t .next) =
        { l with trimmedPushes := l.pushes, trimmedClosings := l.closings } := by
      simp [Ledger.after, hpc]
    rw [hl]
    refine ⟨hwf, by rw [hr]; exact h.cap, ?_, le_rfl, le_rfl, ?_, ?_⟩
    · intro u m' record' scope' hu
      rw [hthreads] at hu
      by_cases hut : u = t
      · subst hut
        rw [Function.update_self] at hu
        cases hu
      · rw [Function.update_of_ne hut] at hu
        exact h.read u m' record' scope' hu
    · have hpushes := h.pushes
      rw [hr]
      dsimp only
      rw [hlen, h.records]
      omega
    · have hclosings := h.closings
      rw [hr]
      dsimp only
      rw [hclosed, h.closed]
      omega
  | enterScope hpc he =>
    exact hsame rfl rfl (by simp) (Journal.closedScopes_push h.journal he)
  | @exitScope id outcome finishedAt millis nanos j rid record scope hpc he =>
    obtain ⟨hopen, hlen, hclosed⟩ := Journal.closedScopes_exit h.journal he
    simp only [Option.isSome_some] at hopen
    have hl : l.after s (.call t (.exitScope id outcome finishedAt millis nanos)) =
        { l with pushes := l.pushes + 1, closings := l.closings + 1 } := by
      simp [Ledger.after, ← hopen]
    rw [hl]
    rw [← hopen] at hlen hclosed
    exact h.adds hwf (by rw [hr]) hthreads (by simp) (by rw [hr]; exact hlen)
      (by rw [hr]; exact hclosed)
  | @exitNothing id outcome finishedAt millis nanos j rid hpc he =>
    obtain ⟨hopen, hlen, hclosed⟩ := Journal.closedScopes_exit h.journal he
    simp only [Option.isSome_none] at hopen
    have hl : l.after s (.call t (.exitScope id outcome finishedAt millis nanos)) = l := by
      simp [Ledger.after, ← hopen]
    rw [hl]
    rw [← hopen] at hlen hclosed
    exact h.adds (n := 0) (k := 0) hwf (by rw [hr]) hthreads (by simp [hpc]) (by rw [hr]; exact hlen)
      (by rw [hr]; exact hclosed)
  | messages hpc he =>
    exact hsame rfl rfl (by simp [hpc]) (Journal.closedScopes_messages h.journal he)
  | clear => cases ha
  | retention => cases ha
  | found hpc => exact hsame (by simp [Ledger.after, hpc]) rfl (by simp) ⟨rfl, rfl⟩
  | updateWriters hpc => exact hsame rfl rfl (by simp [hpc]) ⟨rfl, rfl⟩
  | write hpc => exact hsame (by simp [Ledger.after, hpc]) rfl (by simp) ⟨rfl, rfl⟩
  | lock hpc => exact hsame (by simp [Ledger.after, hpc]) rfl (by simp) ⟨rfl, rfl⟩
  | unwanted hpc => exact hsame (by simp [Ledger.after, hpc]) rfl (by simp) ⟨rfl, rfl⟩
  | panic hpc => exact hsame (by simp [Ledger.after, hpc]) rfl (by simp) ⟨rfl, rfl⟩
  | finishClear hpc => exact hsame (by simp [Ledger.after, hpc]) rfl (by simp) ⟨rfl, rfl⟩

theorem Accounted.step {max : ℕ} {s s' : Process} {l : Ledger} (h : Accounted max s l) {a : Action}
    (ha : a.keepsRetention = true) (hs : s.step a = some s') : Accounted max s' (l.after s a) := by
  by_cases hcall : ∃ t b, a = .call t b
  · obtain ⟨t, b, rfl⟩ := hcall
    exact h.call ha hs
  · have hne : ∀ t b, a ≠ .call t b := fun t b he => hcall ⟨t, b, he⟩
    obtain ⟨hr, hth⟩ := Process.step_context hs hne
    have hl : l.after s a = l := by
      cases a with
      | call t b => exact absurd rfl (hne t b)
      | _ => rfl
    rw [hl]
    refine ⟨hr ▸ h.journal, hr ▸ h.cap, ?_, h.pushes, h.closings, hr ▸ h.records, hr ▸ h.closed⟩
    intro t m record scope hpc
    exact h.read t m record scope ((hth t).1 ▸ hpc)

/-- **What a run holds**: the ledger says it exactly. -/
theorem Accounted.run {max : ℕ} {s s' : Process} {l : Ledger} (h : Accounted max s l)
    {actions : List Action} (ha : ∀ a ∈ actions, a.keepsRetention = true)
    (hs : Machine.run Process.step s actions = some s') :
    Accounted max s' (Ledger.ofRun s l actions) := by
  induction actions generalizing s l with
  | nil =>
    obtain rfl := Option.some.inj hs
    exact h
  | cons a actions ih =>
    obtain ⟨hhead, htail⟩ := List.forall_mem_cons.1 ha
    obtain ⟨u, hu, hs⟩ := Machine.run_cons_eq_some.1 hs
    rw [Ledger.ofRun, hu]
    exact ih (h.step hhead hu) htail hs

theorem Accounted.bounded_iff {max : ℕ} {s : Process} {l : Ledger} (h : Accounted max s l) :
    s.runtime.journal.Bounded max ↔ l.Within max := by
  rw [Journal.Bounded, Ledger.Within, h.records, h.closed]

/-! ## Calls one after another -/

/-- A record that a call pushes. -/
inductive Push where
  | emit
  /-- an exit of a scope that is open -/
  | exit
  deriving DecidableEq, Repr

def Action.push? (s : Process) : Action → Option Push
  | .call _ (.emit ..) => some .emit
  | .call _ (.exitScope id ..) => if s.runtime.journal.isOpen id then some .exit else none
  | _ => none

/-- The records that the calls of a run push, in order. -/
def Process.pushes (s : Process) : List Action → List Push
  | [] => []
  | a :: actions =>
    match s.step a with
    | some s' => (a.push? s).toList ++ s'.pushes actions
    | none => []

/-- A call starts when no other is under way. -/
def Action.InTurn (s : Process) : Action → Prop
  | .call _ .next => True
  | .call _ _ => ∀ u, (s.threads u).pc = .user
  | _ => True

/-- A tally of records pushed: the emits, and the records up to and since the
    last emit that is due to trim.  These are the emits 1, 129, 257, ... -/
structure Tally where
  emits : ℕ
  before : ℕ
  since : ℕ

namespace Tally

def new : Tally := ⟨0, 0, 0⟩

def push (k : Tally) : Push → Tally
  | .emit =>
    if k.emits % trimInterval.toNat = 0 then ⟨k.emits + 1, k.before + k.since + 1, 0⟩
    else ⟨k.emits + 1, k.before, k.since + 1⟩
  | .exit => { k with since := k.since + 1 }

/-- One more record may come before the next trim: fewer than `TRIM_INTERVAL`
    came since the last one, not counting those that the cap leaves room for. -/
def Room (max : ℕ) (k : Tally) : Prop := k.since < trimInterval.toNat + (max - k.before)

instance (max : ℕ) (k : Tally) : Decidable (k.Room max) := inferInstanceAs (Decidable (_ < _))

end Tally

/-- There is room for each record when it is pushed. -/
def Fits (max : ℕ) : Tally → List Push → Prop
  | _, [] => True
  | k, p :: ps => k.Room max ∧ Fits max (k.push p) ps

instance decidableFits (max : ℕ) : (k : Tally) → (ps : List Push) → Decidable (Fits max k ps)
  | _, [] => .isTrue trivial
  | k, p :: ps => have := decidableFits max (k.push p) ps; instDecidableAnd

theorem fits_toList_append {max : ℕ} {k : Tally} {p : Option Push} {ps : List Push} :
    Fits max k (p.toList ++ ps) ↔
      (∀ q, p = some q → k.Room max) ∧ Fits max (p.toList.foldl Tally.push k) ps := by
  cases p with
  | none => simp
  | some q => simp [Fits]

/-- How far the tally is ahead of the ledger, by where the call under way is. -/
def Pc.InStep (count : UInt64) (l : Ledger) (k : Tally) : Pc → Prop
  | .recorded .. => count + 1 = UInt64.ofNat k.emits ∧
      if count % trimInterval = 0 then k.since = 0 else k.before = l.trimmedPushes
  | .due .. | .trimming .. => count = UInt64.ofNat k.emits ∧ k.since = 0
  | .clearing => False
  | _ => count = UInt64.ofNat k.emits ∧ k.before = l.trimmedPushes

/-- The ledger and the tally of a run whose calls come one after another. -/
structure Timely (s : Process) (l : Ledger) (k : Tally) : Prop where
  total : k.before + k.since = l.pushes
  alone : ∃ t, (∀ u, u ≠ t → (s.threads u).pc = .user) ∧
    (s.threads t).pc.InStep s.runtime.emitCount l k
  closings : l.closings ≤ l.pushes
  trimmed : l.trimmedClosings ≤ l.trimmedPushes
  since : l.closings - l.trimmedClosings ≤ l.pushes - l.trimmedPushes

theorem new_timely (runId : String) (wants : Bool) (max : ℕ) :
    Timely (.new runId wants max) .new .new where
  total := rfl
  alone := ⟨0, fun _ _ => rfl, rfl, rfl⟩
  closings := le_rfl
  trimmed := le_rfl
  since := le_rfl

/-- The count of the emits wraps at a multiple of `TRIM_INTERVAL`. -/
theorem count_mod_eq_zero {count : UInt64} {n : ℕ} (h : count = UInt64.ofNat n) :
    count % trimInterval = 0 ↔ n % trimInterval.toNat = 0 := by
  have htrim : trimInterval.toNat = 128 := rfl
  have hwrap : (UInt64.ofNat n).toNat = n % 2 ^ 64 := UInt64.toNat_ofNat'
  rw [← UInt64.toNat_inj, UInt64.toNat_mod, h, htrim, hwrap,
    Nat.mod_mod_of_dvd n (show 128 ∣ 2 ^ 64 by decide)]
  rfl

section
variable {s s' : Process} {l : Ledger} {k : Tally} {t : ThreadId} {a : Act}

/-- A call that starts: nothing is under way. -/
theorem Timely.idle (h : Timely s l k) (hidle : ∀ u, (s.threads u).pc = .user) :
    s.runtime.emitCount = UInt64.ofNat k.emits ∧ k.before = l.trimmedPushes := by
  obtain ⟨t, -, hstep⟩ := h.alone
  rwa [hidle t] at hstep

/-- The thread that goes on is the one with a call under way. -/
theorem Timely.busy (h : Timely s l k) (hpc : (s.threads t).pc ≠ .user) :
    (∀ u, u ≠ t → (s.threads u).pc = .user) ∧ (s.threads t).pc.InStep s.runtime.emitCount l k := by
  obtain ⟨v, hothers, hstep⟩ := h.alone
  by_cases hv : t = v
  · rw [hv]
    exact ⟨hothers, hstep⟩
  · exact absurd (hothers t hv) hpc

/-- The thread of the step goes to another place, the others stay. -/
theorem Timely.moves {th : Thread} {k' : Tally} {l' : Ledger}
    (hthreads : s'.threads = Function.update s.threads t th)
    (hothers : ∀ u, u ≠ t → (s.threads u).pc = .user)
    (htotal : k'.before + k'.since = l'.pushes) (hstep : th.pc.InStep s'.runtime.emitCount l' k')
    (hclosings : l'.closings ≤ l'.pushes) (htrimmed : l'.trimmedClosings ≤ l'.trimmedPushes)
    (hsince : l'.closings - l'.trimmedClosings ≤ l'.pushes - l'.trimmedPushes) :
    Timely s' l' k' where
  total := htotal
  alone := by
    refine ⟨t, fun u hu => ?_, ?_⟩
    · rw [hthreads, Function.update_of_ne hu]
      exact hothers u hu
    · rw [hthreads, Function.update_self]
      exact hstep
  closings := hclosings
  trimmed := htrimmed
  since := hsince

/-- A section that pushes nothing and does not trim. -/
theorem Timely.goes (h : Timely s l k) {th : Thread}
    (hthreads : s'.threads = Function.update s.threads t th)
    (hothers : ∀ u, u ≠ t → (s.threads u).pc = .user)
    (hstep : th.pc.InStep s'.runtime.emitCount l k) : Timely s' l k :=
  .moves hthreads hothers h.total hstep h.closings h.trimmed h.since

/-- An emit takes its number. -/
theorem Timely.count (h : Timely s l k) {record : Record} {scope : Option Scope}
    (hpc : (s.threads t).pc = .recorded record scope) (hs : s.call t .next = some s') :
    Timely s' l k := by
  obtain ⟨hothers, hstep⟩ := h.busy (by rw [hpc]; exact Pc.noConfusion)
  rw [hpc] at hstep
  obtain ⟨hcount, hdue⟩ := hstep
  obtain ⟨s'', hs'', hr, hth⟩ := Process.call_ok (s := s) (t := t) (a := .next)
    (show s.runtime.act (s.threads t) .next = some (s.runtime.countEmit (s.threads t) record scope)
      by rw [Runtime.act, Runtime.next, hpc])
  obtain rfl : s'' = s' := Option.some.inj (hs''.symm.trans hs)
  refine h.goes hth hothers ?_
  rw [hr]
  show Pc.InStep (s.runtime.emitCount + 1) l k
    (if s.runtime.emitCount % trimInterval = 0 then .due record scope else .writing record scope)
  split_ifs at hdue ⊢ with htrim
  · exact ⟨hcount, hdue⟩
  · exact ⟨hcount, hdue⟩

/-- An emit pushes its record. -/
theorem Timely.emit (h : Timely s l k) {th : Thread} {record : Record} {scope : Option Scope}
    (hidle : ∀ u, (s.threads u).pc = .user)
    (hthreads : s'.threads = Function.update s.threads t th)
    (hcount : s'.runtime.emitCount = s.runtime.emitCount) (hpc : th.pc = .recorded record scope) :
    Timely s' { l with pushes := l.pushes + 1 } (k.push .emit) := by
  obtain ⟨hemits, hbefore⟩ := h.idle hidle
  have htotal := h.total
  have hclosings := h.closings
  have hsince := h.since
  have hdue := count_mod_eq_zero hemits
  have hnext : s.runtime.emitCount + 1 = UInt64.ofNat (k.emits + 1) := by
    rw [hemits, UInt64.ofNat_add]
    rfl
  refine .moves hthreads (fun u _ => hidle u) ?_ ?_ (by dsimp only; omega) h.trimmed
    (by dsimp only; omega)
  · rw [Tally.push]
    split_ifs
    · dsimp only
      omega
    · dsimp only
      omega
  · rw [hpc, hcount, Tally.push]
    by_cases htrim : k.emits % trimInterval.toNat = 0
    · rw [if_pos htrim]
      exact ⟨hnext, by rw [if_pos (hdue.2 htrim)]⟩
    · rw [if_neg htrim]
      exact ⟨hnext, by rw [if_neg (mt hdue.1 htrim)]; exact hbefore⟩

/-- An exit of an open scope pushes its record. -/
theorem Timely.exit (h : Timely s l k) {th : Thread} {record : Record} {scope : Option Scope}
    (hidle : ∀ u, (s.threads u).pc = .user)
    (hthreads : s'.threads = Function.update s.threads t th)
    (hcount : s'.runtime.emitCount = s.runtime.emitCount) (hpc : th.pc = .writing record scope) :
    Timely s' { l with pushes := l.pushes + 1, closings := l.closings + 1 } (k.push .exit) := by
  obtain ⟨hemits, hbefore⟩ := h.idle hidle
  have htotal := h.total
  have hclosings := h.closings
  have hsince := h.since
  refine .moves hthreads (fun u _ => hidle u) ?_ ?_ (by dsimp only; omega) h.trimmed
    (by dsimp only; omega)
  · rw [Tally.push]
    dsimp only
    omega
  · rw [hpc, hcount]
    exact ⟨hemits, hbefore⟩

/-- The trim of the emit that is due. -/
theorem Timely.trim (h : Timely s l k) {th : Thread} {max : ℕ} {record : Record}
    {scope : Option Scope} (hold : (s.threads t).pc = .trimming max record scope)
    (hthreads : s'.threads = Function.update s.threads t th)
    (hcount : s'.runtime.emitCount = s.runtime.emitCount) (hpc : th.pc = .writing record scope) :
    Timely s' { l with trimmedPushes := l.pushes, trimmedClosings := l.closings } k := by
  obtain ⟨hothers, hstep⟩ := h.busy (by rw [hold]; exact Pc.noConfusion)
  rw [hold] at hstep
  obtain ⟨hemits, hsince⟩ := hstep
  have htotal := h.total
  refine .moves hthreads hothers htotal ?_ h.closings h.closings (by dsimp only; omega)
  rw [hpc, hcount]
  exact ⟨hemits, by dsimp only; omega⟩

theorem Timely.call (h : Timely s l k) (hturn : Action.InTurn s (.call t a))
    (ha : (Action.call t a).keepsRetention = true) (hwf : s.runtime.journal.WF)
    (hs : s.call t a = some s') :
    Timely s' (l.after s (.call t a))
      (((Action.call t a).push? s).toList.foldl Tally.push k) := by
  obtain ⟨r, th, hsec, hr, hthreads, -, -⟩ := Process.call_inv hs
  have hidle : a ≠ .next → ∀ u, (s.threads u).pc = .user := by
    intro hne
    cases a with
    | next => exact absurd rfl hne
    | _ => exact hturn
  -- a call that starts and pushes nothing
  have hstarts : a ≠ .next → l.after s (.call t a) = l → (Action.call t a).push? s = none →
      s'.runtime.emitCount = s.runtime.emitCount →
      ((s.threads t).pc.InStep s.runtime.emitCount l k → th.pc.InStep s.runtime.emitCount l k) →
      Timely s' (l.after s (.call t a)) (((Action.call t a).push? s).toList.foldl Tally.push k) := by
    intro hne hl hp hcount hstep
    rw [hl, hp]
    refine h.goes hthreads (fun u _ => hidle hne u) ?_
    rw [hcount]
    refine hstep ?_
    rw [hidle hne t]
    exact h.idle (hidle hne)
  -- a section that goes on and does not trim
  have hgoes : a = .next → ∀ pc, (s.threads t).pc = pc → pc ≠ .user →
      l.after s (.call t a) = l → s'.runtime.emitCount = s.runtime.emitCount →
      (pc.InStep s.runtime.emitCount l k → th.pc.InStep s.runtime.emitCount l k) →
      Timely s' (l.after s (.call t a)) (((Action.call t a).push? s).toList.foldl Tally.push k) := by
    rintro rfl pc rfl hpc hl hcount hstep
    obtain ⟨hothers, hold⟩ := h.busy hpc
    rw [hl]
    exact h.goes hthreads hothers (by rw [hcount]; exact hstep hold)
  cases hsec with
  | emit => exact h.emit (hidle Act.noConfusion) hthreads (by rw [hr]) rfl
  | count hpc =>
    have hl : l.after s (.call t .next) = l := by simp [Ledger.after, hpc]
    rw [hl]
    exact h.count hpc hs
  | due hpc =>
    exact hgoes rfl _ hpc Pc.noConfusion (by simp [Ledger.after, hpc]) (by rw [hr]) fun h => h
  | trim hpc =>
    have hl : l.after s (.call t .next) =
        { l with trimmedPushes := l.pushes, trimmedClosings := l.closings } := by
      simp [Ledger.after, hpc]
    rw [hl]
    exact h.trim hpc hthreads (by rw [hr]) rfl
  | @exitScope id outcome finishedAt millis nanos j rid record scope hpc he =>
    obtain ⟨hopen, -⟩ := Journal.closedScopes_exit hwf he
    simp only [Option.isSome_some] at hopen
    simp only [Ledger.after, Action.push?, ← hopen, if_true]
    exact h.exit (hidle Act.noConfusion) hthreads (by rw [hr]) rfl
  | @exitNothing id outcome finishedAt millis nanos j rid hpc he =>
    obtain ⟨hopen, -⟩ := Journal.closedScopes_exit hwf he
    simp only [Option.isSome_none] at hopen
    exact hstarts Act.noConfusion (by simp [Ledger.after, ← hopen])
      (by simp [Action.push?, ← hopen]) (by rw [hr]) fun h => h
  | enterScope hpc he =>
    refine hstarts Act.noConfusion rfl rfl (by rw [hr]) ?_
    rw [hpc]
    exact id
  | messages hpc he => exact hstarts Act.noConfusion rfl rfl (by rw [hr]) fun h => h
  | clear => cases ha
  | retention => cases ha
  | updateWriters hpc => exact hstarts Act.noConfusion rfl rfl (by rw [hr]) fun h => h
  | finishClear hpc =>
    obtain ⟨-, hold⟩ := h.busy (by rw [hpc]; exact Pc.noConfusion)
    rw [hpc] at hold
    exact hold.elim
  | write hpc =>
    exact hgoes rfl _ hpc Pc.noConfusion (by simp [Ledger.after, hpc]) (by rw [hr]) fun h => h
  | lock hpc =>
    exact hgoes rfl _ hpc Pc.noConfusion (by simp [Ledger.after, hpc]) (by rw [hr]) fun h => h
  | unwanted hpc =>
    exact hgoes rfl _ hpc Pc.noConfusion (by simp [Ledger.after, hpc]) (by rw [hr]) fun h => h
  | found hpc =>
    exact hgoes rfl _ hpc Pc.noConfusion (by simp [Ledger.after, hpc]) (by rw [hr]) fun h => h
  | panic hpc =>
    exact hgoes rfl _ hpc Pc.noConfusion (by simp [Ledger.after, hpc]) (by rw [hr]) fun h => h

theorem Timely.step (h : Timely s l k) {a : Action} (hturn : a.InTurn s)
    (ha : a.keepsRetention = true) (hwf : s.runtime.journal.WF) (hs : s.step a = some s') :
    Timely s' (l.after s a) ((a.push? s).toList.foldl Tally.push k) := by
  by_cases hcall : ∃ t b, a = .call t b
  · obtain ⟨t, b, rfl⟩ := hcall
    exact h.call hturn ha hwf hs
  · have hne : ∀ t b, a ≠ .call t b := fun t b he => hcall ⟨t, b, he⟩
    obtain ⟨hr, hth⟩ := Process.step_context hs hne
    have hl : l.after s a = l := by
      cases a with
      | call t b => exact absurd rfl (hne t b)
      | _ => rfl
    have hp : a.push? s = none := by
      cases a with
      | call t b => exact absurd rfl (hne t b)
      | _ => rfl
    rw [hl, hp]
    obtain ⟨t, hothers, hstep⟩ := h.alone
    refine ⟨h.total, ⟨t, fun u hu => (hth u).1.trans (hothers u hu), ?_⟩, h.closings, h.trimmed,
      h.since⟩
    rw [(hth t).1, hr]
    exact hstep

/-- The bound survives a step exactly when there is room for what it pushes. -/
theorem Timely.within_after (h : Timely s l k) {max : ℕ} (hacc : Accounted max s l)
    {a : Action} (hturn : a.InTurn s) (hwithin : l.Within max) :
    (l.after s a).Within max ↔ ∀ p, a.push? s = some p → k.Room max := by
  have hpushes := hacc.pushes
  have htotal := h.total
  have hclosings := h.closings
  have htrimmed := h.trimmed
  have hsince := h.since
  have hidle : (∀ u, (s.threads u).pc = .user) → k.before = l.trimmedPushes :=
    fun hidle => (h.idle hidle).2
  unfold Ledger.Within at hwithin ⊢
  unfold Tally.Room
  cases a with
  | call t b =>
    cases b with
    | emit kind message fields nanos =>
      have hbefore := hidle hturn
      simp only [Ledger.after, Action.push?, Option.some.injEq, forall_eq']
      omega
    | exitScope id outcome finishedAt millis nanos =>
      have hbefore := hidle hturn
      simp only [Ledger.after, Action.push?]
      split_ifs
      · simp only [Option.some.injEq, forall_eq']
        omega
      · simpa using hwithin
    | next =>
      simp only [Ledger.after, Action.push?]
      split
      · simp
      · simpa using hwithin
    | _ => simpa [Ledger.after, Action.push?] using hwithin
  | _ => simpa [Ledger.after, Action.push?] using hwithin

/-- A run from a bounded state stays bounded exactly when there is room for all
    that it pushes. -/
theorem Timely.run (h : Timely s l k) {max : ℕ} (hacc : Accounted max s l) {actions : List Action}
    (hturn : Machine.Meets Process.step (fun s a => a.InTurn s) s actions)
    (ha : ∀ a ∈ actions, a.keepsRetention = true)
    (hs : Machine.run Process.step s actions = some s') (hwithin : l.Within max) :
    (∀ pre t, pre <+: actions → Machine.run Process.step s pre = some t →
      t.runtime.journal.Bounded max) ↔ Fits max k (s.pushes actions) := by
  induction actions generalizing s l k with
  | nil =>
    refine ⟨fun _ => trivial, fun _ pre t hpre ht => ?_⟩
    obtain rfl := List.prefix_nil.1 hpre
    obtain rfl := Option.some.inj ht
    exact hacc.bounded_iff.2 hwithin
  | cons a actions ih =>
    obtain ⟨hhead, htail⟩ := List.forall_mem_cons.1 ha
    obtain ⟨u, hu, hs⟩ := Machine.run_cons_eq_some.1 hs
    have hacc' := hacc.step hhead hu
    have hnext := ih (h.step hturn.1 hhead hacc.journal hu) hacc' (hturn.2 u hu) htail hs
    have hafter := h.within_after hacc hturn.1 hwithin
    simp only [Process.pushes, hu]
    rw [fits_toList_append]
    constructor
    · intro hbounded
      have hwithin' : (l.after s a).Within max :=
        hacc'.bounded_iff.1 (hbounded [a] u ⟨actions, rfl⟩ (by simp [Machine.run, hu]))
      refine ⟨hafter.1 hwithin', (hnext hwithin').1 fun pre t hpre ht => ?_⟩
      exact hbounded (a :: pre) t ((List.prefix_cons_inj a).2 hpre)
        (Machine.run_cons_eq_some.2 ⟨u, hu, ht⟩)
    · rintro ⟨hroom, hfits⟩ pre t hpre ht
      cases pre with
      | nil =>
        obtain rfl := Option.some.inj ht
        exact hacc.bounded_iff.2 hwithin
      | cons b pre =>
        obtain ⟨rfl, hrest⟩ := List.cons_prefix_cons.1 hpre
        obtain ⟨v, hv, ht⟩ := Machine.run_cons_eq_some.1 ht
        obtain rfl := Option.some.inj (hu.symm.trans hv)
        exact (hnext (hafter.2 hroom)).2 hfits pre t hrest ht

end

/-- **Retention is bounded** throughout a sequence of calls, at each of their
    sections, exactly when there is room for each record that they push. -/
theorem retention_bounded (runId : String) (wants : Bool) (max : ℕ) (actions : List Action)
    (s : Process) (hrun : Machine.run Process.step (.new runId wants max) actions = some s)
    (hturn : Machine.Meets Process.step (fun s a => a.InTurn s) (.new runId wants max) actions)
    (ha : ∀ a ∈ actions, a.keepsRetention = true) :
    (∀ pre t, pre <+: actions → Machine.run Process.step (.new runId wants max) pre = some t →
      t.runtime.journal.Bounded max) ↔
    Fits max .new ((Process.new runId wants max).pushes actions) :=
  (new_timely runId wants max).run (new_accounted runId wants max) hturn ha hrun
    ⟨by simp [Ledger.new], by simp [Ledger.new]⟩

/-- An event of one thread, recorded and trimmed, then a scope that another one
    enters and exits. -/
def tickAndJob : List Action :=
  [.call 0 (.emit .info "tick" .new 2000), .call 0 .next, .call 0 .next, .call 0 .next,
    .call 0 .next, .call 1 (.enterScope "job" 0 0), .call 1 .next,
    .call 1 (.exitScope ⟨0⟩ .success 0 0 0), .call 1 .next]

theorem tickAndJob_inTurn :
    Machine.Meets Process.step (fun s a => a.InTurn s) (.new (newRunId (1, 2) 0) false 1)
      tickAndJob := by
  refine ⟨fun _ => rfl, fun s₁ h₁ => ⟨trivial, fun s₂ h₂ => ⟨trivial, fun s₃ h₃ => ⟨trivial,
    fun s₄ h₄ => ⟨trivial, fun s₅ h₅ => ⟨?_, fun s₆ h₆ => ⟨trivial, fun s₇ h₇ => ⟨?_,
    fun s₈ h₈ => ⟨trivial, fun _ _ => trivial⟩⟩⟩⟩⟩⟩⟩⟩⟩
  all_goals
    obtain rfl := Option.some.inj h₁
    obtain rfl := Option.some.inj h₂
    obtain rfl := Option.some.inj h₃
    obtain rfl := Option.some.inj h₄
    obtain rfl := Option.some.inj h₅
  · intro u
    by_cases hu : u = 0
    · rw [hu]
      rfl
    · simp only [Function.update_of_ne hu]
      rfl
  · obtain rfl := Option.some.inj h₆
    obtain rfl := Option.some.inj h₇
    intro u
    by_cases h0 : u = 0
    · rw [h0]
      rfl
    by_cases h1 : u = 1
    · rw [h1]
      rfl
    · simp only [Function.update_of_ne h0, Function.update_of_ne h1]
      rfl

theorem retention_bounded_tick : ∃ s,
    Machine.run Process.step (.new (newRunId (1, 2) 0) false 1) tickAndJob = some s ∧
      s.runtime.journal.Bounded 1 := by
  obtain ⟨s, hs⟩ : ∃ s, Machine.run Process.step (.new (newRunId (1, 2) 0) false 1) tickAndJob =
      some s := ⟨_, rfl⟩
  have hfits : Fits 1 .new ((Process.new (newRunId (1, 2) 0) false 1).pushes tickAndJob) := by
    decide +kernel
  exact ⟨s, hs, (retention_bounded (newRunId (1, 2) 0) false 1 tickAndJob s hs tickAndJob_inTurn
    (by decide)).2 hfits tickAndJob s (List.prefix_refl _) hs⟩

/-- Scopes that are entered and exited, with no event. -/
def exitsOnly (n : ℕ) : List Action :=
  (List.range n).flatMap fun i =>
    [.call 0 (.enterScope "job" 0 0), .call 0 .next,
      .call 0 (.exitScope ⟨UInt64.ofNat i⟩ .success 0 0 0), .call 0 .next]

/-- **Exits alone are never trimmed**: with a cap of 1, 130 entered and exited
    scopes are all held. -/
theorem exits_unbounded : ∃ s,
    Machine.run Process.step (.new (newRunId (1, 2) 0) false 1) (exitsOnly 130) = some s ∧
      ¬ s.runtime.journal.Bounded 1 := by
  have hcount : (Machine.run Process.step (.new (newRunId (1, 2) 0) false 1) (exitsOnly 130)).map
      (fun s => s.runtime.journal.records.length) = some 130 := by
    decide +kernel
  obtain ⟨s, hs, hlen⟩ := Option.map_eq_some_iff.1 hcount
  refine ⟨s, hs, ?_⟩
  rintro ⟨hrecords, -⟩
  rw [hlen] at hrecords
  exact absurd hrecords (by decide)

end Eventline
