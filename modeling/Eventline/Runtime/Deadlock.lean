/-
  The runtime cannot deadlock on its own locks.

  * `Lock.rank` is the lock order; `Ordered` says that a program acquires locks in
    this order, and sends and waits with no lock above the workers' rank.
  * `LockState.Inv`: every thread is in such a program, and a reply or an end that
    a thread waits for is on its way.
  * `no_deadlock`: nobody waits in a circle or for himself, and some step is
    possible while a call is under way.
-/
import Eventline.Runtime.Locks

namespace Eventline

/-! ## The lock order -/

/-- The order in which locks are acquired; between `writer` and `config` come the
    waits for a worker. -/
def Lock.rank : Lock → ℕ
  | lastCfg => 1
  | writer => 2
  | config => 4
  | journal => 5
  | records => 6
  | scopes => 7
  | diagnostics => 8

def workerRank : ℕ := 3

theorem Lock.rank_pos (l : Lock) : 0 < l.rank := by cases l <;> decide

theorem Lock.rank_le (l : Lock) : l.rank ≤ Lock.diagnostics.rank := by cases l <;> decide

/-- An `RwLock`. -/
def Lock.isRw : Lock → Bool
  | config | records | scopes => true
  | _ => false

/-- All locks held come before the rank. -/
def Below (rank : ℕ) (held : List (Lock × LockMode)) : Prop := ∀ h ∈ held, h.1.rank < rank

instance (rank : ℕ) (held : List (Lock × LockMode)) : Decidable (Below rank held) :=
  inferInstanceAs (Decidable (∀ h ∈ held, _))

/-- The writer is locked, and nothing above the workers. -/
def Guarded (held : List (Lock × LockMode)) : Prop :=
  (.writer, .alone) ∈ held ∧ Below workerRank held

instance (held : List (Lock × LockMode)) : Decidable (Guarded held) :=
  inferInstanceAs (Decidable (_ ∧ _))

/-- The program keeps the lock order, and releases what it acquires.  Before a
    wait for a worker there is the step that makes it. -/
def Ordered : List (Lock × LockMode) → List Instr → Prop
  | held, [] => held = []
  | held, .acquire l mode :: rest =>
    Below l.rank held ∧ (l.isRw = false → mode = .alone) ∧ Ordered ((l, mode) :: held) rest
  | held, .release l :: rest => Ordered (held.filter fun h => h.1 ≠ l) rest
  | held, .write :: rest | held, .flush :: rest | held, .replace :: rest =>
    Guarded held ∧ Ordered held rest
  | held, .spawn _ :: rest => Ordered held rest
  | _, .await :: _ | _, .join :: _ => False

instance decidableOrdered : ∀ (held : List (Lock × LockMode)) (program : List Instr),
    Decidable (Ordered held program)
  | held, [] => inferInstanceAs (Decidable (held = []))
  | held, .acquire l mode :: rest =>
    have := decidableOrdered ((l, mode) :: held) rest
    inferInstanceAs (Decidable (_ ∧ _ ∧ _))
  | held, .release l :: rest => decidableOrdered (held.filter fun h => h.1 ≠ l) rest
  | held, .write :: rest | held, .flush :: rest | held, .replace :: rest =>
    have := decidableOrdered held rest
    inferInstanceAs (Decidable (_ ∧ _))
  | held, .spawn _ :: rest => decidableOrdered held rest
  | _, .await :: _ | _, .join :: _ => .isFalse nofun

/-- **Every call keeps the lock order.** -/
theorem ApiCall.program_ordered (c : ApiCall) : Ordered [] c.program := by
  cases c with
  | emit inScope trims => revert inScope trims; decide
  | enterScope wantsMetadata => revert wantsMetadata; decide
  | exitScope wasOpen => revert wasOpen; decide
  | updateWriters rebuild =>
    cases rebuild with
    | none => decide
    | some b =>
      obtain ⟨sinks, metadata, succeeds⟩ := b
      cases succeeds with
      | none => revert sinks metadata; decide
      | some mode => cases mode <;> revert sinks metadata <;> decide
  | _ => decide

/-- A program may be put behind a use of the diagnostics. -/
theorem Ordered.useDiagnostics {held : List (Lock × LockMode)} {rest : List Instr}
    (h : Ordered held rest) (hbelow : Below workerRank held) :
    Ordered held (Eventline.useDiagnostics ++ rest) := by
  have hrank : ∀ h ∈ held, h.1 ≠ .diagnostics := by
    intro h hh heq
    have hlt := hbelow h hh
    rw [heq] at hlt
    exact absurd hlt (by decide)
  refine ⟨fun h hh => (hbelow h hh).trans (by decide), fun _ => rfl, ?_⟩
  show Ordered (((Lock.diagnostics, LockMode.alone) :: held).filter fun h => h.1 ≠ .diagnostics) rest
  rw [List.filter_cons_of_neg (by simp), List.filter_eq_self.2 fun h hh => by simpa using hrank h hh]
  exact h

/-! ## The invariant -/

/-- The rest of a call is ordered; it may be waiting for a worker. -/
def ThreadState.Sound (th : ThreadState) : Prop :=
  match th.program with
  | .await :: rest | .join :: rest => Guarded th.held ∧ Ordered th.held rest
  | program => Ordered th.held program

/-- An ordered program begins with no wait for a worker. -/
theorem Ordered.ne_wait {held : List (Lock × LockMode)} {program rest : List Instr}
    (h : Ordered held program) : program ≠ .await :: rest ∧ program ≠ .join :: rest := by
  constructor
  · rintro rfl
    exact h
  · rintro rfl
    exact h

theorem Ordered.sound {th : ThreadState} (h : Ordered th.held th.program) : th.Sound := by
  unfold ThreadState.Sound
  split
  · rename_i hprogram
    rw [hprogram] at h
    exact h.elim
  · rename_i hprogram
    rw [hprogram] at h
    exact h.elim
  · exact h

/-- The message that a worker has in hand. -/
def WorkerPc.message : WorkerPc → Option QueueMsg
  | handling m | recording m | recorded m => m
  | _ => none

/-- The flush of the thread is in the queue or in hand. -/
def WorkerState.Carries (worker : WorkerState) (t : ℕ) : Prop :=
  .flush t ∈ worker.queue ∨ worker.pc.message = some (.flush t)

namespace LockState

variable {n : ℕ} {s s' : LockState n}

structure Inv (s : LockState n) : Prop where
  room : 0 < s.queueCap
  threads : ∀ t, (s.threads t).Sound
  alone : ∀ t u, t ≠ u → ∀ m m', (.writer, m) ∈ (s.threads t).held →
    (.writer, m') ∉ (s.threads u).held
  installed : ∀ w, s.installed = some w → w < s.spawned
  fresh : ∀ t w, (s.threads t).fresh = some w → w < s.spawned
  reply : ∀ t rest w, (s.threads t).program = .await :: rest → s.installed = some w →
    (s.threads t).replied = true ∨ (s.workers w).Carries t
  joining : ∀ t rest, (s.threads t).program = .join :: rest →
    ∃ w, s.installed = some w ∧ (s.workers w).tx = false

theorem new_inv (n queueCap : ℕ) : (new n queueCap).Inv where
  room := Nat.le_max_right _ 1
  threads _ := rfl
  alone _ _ _ _ _ h := by cases h
  installed _ h := by cases h
  fresh _ _ h := by cases h
  reply _ _ _ h := by cases h
  joining _ _ h := by cases h

/-- A thread that waits for a worker has locked the writer. -/
theorem Inv.guarded (h : s.Inv) {t : Fin n} {rest : List Instr}
    (hp : (s.threads t).program = .await :: rest ∨ (s.threads t).program = .join :: rest) :
    Guarded (s.threads t).held ∧ Ordered (s.threads t).held rest := by
  have hsound := h.threads t
  unfold ThreadState.Sound at hsound
  rcases hp with hp | hp
  · rw [hp] at hsound
    exact hsound
  · rw [hp] at hsound
    exact hsound

/-- A thread takes a step. -/
theorem Inv.act (h : s.Inv) {t : Fin n} {th : ThreadState}
    (hthreads : s'.threads = Function.update s.threads t th) (hcap : s'.queueCap = s.queueCap)
    (hspawned : s.spawned ≤ s'.spawned)
    (hcarries : ∀ w < s.spawned, ∀ u, (s.workers w).Carries u → (s'.workers w).Carries u)
    (htx : ∀ w < s.spawned, (s.workers w).tx = false → (s'.workers w).tx = false)
    (hinst : s'.installed = s.installed ∨ (.writer, .alone) ∈ (s.threads t).held)
    (hinstalled : ∀ w, s'.installed = some w → w < s'.spawned)
    (hfresh : ∀ w, th.fresh = some w → w < s'.spawned) (hsound : th.Sound)
    (halone : ∀ m, (.writer, m) ∈ th.held → (∃ m', (.writer, m') ∈ (s.threads t).held) ∨
      ∀ u, u ≠ t → ∀ m', (.writer, m') ∉ (s.threads u).held)
    (hreply : ∀ rest w, th.program = .await :: rest → s'.installed = some w →
      th.replied = true ∨ (s'.workers w).Carries t)
    (hjoining : ∀ rest, th.program = .join :: rest →
      ∃ w, s'.installed = some w ∧ (s'.workers w).tx = false) : s'.Inv := by
  have hself : s'.threads t = th := by rw [hthreads, Function.update_self]
  have hother : ∀ u, u ≠ t → s'.threads u = s.threads u := by
    intro u hu
    rw [hthreads, Function.update_of_ne hu]
  -- another thread that waits for a worker keeps it
  have hkeep : ∀ u, u ≠ t → ∀ m, (.writer, m) ∈ (s.threads u).held →
      s'.installed = s.installed := by
    intro u hu m hm
    rcases hinst with hinst | hwriter
    · exact hinst
    · exact absurd hwriter (h.alone u t hu m _ hm)
  have hapart : ∀ u, u ≠ t → ∀ m m', (.writer, m) ∈ th.held → (.writer, m') ∉ (s.threads u).held := by
    intro u hu m m' hm
    rcases halone m hm with ⟨m₀, hm₀⟩ | hnone
    · exact h.alone t u hu.symm m₀ m' hm₀
    · exact hnone u hu m'
  refine ⟨hcap ▸ h.room, fun u => ?_, fun u v huv m m' hm hm' => ?_, hinstalled, fun u w hw => ?_,
    fun u rest w hp hw => ?_, fun u rest hp => ?_⟩
  · by_cases hu : u = t
    · rw [hu, hself]
      exact hsound
    · rw [hother u hu]
      exact h.threads u
  · by_cases hu : u = t
    · subst hu
      rw [hself] at hm
      rw [hother v huv.symm] at hm'
      exact hapart v huv.symm m m' hm hm'
    · rw [hother u hu] at hm
      by_cases hv : v = t
      · subst hv
        rw [hself] at hm'
        exact hapart u hu m' m hm' hm
      · rw [hother v hv] at hm'
        exact h.alone u v huv m m' hm hm'
  · by_cases hu : u = t
    · rw [hu, hself] at hw
      exact hfresh w hw
    · rw [hother u hu] at hw
      exact (h.fresh u w hw).trans_le hspawned
  · by_cases hu : u = t
    · subst hu
      rw [hself] at hp ⊢
      exact hreply rest w hp hw
    · rw [hother u hu] at hp ⊢
      rw [hkeep u hu _ (h.guarded (.inl hp)).1.1] at hw
      exact (h.reply u rest w hp hw).imp_right (hcarries w (h.installed w hw) u)
  · by_cases hu : u = t
    · subst hu
      rw [hself] at hp
      exact hjoining rest hp
    · rw [hother u hu] at hp
      obtain ⟨w, hw, hwtx⟩ := h.joining u rest hp
      refine ⟨w, ?_, htx w (h.installed w hw) hwtx⟩
      rw [hkeep u hu _ (h.guarded (.inr hp)).1.1]
      exact hw

/-- A thread goes on with an ordered program, and the workers are as they were. -/
theorem Inv.local (h : s.Inv) {t : Fin n} {th : ThreadState}
    (hordered : Ordered th.held th.program)
    (hfresh : ∀ w, th.fresh = some w → w < s.spawned)
    (halone : ∀ m, (.writer, m) ∈ th.held → (∃ m', (.writer, m') ∈ (s.threads t).held) ∨
      ∀ u, u ≠ t → ∀ m', (.writer, m') ∉ (s.threads u).held) :
    (s.setThread t th).Inv :=
  h.act rfl rfl le_rfl (fun _ _ _ => id) (fun _ _ => id) (.inl rfl) h.installed hfresh
    hordered.sound halone (fun _ _ hp => absurd hp hordered.ne_wait.1)
    (fun _ hp => absurd hp hordered.ne_wait.2)

theorem Inv.goto (h : s.Inv) {t : Fin n} {program : List Instr}
    (hordered : Ordered (s.threads t).held program) : (s.goto t program).Inv :=
  h.local hordered (h.fresh t) fun m hm => .inl ⟨m, hm⟩

/-- A message more in a queue. -/
theorem carries_append {worker : WorkerState} {t : ℕ} (h : worker.Carries t) (m : QueueMsg) :
    WorkerState.Carries { worker with queue := worker.queue ++ [m] } t :=
  h.imp_left (List.mem_append_left _)

/-- Changing a worker in a way that keeps what it carries. -/
theorem setWorker_carries {w : WorkerId} {worker : WorkerState}
    (h : ∀ u, (s.workers w).Carries u → worker.Carries u) :
    ∀ v, ∀ u, (s.workers v).Carries u → ((s.setWorker w worker).workers v).Carries u := by
  intro v u hu
  show (Function.update s.workers w worker v).Carries u
  by_cases hv : v = w
  · subst hv
    rw [Function.update_self]
    exact h u hu
  · rw [Function.update_of_ne hv]
    exact hu

theorem setWorker_tx {w : WorkerId} {worker : WorkerState}
    (h : (s.workers w).tx = false → worker.tx = false) :
    ∀ v, (s.workers v).tx = false → ((s.setWorker w worker).workers v).tx = false := by
  intro v hv
  show (Function.update s.workers w worker v).tx = false
  by_cases hvw : v = w
  · subst hvw
    rw [Function.update_self]
    exact h hv
  · rw [Function.update_of_ne hvw]
    exact hv

/-- A message is sent; `sent` is the rest, or the wait for the reply to a flush. -/
theorem Inv.send (h : s.Inv) {t : Fin n} {m : QueueMsg} {sent rest : List Instr}
    (hguarded : Guarded (s.threads t).held) (hrest : Ordered (s.threads t).held rest)
    (hsent : sent = rest ∨ sent = .await :: rest ∧ m = .flush t)
    (hs : s.send t m sent rest = some s') : s'.Inv := by
  unfold LockState.send at hs
  split at hs
  · obtain rfl := Option.some.inj hs
    exact h.goto hrest
  · rename_i w hw
    dsimp only at hs
    split_ifs at hs
    · obtain rfl := Option.some.inj hs
      exact h.goto (hrest.useDiagnostics hguarded.2)
    · -- the queue takes the message
      obtain rfl := Option.some.inj hs
      have hsound : ThreadState.Sound { s.threads t with program := sent } := by
        rcases hsent with rfl | ⟨rfl, -⟩
        · exact Ordered.sound hrest
        · exact ⟨hguarded, hrest⟩
      refine h.act rfl rfl le_rfl (fun v _ => setWorker_carries (s := s) (w := w) (fun u hu => carries_append hu m) v)
        (fun v _ => setWorker_tx (s := s) (w := w) (fun htx => by exact htx) v) (.inl rfl) h.installed (h.fresh t) hsound
        (fun m' hm => .inl ⟨m', hm⟩) (fun rest' w' hp hw' => .inr ?_) (fun rest' hp => ?_)
      · rcases hsent with rfl | ⟨-, rfl⟩
        · exact absurd hp hrest.ne_wait.1
        · obtain rfl := Option.some.inj (hw.symm.trans hw')
          refine .inl ?_
          show QueueMsg.flush t ∈ (Function.update s.workers w _ w).queue
          rw [Function.update_self]
          exact List.mem_append_right _ (List.mem_singleton.2 rfl)
      · rcases hsent with rfl | ⟨rfl, -⟩
        · exact absurd hp hrest.ne_wait.2
        · cases hp
    · obtain rfl := Option.some.inj hs
      exact h.goto hrest

theorem Inv.acquire (h : s.Inv) {t : Fin n} {l : Lock} {mode : LockMode} {rest : List Instr}
    (hfree : s.Free l mode)
    (hordered : Ordered (s.threads t).held (.acquire l mode :: rest)) :
    (s.setThread t { s.threads t with
      program := rest, held := (l, mode) :: (s.threads t).held }).Inv := by
  obtain ⟨-, hmode, hrest⟩ := hordered
  refine h.local hrest (h.fresh t) fun m hm => ?_
  rcases List.mem_cons.1 hm with heq | hm
  · -- the writer is free, so nobody has it
    obtain ⟨rfl, rfl⟩ := Prod.mk.inj heq
    refine .inr fun u _ m' hm' => ?_
    obtain ⟨-, hshared⟩ := hfree.1 u _ hm' rfl
    rw [hmode rfl] at hshared
    cases hshared
  · exact .inl ⟨m, hm⟩

theorem Inv.spawn (h : s.Inv) {t : Fin n} {mode : WriteMode} {rest : List Instr}
    (hrest : Ordered (s.threads t).held rest) :
    ({ s.setWorker s.spawned ⟨mode, true, [], .receiving⟩ with spawned := s.spawned + 1 }.setThread
      t { s.threads t with program := rest, fresh := some s.spawned }).Inv := by
  have hold : ∀ w < s.spawned,
      Function.update s.workers s.spawned ⟨mode, true, [], .receiving⟩ w = s.workers w := by
    intro w hw
    exact Function.update_of_ne hw.ne _ _
  refine h.act rfl rfl (Nat.le_succ _) (fun w hw u hu => ?_) (fun w hw htx => ?_) (.inl rfl)
    (fun w hw => (h.installed w hw).trans (Nat.lt_succ_self _)) (fun w hw => ?_)
    (Ordered.sound hrest) (fun m hm => .inl ⟨m, hm⟩) (fun _ _ hp => absurd hp hrest.ne_wait.1)
    (fun _ hp => absurd hp hrest.ne_wait.2)
  · show (Function.update s.workers s.spawned _ w).Carries u
    rw [hold w hw]
    exact hu
  · show (Function.update s.workers s.spawned _ w).tx = false
    rw [hold w hw]
    exact htx
  · obtain rfl := Option.some.inj hw
    exact Nat.lt_succ_self _

/-- The new writer is installed. -/
theorem Inv.install (h : s.Inv) {t : Fin n} {rest : List Instr}
    (hwriter : (.writer, .alone) ∈ (s.threads t).held)
    (hrest : Ordered (s.threads t).held rest) :
    Inv { s.goto t rest with installed := (s.threads t).fresh } :=
  h.act rfl rfl le_rfl (fun _ _ _ => id) (fun _ _ => id) (.inr hwriter) (h.fresh t) (h.fresh t)
    (Ordered.sound hrest) (fun m hm => .inl ⟨m, hm⟩) (fun _ _ hp => absurd hp hrest.ne_wait.1)
    (fun _ hp => absurd hp hrest.ne_wait.2)

/-- The sender of the installed writer is dropped. -/
theorem Inv.close (h : s.Inv) {t : Fin n} {rest : List Instr} {w : WorkerId}
    (hw : s.installed = some w) (hguarded : Guarded (s.threads t).held)
    (hrest : Ordered (s.threads t).held rest) :
    ((s.setWorker w { s.workers w with tx := false }).goto t (.join :: rest)).Inv := by
  have hsound : ThreadState.Sound { s.threads t with program := .join :: rest } := ⟨hguarded, hrest⟩
  refine h.act rfl rfl le_rfl (fun v _ => setWorker_carries (s := s) (w := w) (fun u hu => by exact hu) v)
    (fun v _ => setWorker_tx (s := s) (w := w) (fun _ => rfl) v) (.inl rfl) h.installed (h.fresh t) hsound
    (fun m hm => .inl ⟨m, hm⟩) (fun _ _ hp => by cases hp) (fun rest' _ => ⟨w, hw, ?_⟩)
  show (Function.update s.workers w _ w).tx = false
  rw [Function.update_self]

/-- **Every instruction keeps the invariant.** -/
theorem Inv.exec (h : s.Inv) {t : Fin n} {instr : Instr} {rest : List Instr}
    (hp : (s.threads t).program = instr :: rest) (hs : s.exec t instr rest = some s') : s'.Inv := by
  have hsound := h.threads t
  unfold ThreadState.Sound at hsound
  rw [hp] at hsound
  unfold LockState.exec at hs
  cases instr with
  | acquire l mode =>
    dsimp only at hs
    split_ifs at hs with hfree
    obtain rfl := Option.some.inj hs
    exact h.acquire hfree hsound
  | release l =>
    obtain rfl := Option.some.inj hs
    exact h.local hsound (h.fresh t) fun m hm => .inl ⟨m, (List.mem_filter.1 hm).1⟩
  | write => exact h.send hsound.1 hsound.2 (.inl rfl) hs
  | flush =>
    have hreset : (s.setThread t { s.threads t with replied := false }).Inv := by
      refine h.act rfl rfl le_rfl (fun _ _ _ => id) (fun _ _ => id) (.inl rfl) h.installed (h.fresh t)
        ?_ (fun m hm => .inl ⟨m, hm⟩) (fun _ _ hp' => ?_) (fun _ hp' => ?_)
      · exact h.threads t
      · rw [hp] at hp'
        cases hp'
      · rw [hp] at hp'
        cases hp'
    have hheld : ((s.setThread t { s.threads t with replied := false }).threads t).held =
        (s.threads t).held := by
      show (Function.update s.threads t _ t).held = _
      rw [Function.update_self]
    refine hreset.send ?_ ?_ (.inr ⟨rfl, rfl⟩) hs
    · rw [hheld]
      exact hsound.1
    · rw [hheld]
      exact hsound.2
  | await =>
    dsimp only at hs
    split at hs
    · obtain rfl := Option.some.inj hs
      exact h.goto hsound.2
    · split_ifs at hs
      · obtain rfl := Option.some.inj hs
        exact h.goto hsound.2
      · obtain rfl := Option.some.inj hs
        exact h.goto (hsound.2.useDiagnostics hsound.1.2)
  | spawn mode =>
    obtain rfl := Option.some.inj hs
    exact h.spawn hsound
  | replace =>
    dsimp only at hs
    split at hs
    · obtain rfl := Option.some.inj hs
      exact h.install hsound.1.1 hsound.2
    · rename_i w hw
      obtain rfl := Option.some.inj hs
      exact h.close hw hsound.1 hsound.2
  | join =>
    dsimp only at hs
    split at hs
    · cases hs
    · split_ifs at hs
      obtain rfl := Option.some.inj hs
      exact h.install hsound.1.1 hsound.2

/-- A worker takes a step: it may reply to flushes. -/
theorem Inv.worker (h : s.Inv) {w : WorkerId} (hcap : s'.queueCap = s.queueCap)
    (hspawned : s'.spawned = s.spawned) (hinst : s'.installed = s.installed)
    (hthread : ∀ u, (s'.threads u).program = (s.threads u).program ∧
      (s'.threads u).held = (s.threads u).held ∧ (s'.threads u).fresh = (s.threads u).fresh ∧
      ((s.threads u).replied = true → (s'.threads u).replied = true))
    (hother : ∀ v, v ≠ w → s'.workers v = s.workers v)
    (hcarries : ∀ u : Fin n, (s.workers w).Carries u →
      (s'.threads u).replied = true ∨ (s'.workers w).Carries u)
    (htx : (s'.workers w).tx = (s.workers w).tx) : s'.Inv := by
  refine ⟨hcap ▸ h.room, fun u => ?_, fun u v huv m m' => ?_, fun v => ?_, fun u v => ?_,
    fun u rest v hp hv => ?_, fun u rest hp => ?_⟩
  · obtain ⟨hprogram, hheld, -⟩ := hthread u
    have hsound := h.threads u
    unfold ThreadState.Sound at hsound ⊢
    rw [hprogram, hheld]
    exact hsound
  · rw [(hthread u).2.1, (hthread v).2.1]
    exact h.alone u v huv m m'
  · rw [hinst, hspawned]
    exact h.installed v
  · rw [(hthread u).2.2.1, hspawned]
    exact h.fresh u v
  · rw [(hthread u).1] at hp
    rw [hinst] at hv
    rcases h.reply u rest v hp hv with hr | hc
    · exact .inl ((hthread u).2.2.2 hr)
    · by_cases hvw : v = w
      · subst hvw
        exact hcarries u hc
      · rw [hother v hvw]
        exact .inr hc
  · rw [(hthread u).1] at hp
    obtain ⟨v, hv, hvtx⟩ := h.joining u rest hp
    refine ⟨v, hinst.trans hv, ?_⟩
    by_cases hvw : v = w
    · subst hvw
      exact htx.trans hvtx
    · rw [hother v hvw]
      exact hvtx

/-- The worker changes, with the sender and what it carries as they were. -/
theorem Inv.setWorker (h : s.Inv) {w : WorkerId} {worker : WorkerState}
    (hcarries : ∀ u, (s.workers w).Carries u → worker.Carries u)
    (htx : worker.tx = (s.workers w).tx) : (s.setWorker w worker).Inv := by
  have hself : (s.setWorker w worker).workers w = worker := Function.update_self ..
  refine h.worker (w := w) rfl rfl rfl (fun _ => ⟨rfl, rfl, rfl, id⟩)
    (fun v hv => Function.update_of_ne hv _ _) (fun u hu => .inr ?_) ?_
  · rw [hself]
    exact hcarries u hu
  · rw [hself]
    exact htx

/-- The worker has done with what it had in hand. -/
theorem Inv.finish (h : s.Inv) {w : WorkerId} {m : Option QueueMsg}
    (hm : (s.workers w).pc.message = m) : (s.finish w m).Inv := by
  unfold LockState.finish
  cases m with
  | none =>
    refine h.setWorker (fun u hu => hu.imp_right fun hmsg => ?_) rfl
    rw [hm] at hmsg
    cases hmsg
  | some m =>
    cases m with
    | entry =>
      refine h.setWorker (fun u hu => hu.imp_right fun hmsg => ?_) rfl
      rw [hm] at hmsg
      cases hmsg
    | flush t =>
      refine h.worker (w := w) rfl rfl rfl (fun u => ?_) (fun v hv => Function.update_of_ne hv _ _)
        (fun u hu => ?_) ?_
      · dsimp only
        split_ifs
        · exact ⟨rfl, rfl, rfl, fun _ => rfl⟩
        · exact ⟨rfl, rfl, rfl, id⟩
      · rcases hu with hu | hu
        · refine .inr (.inl ?_)
          show QueueMsg.flush u ∈ (Function.update s.workers w _ w).queue
          rw [Function.update_self]
          exact hu
        · rw [hm] at hu
          obtain rfl : t = u := by simpa using hu
          refine .inl ?_
          dsimp only
          rw [if_pos rfl]
      · show (Function.update s.workers w _ w).tx = _
        rw [Function.update_self]

theorem Inv.receive (h : s.Inv) {w : WorkerId} (hs : s.receive w = some s') : s'.Inv := by
  unfold LockState.receive at hs
  dsimp only at hs
  split at hs
  · rename_i m queue hpc hq
    obtain rfl := Option.some.inj hs
    refine h.setWorker (fun u hu => ?_) rfl
    rcases hu with hu | hu
    · rw [hq] at hu
      rcases List.mem_cons.1 hu with rfl | hu
      · exact .inr rfl
      · exact .inl hu
    · rw [hpc] at hu
      cases hu
  · rename_i hpc hq
    split_ifs at hs
    obtain rfl := Option.some.inj hs
    refine h.setWorker (fun u hu => ?_) rfl
    rcases hu with hu | hu
    · rw [hq] at hu
      cases hu
    · rw [hpc] at hu
      cases hu
  · cases hs

/-- **Every step keeps the invariant.** -/
theorem Inv.step (h : s.Inv) {a : LockAction n} (hs : s.step a = some s') : s'.Inv := by
  cases a with
  | start t c =>
    rw [LockState.step] at hs
    split_ifs at hs with hidle
    obtain rfl := Option.some.inj hs
    have hheld : (s.threads t).held = [] := by
      have hsound := h.threads t
      unfold ThreadState.Sound at hsound
      rw [hidle] at hsound
      exact hsound
    refine h.goto ?_
    rw [hheld]
    exact c.program_ordered
  | thread t =>
    rw [LockState.step] at hs
    split at hs
    · cases hs
    · rename_i instr rest hp
      exact h.exec hp hs
  | receive w => exact h.receive hs
  | work w failed =>
    rw [LockState.step] at hs
    split at hs
    · rename_i m hpc
      obtain rfl := Option.some.inj hs
      cases failed with
      | true =>
        refine h.setWorker (fun u hu => hu.imp_right fun hmsg => ?_) rfl
        rw [hpc] at hmsg
        exact hmsg
      | false => exact h.finish (by rw [hpc]; rfl)
    · cases hs
  | record w =>
    rw [LockState.step] at hs
    split at hs
    · rename_i m hpc
      split_ifs at hs
      obtain rfl := Option.some.inj hs
      refine h.setWorker (fun u hu => hu.imp_right fun hmsg => ?_) rfl
      rw [hpc] at hmsg
      exact hmsg
    · cases hs
  | recordEnd w =>
    rw [LockState.step] at hs
    split at hs
    · rename_i m hpc
      obtain rfl := Option.some.inj hs
      exact h.finish (by rw [hpc]; rfl)
    · cases hs

end LockState

/-! ## Who waits for whom -/

inductive Agent (n : ℕ) where
  | thread (t : Fin n)
  | worker (w : WorkerId)

namespace LockState

variable {n : ℕ} {s s' : LockState n}

def HoldsLock (s : LockState n) (l : Lock) : Agent n → Prop
  | .thread t => ∃ mode, (l, mode) ∈ (s.threads t).held
  | .worker w => l = .diagnostics ∧ w < s.spawned ∧ (s.workers w).pc.isRecorded = true

def WantsLock (s : LockState n) (l : Lock) : Agent n → Prop
  | .thread t => ∃ mode rest, (s.threads t).program = .acquire l mode :: rest
  | .worker w => l = .diagnostics ∧ ∃ m, (s.workers w).pc = .recording m

/-- An agent waits, and another one holds back what it waits for.  A lock that is
    held in shared mode counts for all who want it, and an idle worker waits for
    every thread. -/
inductive WaitsFor (s : LockState n) : Agent n → Agent n → Prop
  | lock {a b : Agent n} {l : Lock} (ha : s.WantsLock l a) (hb : s.HoldsLock l b) : WaitsFor s a b
  | slot {t : Fin n} {w : WorkerId} {rest : List Instr}
      (hp : (s.threads t).program = .write :: rest ∨ (s.threads t).program = .flush :: rest)
      (hw : s.installed = some w) (hfull : s.queueCap ≤ (s.workers w).queue.length) :
      WaitsFor s (.thread t) (.worker w)
  | reply {t : Fin n} {w : WorkerId} {rest : List Instr}
      (hp : (s.threads t).program = .await :: rest) (hw : s.installed = some w)
      (hr : (s.threads t).replied = false) : WaitsFor s (.thread t) (.worker w)
  | join {t : Fin n} {w : WorkerId} {rest : List Instr}
      (hp : (s.threads t).program = .join :: rest) (hw : s.installed = some w) :
      WaitsFor s (.thread t) (.worker w)
  | message {w : WorkerId} {t : Fin n} (hpc : (s.workers w).pc = .receiving)
      (hq : (s.workers w).queue = []) (htx : (s.workers w).tx = true) :
      WaitsFor s (.worker w) (.thread t)

/-- The rank of what an agent waits for. -/
def level (s : LockState n) : Agent n → ℕ
  | .thread t =>
    match (s.threads t).program with
    | .acquire l _ :: _ => l.rank
    | .write :: _ | .flush :: _ | .await :: _ | .join :: _ => workerRank
    | _ => 0
  | .worker w =>
    match (s.workers w).pc with
    | .recording _ => Lock.diagnostics.rank
    | _ => 0

theorem level_lock {a : Agent n} {l : Lock} (h : s.WantsLock l a) : s.level a = l.rank := by
  cases a with
  | thread t =>
    obtain ⟨mode, rest, hp⟩ := h
    rw [level, hp]
  | worker w =>
    obtain ⟨rfl, m, hm⟩ := h
    rw [level, hm]

theorem level_le (s : LockState n) (a : Agent n) : s.level a ≤ Lock.diagnostics.rank := by
  have hworker : workerRank ≤ Lock.diagnostics.rank := by decide
  unfold level
  split
  · split
    · exact Lock.rank_le _
    · exact hworker
    · exact hworker
    · exact hworker
    · exact hworker
    · exact Nat.zero_le _
  · split
    · exact le_rfl
    · exact Nat.zero_le _

/-- A thread that waits for a worker. -/
theorem level_waiting {t : Fin n} {rest : List Instr}
    (hp : (s.threads t).program = .write :: rest ∨ (s.threads t).program = .flush :: rest ∨
      (s.threads t).program = .await :: rest ∨ (s.threads t).program = .join :: rest) :
    s.level (.thread t) = workerRank := by
  rcases hp with hp | hp | hp | hp
  · rw [level, hp]
  · rw [level, hp]
  · rw [level, hp]
  · rw [level, hp]

/-- What a thread holds comes before what it waits for. -/
theorem Inv.held_lt (h : s.Inv) {t : Fin n} {b : Agent n} (hwait : s.WaitsFor (.thread t) b) :
    Below (s.level (.thread t)) (s.threads t).held ∧ 0 < s.level (.thread t) := by
  have hsound := h.threads t
  unfold ThreadState.Sound at hsound
  have hworker : 0 < workerRank := by decide
  cases hwait with
  | lock ha hb =>
    rw [level_lock ha]
    obtain ⟨mode, rest, hp⟩ := ha
    rw [hp] at hsound
    exact ⟨hsound.1, Lock.rank_pos _⟩
  | slot hp hw hfull =>
    rw [level_waiting (hp.imp_right .inl)]
    rcases hp with hp | hp
    · rw [hp] at hsound
      exact ⟨hsound.1.2, hworker⟩
    · rw [hp] at hsound
      exact ⟨hsound.1.2, hworker⟩
  | reply hp hw hr =>
    rw [level_waiting (.inr (.inr (.inl hp)))]
    rw [hp] at hsound
    exact ⟨hsound.1.2, hworker⟩
  | join hp hw =>
    rw [level_waiting (.inr (.inr (.inr hp)))]
    rw [hp] at hsound
    exact ⟨hsound.1.2, hworker⟩

/-- A worker that has locked the diagnostics waits for nobody. -/
theorem recorded_waits_not {w : WorkerId} {b : Agent n}
    (hrecorded : (s.workers w).pc.isRecorded = true) : ¬ s.WaitsFor (.worker w) b := by
  intro hwait
  cases hwait with
  | lock ha hb =>
    obtain ⟨-, m, hm⟩ := ha
    rw [hm] at hrecorded
    cases hrecorded
  | message hpc hq htx =>
    rw [hpc] at hrecorded
    cases hrecorded

theorem Inv.lock_lt (h : s.Inv) {l : Lock} {b c : Agent n} (hb : s.HoldsLock l b)
    (hwait : s.WaitsFor b c) : l.rank < s.level b := by
  cases b with
  | thread u =>
    obtain ⟨mode, hmem⟩ := hb
    exact (h.held_lt hwait).1 _ hmem
  | worker w => exact absurd hwait (recorded_waits_not hb.2.2)

/-- A worker that is not idle. -/
def Working (s : LockState n) (w : WorkerId) : Prop :=
  ¬ ((s.workers w).pc = .receiving ∧ (s.workers w).queue = [] ∧ (s.workers w).tx = true)

/-- A worker waits for a lock only to record an error. -/
theorem level_worker {w : WorkerId} {b : Agent n} (hworking : s.Working w)
    (hwait : s.WaitsFor (.worker w) b) : s.level (.worker w) = Lock.diagnostics.rank := by
  cases hwait with
  | lock ha hb => rw [level_lock ha, ha.1]
  | message hpc hq htx => exact absurd ⟨hpc, hq, htx⟩ hworking

/-- **A worker that has something to do for a thread is not idle.** -/
theorem Inv.working (h : s.Inv) (t : Fin n) (rest : List Instr) {w : WorkerId}
    (hw : s.installed = some w)
    (hwait : s.queueCap ≤ (s.workers w).queue.length ∨
      (s.threads t).program = .await :: rest ∧ (s.threads t).replied = false ∨
      (s.threads t).program = .join :: rest) : s.Working w := by
  rintro ⟨hpc, hq, htx⟩
  rcases hwait with hfull | ⟨hp, hr⟩ | hp
  · rw [hq, List.length_nil] at hfull
    exact absurd h.room hfull.not_gt
  · rcases h.reply t _ w hp hw with hr' | hc | hc
    · rw [hr] at hr'
      cases hr'
    · rw [hq] at hc
      cases hc
    · rw [hpc] at hc
      cases hc
  · obtain ⟨w', hw', hwtx⟩ := h.joining t _ hp
    obtain rfl := Option.some.inj (hw.symm.trans hw')
    rw [htx] at hwtx
    cases hwtx

/-- **The level rises along the waits.** -/
theorem Inv.rises (h : s.Inv) : WaitGraph.Rises s.WaitsFor s.level := by
  intro a b c hab hbc
  have hlt : workerRank < Lock.diagnostics.rank := by decide
  cases hab with
  | lock ha hb =>
    rw [level_lock ha]
    exact h.lock_lt hb hbc
  | @slot t w rest hp hw hfull =>
    rw [level_waiting (hp.imp_right .inl), level_worker (h.working t rest hw (.inl hfull)) hbc]
    exact hlt
  | @reply t w rest hp hw hr =>
    rw [level_waiting (.inr (.inr (.inl hp))),
      level_worker (h.working t rest hw (.inr (.inl ⟨hp, hr⟩))) hbc]
    exact hlt
  | @join t w rest hp hw =>
    rw [level_waiting (.inr (.inr (.inr hp))),
      level_worker (h.working t rest hw (.inr (.inr hp))) hbc]
    exact hlt
  | message hpc hq htx =>
    have hidle : ∀ w, (s.workers w).pc = .receiving → s.level (.worker w) = 0 := by
      intro w hw
      rw [level, hw]
    rw [hidle _ hpc]
    exact (h.held_lt hbc).2

/-! ## Progress -/

/-- An agent in the middle of something. -/
def Busy (s : LockState n) : Agent n → Prop
  | .thread t => (s.threads t).program ≠ []
  | .worker w => w < s.spawned ∧ (s.workers w).pc ≠ .done ∧ s.Working w

/-- The agent can take a step, other than to start a call. -/
def Ready (s : LockState n) : Agent n → Prop
  | .thread t => (s.step (.thread t)).isSome = true
  | .worker w => (s.step (.receive w)).isSome = true ∨ (s.step (.work w false)).isSome = true ∨
      (s.step (.record w)).isSome = true ∨ (s.step (.recordEnd w)).isSome = true

/-- A thread that holds a lock is in a call. -/
theorem Inv.busy_of_held (h : s.Inv) {t : Fin n} {x : Lock × LockMode}
    (hx : x ∈ (s.threads t).held) : s.Busy (.thread t) := by
  intro hp
  have hsound := h.threads t
  unfold ThreadState.Sound at hsound
  rw [hp] at hsound
  rw [show (s.threads t).held = [] from hsound] at hx
  cases hx

/-- A lock that is not free is held by a busy agent. -/
theorem Inv.holder (h : s.Inv) {l : Lock} {mode : LockMode} (hfree : ¬ s.Free l mode) :
    ∃ b, s.Busy b ∧ s.HoldsLock l b := by
  unfold Free at hfree
  rw [not_and_or] at hfree
  rcases hfree with hthread | hworker
  · push Not at hthread
    obtain ⟨t, x, hx, rfl, -⟩ := hthread
    exact ⟨.thread t, h.busy_of_held hx, x.2, hx⟩
  · push Not at hworker
    obtain ⟨rfl, w, hw, hrecorded⟩ := hworker
    have hrec : (s.workers w).pc.isRecorded = true := by simpa using hrecorded
    refine ⟨.worker w, ⟨hw, ?_, ?_⟩, rfl, hw, hrec⟩
    · intro hdone
      rw [hdone] at hrec
      cases hrec
    · rintro ⟨hpc, -⟩
      rw [hpc] at hrec
      cases hrec

/-- Sending a message is not possible while the queue is full. -/
theorem send_eq_none {t : Fin n} {m : QueueMsg} {sent rest : List Instr}
    {r : ThreadState} (hs : (s.setThread t r).send t m sent rest = none) :
    ∃ w, s.installed = some w ∧ (s.workers w).pc ≠ .done ∧
      s.queueCap ≤ (s.workers w).queue.length := by
  unfold LockState.send at hs
  split at hs
  · cases hs
  · rename_i w hw
    dsimp only at hs
    split_ifs at hs with hdone hroom
    exact ⟨w, hw, hdone, not_lt.1 hroom⟩

theorem Inv.thread_ready (h : s.Inv) {t : Fin n} (hbusy : s.Busy (.thread t)) :
    s.Ready (.thread t) ∨ ∃ b, s.Busy b ∧ s.WaitsFor (.thread t) b := by
  have hworker : ∀ w rest, s.installed = some w → (s.workers w).pc ≠ .done →
      (s.queueCap ≤ (s.workers w).queue.length ∨
        (s.threads t).program = .await :: rest ∧ (s.threads t).replied = false ∨
        (s.threads t).program = .join :: rest) → s.Busy (.worker w) := by
    intro w rest hw hdone hwait
    exact ⟨h.installed w hw, hdone, h.working t rest hw hwait⟩
  cases hp : (s.threads t).program with
  | nil => exact absurd hp hbusy
  | cons instr rest =>
    have hready : s.step (.thread t) = s.exec t instr rest := by rw [LockState.step, hp]
    cases hs : s.exec t instr rest with
    | some s' =>
      refine .inl ?_
      show (s.step (.thread t)).isSome = true
      rw [hready, hs]
      rfl
    | none =>
      refine .inr ?_
      unfold LockState.exec at hs
      cases instr with
      | acquire l mode =>
        dsimp only at hs
        split_ifs at hs with hfree
        obtain ⟨b, hb, hheld⟩ := h.holder hfree
        exact ⟨b, hb, .lock ⟨mode, rest, hp⟩ hheld⟩
      | release l => cases hs
      | write =>
        have hs' : (s.setThread t (s.threads t)).send t .entry rest rest = none := by
          rw [show s.setThread t (s.threads t) = s by simp [setThread]]
          exact hs
        obtain ⟨w, hw, hdone, hfull⟩ := send_eq_none hs'
        exact ⟨.worker w, hworker w rest hw hdone (.inl hfull), .slot (.inl hp) hw hfull⟩
      | flush =>
        obtain ⟨w, hw, hdone, hfull⟩ := send_eq_none hs
        exact ⟨.worker w, hworker w rest hw hdone (.inl hfull), .slot (.inr hp) hw hfull⟩
      | await =>
        dsimp only at hs
        split at hs
        · cases hs
        · rename_i w hw
          split_ifs at hs with hr hdone
          have hr' : (s.threads t).replied = false := by simpa using hr
          exact ⟨.worker w, hworker w rest hw hdone (.inr (.inl ⟨hp, hr'⟩)), .reply hp hw hr'⟩
      | spawn mode => cases hs
      | replace =>
        dsimp only at hs
        split at hs
        · cases hs
        · cases hs
      | join =>
        obtain ⟨w, hw, -⟩ := h.joining t rest hp
        dsimp only at hs
        rw [hw] at hs
        dsimp only at hs
        split_ifs at hs with hdone
        exact ⟨.worker w, hworker w rest hw hdone (.inr (.inr hp)), .join hp hw⟩

theorem Inv.worker_ready (h : s.Inv) {w : WorkerId} (hbusy : s.Busy (.worker w)) :
    s.Ready (.worker w) ∨ ∃ b, s.Busy b ∧ s.WaitsFor (.worker w) b := by
  obtain ⟨hw, hdone, hworking⟩ := hbusy
  unfold Ready
  cases hpc : (s.workers w).pc with
  | receiving =>
    refine .inl (.inl ?_)
    unfold LockState.step LockState.receive
    dsimp only
    rw [hpc]
    cases hq : (s.workers w).queue with
    | cons m queue => rfl
    | nil =>
      cases htx : (s.workers w).tx with
      | false => rfl
      | true => exact absurd ⟨hpc, hq, htx⟩ hworking
  | handling m =>
    refine .inl (.inr (.inl ?_))
    rw [LockState.step, hpc]
    rfl
  | recording m =>
    by_cases hfree : s.Free .diagnostics .alone
    · refine .inl (.inr (.inr (.inl ?_)))
      rw [LockState.step, hpc]
      simp only [if_pos hfree, Option.isSome_some]
    · obtain ⟨b, hb, hheld⟩ := h.holder hfree
      exact .inr ⟨b, hb, .lock ⟨rfl, m, hpc⟩ hheld⟩
  | recorded m =>
    refine .inl (.inr (.inr (.inr ?_)))
    rw [LockState.step, hpc]
    rfl
  | done => exact absurd hpc hdone

/-- **No deadlock**: nobody waits for himself through others, no thread acquires a
    lock that it holds, and while a call is under way some step is possible. -/
structure DeadlockFree (s : LockState n) : Prop where
  acyclic : ∀ a, ¬ Relation.TransGen s.WaitsFor a a
  reacquires : ∀ t l mode rest, (s.threads t).program = .acquire l mode :: rest →
    ∀ mode', (l, mode') ∉ (s.threads t).held
  progress : (∃ t, (s.threads t).program ≠ []) → ∃ a, s.Ready a

theorem Inv.deadlockFree (h : s.Inv) : s.DeadlockFree := by
  refine ⟨h.rises.acyclic, fun t l mode rest hp mode' hmem => ?_, ?_⟩
  · have hsound := h.threads t
    unfold ThreadState.Sound at hsound
    rw [hp] at hsound
    exact lt_irrefl _ (hsound.1 _ hmem)
  · rintro ⟨t, ht⟩
    have hready : ∀ a, s.Busy a → s.Ready a ∨ ∃ b, s.Busy b ∧ s.WaitsFor a b := by
      intro a ha
      cases a with
      | thread t => exact h.thread_ready ha
      | worker w => exact h.worker_ready ha
    have hbusy : s.Busy (.thread t) := ht
    exact h.rises.exists_ready s.level_le hready hbusy

/-- **The runtime cannot deadlock on its own locks**, for any number of threads,
    any capacity of the queues, and any order of the steps. -/
theorem no_deadlock {n queueCap : ℕ} {s : LockState n} {actions : List (LockAction n)}
    (hs : Machine.run step (new n queueCap) actions = some s) : s.DeadlockFree :=
  (Machine.run_invariant (fun _ _ _ h hs => h.step hs) hs (new_inv n queueCap)).deadlockFree

/-- A thread installs a writer and clears the runtime, while another one emits. -/
def contention : List (LockAction 2) :=
  (.start 0 (.updateWriters (some ⟨false, false, some .blocking⟩)) ::
    List.replicate 11 (.thread 0)).append
      [.start 0 .clear, .start 1 (.emit false false), .thread 0, .thread 0, .thread 1, .thread 1,
        .thread 1, .thread 1]

theorem no_deadlock_contention : ∃ s, Machine.run step (new 2 0) contention = some s ∧
    s.WaitsFor (.thread 1) (.thread 0) ∧ s.WaitsFor (.thread 0) (.worker 0) ∧ s.DeadlockFree := by
  obtain ⟨s, hs, hemit, hheld, hclear, hw, hr⟩ : ∃ s, Machine.run step (new 2 0) contention = some s ∧
    (s.threads 1).program = locking .writer .alone [.write] ∧
    (s.threads 0).held = [(.writer, .alone)] ∧
    (s.threads 0).program = .await :: (ApiCall.clear.program.drop 2) ∧ s.installed = some 0 ∧
    (s.threads 0).replied = false := ⟨_, rfl, rfl, rfl, rfl, rfl, rfl⟩
  have hholds : s.HoldsLock .writer (.thread 0) := ⟨.alone, by rw [hheld]; exact List.mem_cons_self⟩
  exact ⟨s, hs, .lock ⟨.alone, _, hemit⟩ hholds, .reply hclear hw hr, no_deadlock hs⟩

end LockState

end Eventline
