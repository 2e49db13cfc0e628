/-
  Every call of the runtime returns.

  * `LockState.effort` is what is still to be done: the rest of the calls, and
    what the workers have in their queues.  Every step but the start of a call
    takes from it.
  * `calls_return`: a run has no more than thirty steps for each call, and where
    it cannot go on, all calls have returned and the workers are idle.
-/
import Eventline.Lib.Potential
import Eventline.Runtime.Deadlock

namespace Eventline

open Machine

/-! ## What is still to be done -/

/-- What an instruction costs, with the work that it makes for a worker. -/
def Instr.effort : Instr → ℕ
  | acquire .. | release _ | spawn _ | join => 1
  | await => 3
  | write => 5
  | replace => 6
  | flush => 8

def programEffort (program : List Instr) : ℕ := (program.map Instr.effort).sum

@[simp] theorem programEffort_nil : programEffort [] = 0 := rfl

@[simp] theorem programEffort_cons (instr : Instr) (rest : List Instr) :
    programEffort (instr :: rest) = instr.effort + programEffort rest := by simp [programEffort]

@[simp] theorem programEffort_useDiagnostics (rest : List Instr) :
    programEffort (useDiagnostics ++ rest) = 2 + programEffort rest := by
  simp [programEffort, useDiagnostics, locking, Instr.effort]
  omega

theorem ApiCall.effort_le (c : ApiCall) : programEffort c.program ≤ 29 := by
  cases c with
  | emit inScope trims => revert inScope trims; decide
  | enterScope wantsMetadata => revert wantsMetadata; decide
  | exitScope wasOpen => revert wasOpen; decide
  | updateWriters rebuild =>
    cases rebuild with
    | none => decide
    | some b =>
      obtain ⟨sinks, metadata, succeeds⟩ := b
      cases succeeds with
      | none => revert sinks metadata; decide
      | some mode => cases mode <;> revert sinks metadata <;> decide
  | _ => decide

def WorkerPc.effort : WorkerPc → ℕ
  | receiving | done => 0
  | handling _ => 3
  | recording _ => 2
  | recorded _ => 1

/-- The worker is at the flush at shutdown, or past it. -/
def WorkerPc.ending : WorkerPc → Bool
  | handling m | recording m | recorded m => m.isNone
  | done => true
  | receiving => false

/-- A message costs four steps, and so does the shutdown once the sender is dropped. -/
def WorkerState.effort (worker : WorkerState) : ℕ :=
  4 * worker.queue.length + worker.pc.effort + bif worker.tx || worker.pc.ending then 0 else 4

/-- The action starts a call. -/
def LockAction.isStart {n : ℕ} : LockAction n → Bool
  | .start .. => true
  | _ => false

/-- What an action adds to the effort, its own step included. -/
def LockAction.cost {n : ℕ} (a : LockAction n) : ℕ := if a.isStart then 30 else 0

namespace LockState

variable {n : ℕ} {s s' : LockState n}

def effort (s : LockState n) : ℕ :=
  ∑ t, programEffort (s.threads t).program + ∑ w ∈ Finset.range s.spawned, (s.workers w).effort

/-! ## Steps take effort -/

theorem effort_setThread (s : LockState n) (t : Fin n) (th : ThreadState) :
    (s.setThread t th).effort + programEffort (s.threads t).program =
      s.effort + programEffort th.program := by
  have hsum := sum_update_add (Finset.mem_univ t) s.threads th fun th => programEffort th.program
  simp only [effort, setThread]
  omega

theorem effort_goto (s : LockState n) (t : Fin n) (program : List Instr) :
    (s.goto t program).effort + programEffort (s.threads t).program =
      s.effort + programEffort program := effort_setThread s t _

theorem effort_setWorker (s : LockState n) {w : WorkerId} (hw : w < s.spawned)
    (worker : WorkerState) :
    (s.setWorker w worker).effort + (s.workers w).effort = s.effort + worker.effort := by
  have hsum := sum_update_add (Finset.mem_range.2 hw) s.workers worker WorkerState.effort
  simp only [effort, setWorker]
  omega

theorem effort_goto_lt {t : Fin n} {instr : Instr} {rest program : List Instr}
    (hp : (s.threads t).program = instr :: rest)
    (hless : programEffort program + 1 ≤ instr.effort + programEffort rest) :
    (s.goto t program).effort + 1 ≤ s.effort := by
  have hgoto := effort_goto s t program
  rw [hp, programEffort_cons] at hgoto
  omega

theorem effort_setWorker_lt {w : WorkerId} (hw : w < s.spawned) {worker : WorkerState}
    (hless : worker.effort + 1 ≤ (s.workers w).effort) :
    (s.setWorker w worker).effort + 1 ≤ s.effort := by
  have hworker := effort_setWorker s hw worker
  omega

/-- A thread makes work for a worker, and has paid for it. -/
theorem effort_make {w : WorkerId} (hw : w < s.spawned) {worker : WorkerState}
    (hmore : worker.effort ≤ (s.workers w).effort + 4) {t : Fin n} {instr : Instr}
    {rest program : List Instr} (hp : (s.threads t).program = instr :: rest)
    (hpaid : programEffort program + 5 ≤ instr.effort + programEffort rest) :
    ((s.setWorker w worker).goto t program).effort + 1 ≤ s.effort := by
  have hworker := effort_setWorker s hw worker
  have hgoto := effort_goto (s.setWorker w worker) t program
  rw [show ((s.setWorker w worker).threads t).program = instr :: rest from hp,
    programEffort_cons] at hgoto
  omega

theorem effort_send (hinstalled : ∀ w, s.installed = some w → w < s.spawned) {t : Fin n}
    {m : QueueMsg} {instr : Instr} {sent rest : List Instr}
    (hp : (s.threads t).program = instr :: rest) (hinstr : 3 ≤ instr.effort)
    (hsent : programEffort sent + 5 ≤ instr.effort + programEffort rest)
    (hs : s.send t m sent rest = some s') : s'.effort + 1 ≤ s.effort := by
  unfold LockState.send at hs
  split at hs
  · obtain rfl := Option.some.inj hs
    exact effort_goto_lt hp (by omega)
  · rename_i w hw
    dsimp only at hs
    split_ifs at hs
    · obtain rfl := Option.some.inj hs
      exact effort_goto_lt hp (by rw [programEffort_useDiagnostics]; omega)
    · -- the queue takes the message
      obtain rfl := Option.some.inj hs
      refine effort_make (hinstalled w hw) ?_ hp hsent
      simp only [WorkerState.effort, List.length_append, List.length_singleton]
      omega
    · obtain rfl := Option.some.inj hs
      exact effort_goto_lt hp (by omega)

theorem effort_exec (hinstalled : ∀ w, s.installed = some w → w < s.spawned) {t : Fin n}
    {instr : Instr} {rest : List Instr} (hp : (s.threads t).program = instr :: rest)
    (hs : s.exec t instr rest = some s') : s'.effort + 1 ≤ s.effort := by
  have hthread : ∀ th : ThreadState, th.program = rest →
      (s.setThread t th).effort + 1 ≤ s.effort := by
    intro th hth
    have hset := effort_setThread s t th
    have hpos : 0 < instr.effort := by cases instr <;> simp [Instr.effort]
    rw [hp, hth, programEffort_cons] at hset
    omega
  have hgoto : (s.goto t rest).effort + 1 ≤ s.effort := hthread _ rfl
  unfold LockState.exec at hs
  cases instr with
  | acquire l mode =>
    dsimp only at hs
    split_ifs at hs
    obtain rfl := Option.some.inj hs
    exact hthread _ rfl
  | release l =>
    obtain rfl := Option.some.inj hs
    exact hthread _ rfl
  | write => exact effort_send hinstalled hp (by decide) (by simp [Instr.effort]; omega) hs
  | flush =>
    have hreset : (s.setThread t { s.threads t with replied := false }).effort = s.effort := by
      exact Nat.add_right_cancel (effort_setThread s t { s.threads t with replied := false })
    rw [← hreset]
    have hflush : ((s.setThread t { s.threads t with replied := false }).threads t).program =
        .flush :: rest := by
      simp [setThread, hp]
    refine effort_send hinstalled hflush (by decide) ?_ hs
    · rw [programEffort_cons]
      simp only [Instr.effort]
      omega
  | await =>
    dsimp only at hs
    split at hs
    · obtain rfl := Option.some.inj hs
      exact hgoto
    · split_ifs at hs
      · obtain rfl := Option.some.inj hs
        exact hgoto
      · obtain rfl := Option.some.inj hs
        exact effort_goto_lt hp (by simp [Instr.effort])
  | spawn mode =>
    -- the new worker has nothing to do
    obtain rfl := Option.some.inj hs
    have hset := hthread { s.threads t with program := rest, fresh := some s.spawned } rfl
    have hsum : ∑ w ∈ Finset.range (s.spawned + 1), (Function.update s.workers s.spawned
        ⟨mode, true, [], .receiving⟩ w).effort =
          ∑ w ∈ Finset.range s.spawned, (s.workers w).effort := by
      rw [Finset.sum_range_succ, Function.update_self]
      simp only [WorkerState.effort, WorkerPc.effort, List.length_nil, Bool.true_or, cond_true,
        Nat.mul_zero, Nat.add_zero]
      refine Finset.sum_congr rfl ?_
      intro w hw
      rw [Function.update_of_ne (Finset.mem_range.1 hw).ne]
    simp only [effort, setThread, setWorker, hsum] at hset ⊢
    exact hset
  | replace =>
    dsimp only at hs
    split at hs
    · obtain rfl := Option.some.inj hs
      exact hgoto
    · rename_i w hw
      obtain rfl := Option.some.inj hs
      refine effort_make (hinstalled w hw) ?_ hp (by simp [Instr.effort]; omega)
      -- the worker still has to shut down
      simp only [WorkerState.effort]
      cases (s.workers w).tx <;> cases (s.workers w).pc.ending <;> simp
  | join =>
    dsimp only at hs
    split at hs
    · cases hs
    · split_ifs at hs
      obtain rfl := Option.some.inj hs
      exact hgoto

/-- Ids that are not given out yet are of ended workers. -/
def Unborn (s : LockState n) : Prop := ∀ w, s.spawned ≤ w → (s.workers w).pc = .done

/-- A worker that is not done was started. -/
theorem Unborn.lt (h : s.Unborn) {w : WorkerId} (hw : (s.workers w).pc ≠ .done) : w < s.spawned := by
  by_contra hle
  exact hw (h w (not_lt.1 hle))

theorem effort_finish {w : WorkerId} (hw : w < s.spawned) {m : Option QueueMsg}
    (hpc : (s.workers w).pc = .handling m ∨ (s.workers w).pc = .recorded m) :
    (s.finish w m).effort + 1 ≤ s.effort := by
  have hless : ∀ pc : WorkerPc, pc.effort = 0 → pc.ending = m.isNone →
      (s.setWorker w { s.workers w with pc := pc }).effort + 1 ≤ s.effort := by
    intro pc heffort hending
    refine effort_setWorker_lt hw ?_
    have hold : 1 ≤ (s.workers w).pc.effort ∧ (s.workers w).pc.ending = m.isNone := by
      rcases hpc with hpc | hpc
      · rw [hpc]
        exact ⟨by simp [WorkerPc.effort], rfl⟩
      · rw [hpc]
        exact ⟨by simp [WorkerPc.effort], rfl⟩
    simp only [WorkerState.effort, hold.2, heffort, hending]
    omega
  unfold LockState.finish
  cases m with
  | none => exact hless .done rfl rfl
  | some m =>
    cases m with
    | entry => exact hless .receiving rfl rfl
    | flush t =>
      have hreceiving := hless .receiving rfl rfl
      have hthreads : ∀ u : Fin n, programEffort (if u = t then
          { s.threads u with replied := true } else s.threads u).program =
            programEffort (s.threads u).program := by
        intro u
        split_ifs <;> rfl
      simp only [effort, setWorker, hthreads] at hreceiving ⊢
      exact hreceiving

theorem effort_receive (hunborn : s.Unborn) {w : WorkerId} (hs : s.receive w = some s') :
    s'.effort + 1 ≤ s.effort := by
  unfold LockState.receive at hs
  dsimp only at hs
  split at hs
  · rename_i m queue hpc hqueue
    obtain rfl := Option.some.inj hs
    have hw : w < s.spawned := hunborn.lt (by rw [hpc]; rintro ⟨⟩)
    refine effort_setWorker_lt hw ?_
    simp only [WorkerState.effort, hpc, hqueue, WorkerPc.effort, WorkerPc.ending,
      List.length_cons, Option.isNone_some]
    omega
  · rename_i hpc hqueue
    split_ifs at hs with htx
    obtain rfl := Option.some.inj hs
    have hw : w < s.spawned := hunborn.lt (by rw [hpc]; rintro ⟨⟩)
    refine effort_setWorker_lt hw ?_
    have hclosed : (s.workers w).tx = false := by simpa using htx
    simp [WorkerState.effort, hpc, hqueue, hclosed, WorkerPc.effort, WorkerPc.ending]
  · cases hs

/-- **Every step is paid for**: by the effort, or by the call that it starts. -/
theorem effort_step (h : s.Inv) (hunborn : s.Unborn) {a : LockAction n} (hs : s.step a = some s') :
    s'.effort + 1 ≤ s.effort + a.cost := by
  have hworking : ∀ w pc, (s.workers w).pc = pc → pc ≠ .done → w < s.spawned := by
    rintro w pc rfl hne
    exact hunborn.lt hne
  cases a with
  | start t c =>
    rw [LockState.step] at hs
    split_ifs at hs with hidle
    obtain rfl := Option.some.inj hs
    have hgoto := effort_goto s t c.program
    have hcall := c.effort_le
    rw [hidle, programEffort_nil] at hgoto
    simp only [LockAction.cost, LockAction.isStart, if_true]
    omega
  | thread t =>
    rw [LockState.step] at hs
    split at hs
    · cases hs
    · rename_i instr rest hp
      exact effort_exec h.installed hp hs
  | receive w => exact effort_receive hunborn hs
  | work w failed =>
    rw [LockState.step] at hs
    split at hs
    · rename_i m hpc
      have hw := hworking w _ hpc (by rintro ⟨⟩)
      obtain rfl := Option.some.inj hs
      split_ifs
      · refine effort_setWorker_lt hw ?_
        simp only [WorkerState.effort, hpc, WorkerPc.effort, WorkerPc.ending]
        omega
      · exact effort_finish hw (.inl hpc)
    · cases hs
  | record w =>
    rw [LockState.step] at hs
    split at hs
    · rename_i m hpc
      split_ifs at hs
      obtain rfl := Option.some.inj hs
      have hw := hworking w _ hpc (by rintro ⟨⟩)
      refine effort_setWorker_lt hw ?_
      simp only [WorkerState.effort, hpc, WorkerPc.effort, WorkerPc.ending]
      omega
    · cases hs
  | recordEnd w =>
    rw [LockState.step] at hs
    split at hs
    · rename_i m hpc
      obtain rfl := Option.some.inj hs
      exact effort_finish (hworking w _ hpc (by rintro ⟨⟩)) (.inr hpc)
    · cases hs

/-! ## Workers that were not started -/

theorem Unborn.of_workers (h : s.Unborn) (hworkers : s'.workers = s.workers)
    (hspawned : s'.spawned = s.spawned) : s'.Unborn := by
  intro w hw
  rw [hworkers]
  exact h w (hspawned ▸ hw)

theorem Unborn.setWorker (h : s.Unborn) {w : WorkerId} (hw : w < s.spawned) (worker : WorkerState) :
    (s.setWorker w worker).Unborn := by
  intro v hv
  show (Function.update s.workers w worker v).pc = .done
  rw [Function.update_of_ne (hw.trans_le hv).ne']
  exact h v hv

theorem Unborn.send (h : s.Unborn) (hinstalled : ∀ w, s.installed = some w → w < s.spawned)
    {t : Fin n} {m : QueueMsg} {sent rest : List Instr} (hs : s.send t m sent rest = some s') :
    s'.Unborn := by
  unfold LockState.send at hs
  split at hs
  · obtain rfl := Option.some.inj hs
    exact h.of_workers rfl rfl
  · rename_i w hw
    dsimp only at hs
    split_ifs at hs
    · obtain rfl := Option.some.inj hs
      exact h.of_workers rfl rfl
    · obtain rfl := Option.some.inj hs
      exact (h.setWorker (hinstalled w hw) _).of_workers rfl rfl
    · obtain rfl := Option.some.inj hs
      exact h.of_workers rfl rfl

theorem Unborn.exec (h : s.Unborn) (hinstalled : ∀ w, s.installed = some w → w < s.spawned)
    {t : Fin n} {instr : Instr} {rest : List Instr} (hs : s.exec t instr rest = some s') :
    s'.Unborn := by
  unfold LockState.exec at hs
  cases instr with
  | acquire l mode =>
    dsimp only at hs
    split_ifs at hs
    obtain rfl := Option.some.inj hs
    exact h.of_workers rfl rfl
  | release l =>
    obtain rfl := Option.some.inj hs
    exact h.of_workers rfl rfl
  | write => exact h.send hinstalled hs
  | flush =>
    have hreset : (s.setThread t { s.threads t with replied := false }).Unborn :=
      h.of_workers rfl rfl
    exact hreset.send hinstalled hs
  | await =>
    dsimp only at hs
    split at hs
    · obtain rfl := Option.some.inj hs
      exact h.of_workers rfl rfl
    · split_ifs at hs
      · obtain rfl := Option.some.inj hs
        exact h.of_workers rfl rfl
      · obtain rfl := Option.some.inj hs
        exact h.of_workers rfl rfl
  | spawn mode =>
    obtain rfl := Option.some.inj hs
    intro w hw
    have hlt : s.spawned < w := hw
    show (Function.update s.workers s.spawned _ w).pc = .done
    rw [Function.update_of_ne hlt.ne']
    exact h w hlt.le
  | replace =>
    dsimp only at hs
    split at hs
    · obtain rfl := Option.some.inj hs
      exact h.of_workers rfl rfl
    · rename_i w hw
      obtain rfl := Option.some.inj hs
      exact (h.setWorker (hinstalled w hw) _).of_workers rfl rfl
  | join =>
    dsimp only at hs
    split at hs
    · cases hs
    · split_ifs at hs
      obtain rfl := Option.some.inj hs
      exact h.of_workers rfl rfl

theorem Unborn.finish (h : s.Unborn) {w : WorkerId} (hw : w < s.spawned) (m : Option QueueMsg) :
    (s.finish w m).Unborn := by
  unfold LockState.finish
  cases m with
  | none => exact h.setWorker hw _
  | some m =>
    cases m with
    | entry => exact h.setWorker hw _
    | flush t => exact (h.setWorker hw _).of_workers rfl rfl

theorem Unborn.step (h : s.Unborn) (hinstalled : ∀ w, s.installed = some w → w < s.spawned)
    {a : LockAction n} (hs : s.step a = some s') : s'.Unborn := by
  have hworking : ∀ w pc, (s.workers w).pc = pc → pc ≠ .done → w < s.spawned := by
    rintro w pc rfl hne
    exact h.lt hne
  cases a with
  | start t c =>
    rw [LockState.step] at hs
    split_ifs at hs
    obtain rfl := Option.some.inj hs
    exact h.of_workers rfl rfl
  | thread t =>
    rw [LockState.step] at hs
    split at hs
    · cases hs
    · exact h.exec hinstalled hs
  | receive w =>
    rw [LockState.step, LockState.receive] at hs
    split at hs
    · rename_i m queue hpc hqueue
      obtain rfl := Option.some.inj hs
      exact h.setWorker (hworking w _ hpc (by rintro ⟨⟩)) _
    · rename_i hpc hqueue
      split_ifs at hs
      obtain rfl := Option.some.inj hs
      exact h.setWorker (hworking w _ hpc (by rintro ⟨⟩)) _
    · cases hs
  | work w failed =>
    rw [LockState.step] at hs
    split at hs
    · rename_i m hpc
      have hw := hworking w _ hpc (by rintro ⟨⟩)
      obtain rfl := Option.some.inj hs
      split_ifs
      · exact h.setWorker hw _
      · exact h.finish hw m
    · cases hs
  | record w =>
    rw [LockState.step] at hs
    split at hs
    · rename_i m hpc
      split_ifs at hs
      obtain rfl := Option.some.inj hs
      exact h.setWorker (hworking w _ hpc (by rintro ⟨⟩)) _
    · cases hs
  | recordEnd w =>
    rw [LockState.step] at hs
    split at hs
    · rename_i m hpc
      obtain rfl := Option.some.inj hs
      exact h.finish (hworking w _ hpc (by rintro ⟨⟩)) m
    · cases hs

/-! ## Calls return -/

/-- All calls have returned, and the workers wait for messages or have ended. -/
structure Quiet (s : LockState n) : Prop where
  threads : ∀ t, (s.threads t).program = [] ∧ (s.threads t).held = []
  workers : ∀ w < s.spawned, (s.workers w).pc = .done ∨
    (s.workers w).pc = .receiving ∧ (s.workers w).queue = [] ∧ (s.workers w).tx = true

/-- The invariant of runs. -/
structure Sane (s : LockState n) : Prop where
  inv : s.Inv
  unborn : s.Unborn

theorem new_sane (n queueCap : ℕ) : (new n queueCap).Sane := ⟨new_inv n queueCap, fun _ _ => rfl⟩

theorem Sane.step (h : s.Sane) {a : LockAction n} (hs : s.step a = some s') : s'.Sane :=
  ⟨h.inv.step hs, h.unborn.step h.inv.installed hs⟩

/-- A state in which nobody is ready has nobody who is busy. -/
theorem Inv.quiet (h : s.Inv) (hstuck : ∀ a, ¬ s.Ready a) : s.Quiet := by
  have hready : ∀ a, s.Busy a → s.Ready a ∨ ∃ b, s.Busy b ∧ s.WaitsFor a b := by
    intro a ha
    cases a with
    | thread t => exact h.thread_ready ha
    | worker w => exact h.worker_ready ha
  have hidle : ∀ a, ¬ s.Busy a := by
    intro a ha
    obtain ⟨b, hb⟩ := h.rises.exists_ready s.level_le hready ha
    exact hstuck b hb
  constructor
  · intro t
    have hdone : (s.threads t).program = [] := by
      by_contra hne
      exact hidle (.thread t) hne
    have hsound := h.threads t
    unfold ThreadState.Sound at hsound
    rw [hdone] at hsound
    exact ⟨hdone, hsound⟩
  · intro w hw
    by_contra hbusy
    push Not at hbusy
    refine hidle (.worker w) ⟨hw, hbusy.1, ?_⟩
    rintro ⟨hpc, hqueue, htx⟩
    exact hbusy.2 hpc hqueue htx

theorem not_ready (hstuck : ∀ a : LockAction n, a.isStart = false → s.step a = none) (a : Agent n) :
    ¬ s.Ready a := by
  cases a with
  | thread t => simp [Ready, hstuck (.thread t) rfl]
  | worker w =>
    simp [Ready, hstuck (.receive w) rfl, hstuck (.work w false) rfl, hstuck (.record w) rfl,
      hstuck (.recordEnd w) rfl]

/-- How the calls of a run end. -/
structure CallsReturn (s : LockState n) (actions : List (LockAction n)) : Prop where
  /-- thirty steps for each call -/
  bounded : actions.length ≤ 30 * actions.countP LockAction.isStart
  /-- where only a new call is possible, the others have returned -/
  returned : (∀ a : LockAction n, a.isStart = false → s.step a = none) → s.Quiet
  /-- such a state can be reached -/
  completes : ∃ more s', (∀ a ∈ more, a.isStart = false) ∧ Machine.run step s more = some s' ∧
    s'.Quiet

theorem sum_cost (actions : List (LockAction n)) :
    (actions.map LockAction.cost).sum = 30 * actions.countP LockAction.isStart := by
  induction actions with
  | nil => rfl
  | cons a actions ih =>
    rw [List.map_cons, List.sum_cons, ih, List.countP_cons, LockAction.cost]
    split_ifs <;> omega

theorem cost_eq_zero {a : LockAction n} : a.cost = 0 ↔ a.isStart = false := by
  cases a <;> simp [LockAction.cost, LockAction.isStart]

/-- **Every call returns**, for any number of threads, any capacity of the queues
    and any order of the steps: no run goes on without new calls, and it stops
    only where all calls have returned. -/
theorem calls_return {queueCap : ℕ} {actions : List (LockAction n)}
    (hs : Machine.run step (new n queueCap) actions = some s) : s.CallsReturn actions := by
  have hkeep : ∀ (s : LockState n) a s', s.Sane → s.step a = some s' → s'.Sane :=
    fun _ _ _ h hs => h.step hs
  have hpay : ∀ (s : LockState n) a s', s.Sane → s.step a = some s' →
      s'.effort + 1 ≤ s.effort + a.cost := fun _ _ _ h hs => effort_step h.inv h.unborn hs
  have hnew : (new n queueCap).effort = 0 := by simp [effort, new]
  have hsane : s.Sane := Machine.run_invariant hkeep hs (new_sane n queueCap)
  constructor
  · have hlength := run_length_le hkeep hpay hs (new_sane n queueCap)
    rw [hnew, sum_cost] at hlength
    omega
  · intro hstuck
    exact hsane.inv.quiet (not_ready hstuck)
  · obtain ⟨more, s', hfree, hmore, hstuck⟩ := exists_stuck hkeep hpay hsane
    refine ⟨more, s', fun a ha => cost_eq_zero.1 (hfree a ha), hmore, ?_⟩
    exact (Machine.run_invariant hkeep hmore hsane).inv.quiet
      (not_ready fun a ha => hstuck a (cost_eq_zero.2 ha))

/-- Two threads that wait for each other and for a worker. -/
theorem calls_return_contention : ∃ s, Machine.run step (new 2 0) contention = some s ∧
    (s.threads 0).held = [(.writer, .alone)] ∧
    ∃ more s', (∀ a ∈ more, a.isStart = false) ∧ Machine.run step s more = some s' ∧ s'.Quiet := by
  obtain ⟨s, hs, hheld⟩ : ∃ s, Machine.run step (new 2 0) contention = some s ∧
    (s.threads 0).held = [(.writer, .alone)] := ⟨_, rfl, rfl⟩
  exact ⟨s, hs, hheld, (calls_return hs).completes⟩

end LockState

end Eventline
