/-
  The output configuration is changed as a whole or not at all.

  * `CallHistory`: the calls that returned, each from the state in which the one
    before it left the runtime; `CallEntry.Sound` says what one call does.
  * `Inv`: in the middle of a call, how far the state is from that history.
  * `transactional`: what holds in every state that is reached.
  * `shortcut_after_failure`: a request that failed is cut short after
    `set_journal_retention` has made the change that it asked for.
-/
import Eventline.Runtime.Config

namespace Eventline

/-! ## What a call does -/

/-- The same configuration, cached one, writer and, unless it was set directly
    (`direct`), level. -/
structure OutputState.Same (direct : Bool) (a b : OutputState) : Prop where
  config : b.config = a.config
  lastCfg : b.lastCfg = a.lastCfg
  writer : b.writer = a.writer
  level : direct = false → b.level = a.level

theorem OutputState.Same.refl (direct : Bool) (a : OutputState) : a.Same direct a :=
  ⟨rfl, rfl, rfl, fun _ => rfl⟩

theorem OutputState.Same.trans {direct : Bool} {a b c : OutputState} (h : a.Same direct b)
    (h' : b.Same direct c) : a.Same direct c :=
  ⟨h'.config.trans h.config, h'.lastCfg.trans h.lastCfg, h'.writer.trans h.writer,
    fun hd => (h'.level hd).trans (h.level hd)⟩

/-- A direct `set_log_level`. -/
theorem OutputState.Same.setLevel {direct : Bool} {a b : OutputState} (h : a.Same direct b)
    (level : LogLevel) : a.Same true { b with level } :=
  ⟨h.config, h.lastCfg, h.writer, nofun⟩

theorem OutputState.Same.mono {direct : Bool} {a b : OutputState} (h : a.Same direct b) :
    a.Same true b := ⟨h.config, h.lastCfg, h.writer, nofun⟩

/-- A sink update that succeeded. -/
structure Installs (direct : Bool) (c : OutputCall) (before after : OutputState) : Prop where
  config : after.config = c.change before.config
  lastCfg : after.lastCfg = some after.config
  writer : after.writer = .async (buildWriters after.config c.header) after.config.writerMode
  level : direct = false → after.level = after.config.effectiveLevel

/-- The retention was set. -/
structure SetsRetention (direct : Bool) (maxRecords : ℕ) (before after : OutputState) : Prop where
  config : after.config = before.config.withRetention maxRecords
  lastCfg : after.lastCfg = before.lastCfg.map (Config.withRetention · maxRecords)
  writer : after.writer = before.writer
  level : direct = false → after.level = before.level

/-- What a call did. -/
def CallEntry.Sound (direct : Bool) (e : CallEntry) : Prop :=
  match e.call, e.result with
  | .update c, .applied => Installs direct c e.before e.after
  | .update c, .unchanged => e.before.Same direct e.after ∧ c.force = false ∧
      e.before.lastCfg = some (c.change e.before.config)
  | .update c, .failed _ => e.before.Same direct e.after ∧
      (c.force = false → e.before.lastCfg ≠ some (c.change e.before.config))
  | .setJournalRetention maxRecords, .applied => SetsRetention direct maxRecords e.before e.after
  | .setJournalRetention _, _ => False

/-- The calls that returned lead to a state. -/
inductive CallHistory (direct : Bool) : List CallEntry → OutputState → Prop
  | nil : CallHistory direct [] Configuration.new.st
  | snoc {log : List CallEntry} {st : OutputState} (h : CallHistory direct log st) (e : CallEntry)
      (hbefore : st.Same direct e.before) (he : e.Sound direct) :
      CallHistory direct (log ++ [e]) e.after

theorem CallEntry.Sound.mono {direct : Bool} {e : CallEntry} (h : e.Sound direct) :
    e.Sound true := by
  unfold CallEntry.Sound at h ⊢
  split at h
  · exact ⟨h.config, h.lastCfg, h.writer, nofun⟩
  · exact ⟨h.1.mono, h.2⟩
  · exact ⟨h.1.mono, h.2⟩
  · exact ⟨h.config, h.lastCfg, h.writer, nofun⟩
  · exact h.elim

theorem CallHistory.mono {direct : Bool} {log : List CallEntry} {st : OutputState}
    (h : CallHistory direct log st) : CallHistory true log st := by
  induction h with
  | nil => exact .nil
  | snoc h e hbefore he ih => exact .snoc ih e hbefore.mono he.mono

/-! ## What follows from the history -/

/-- The cached configuration, the writer and the level belong to the committed
    configuration, once there is a cached one. -/
structure OutputState.Settled (direct : Bool) (st : OutputState) : Prop where
  config : ∀ cfg, st.lastCfg = some cfg → cfg = st.config
  writer : st.lastCfg ≠ none →
    ∃ header, st.writer = .async (buildWriters st.config header) st.config.writerMode
  level : st.lastCfg ≠ none → direct = false → st.level = st.config.effectiveLevel

theorem OutputState.Settled.congr {direct : Bool} {a b : OutputState} (h : a.Settled direct)
    (hsame : a.Same direct b) : b.Settled direct := by
  refine ⟨fun cfg hcfg => ?_, fun hcfg => ?_, fun hcfg hd => ?_⟩
  · rw [hsame.config]
    exact h.config cfg (hsame.lastCfg ▸ hcfg)
  · rw [hsame.writer, hsame.config]
    exact h.writer (hsame.lastCfg ▸ hcfg)
  · rw [hsame.level hd, hsame.config]
    exact h.level (hsame.lastCfg ▸ hcfg) hd

/-- The retention is not read when writers are built. -/
theorem buildWriters_withRetention (cfg : Config) (maxRecords : ℕ) (header : Option RunHeader) :
    buildWriters (cfg.withRetention maxRecords) header = buildWriters cfg header := rfl

theorem effectiveLevel_withRetention (cfg : Config) (maxRecords : ℕ) :
    (cfg.withRetention maxRecords).effectiveLevel = cfg.effectiveLevel := rfl

theorem Installs.settled {direct : Bool} {c : OutputCall} {before after : OutputState}
    (h : Installs direct c before after) : after.Settled direct := by
  refine ⟨fun cfg hcfg => ?_, fun _ => ⟨c.header, h.writer⟩, fun _ => h.level⟩
  rw [h.lastCfg] at hcfg
  exact (Option.some.inj hcfg).symm

theorem SetsRetention.settled {direct : Bool} {maxRecords : ℕ} {before after : OutputState}
    (h : SetsRetention direct maxRecords before after) (hbefore : before.Settled direct) :
    after.Settled direct := by
  have hne : after.lastCfg ≠ none → before.lastCfg ≠ none := by
    rintro hafter hnone
    rw [h.lastCfg, hnone] at hafter
    exact hafter rfl
  refine ⟨fun cfg hcfg => ?_, fun hcfg => ?_, fun hcfg hd => ?_⟩
  · rw [h.lastCfg] at hcfg
    obtain ⟨old, hold, rfl⟩ := Option.map_eq_some_iff.1 hcfg
    rw [h.config, hbefore.config old hold]
  · obtain ⟨header, hwriter⟩ := hbefore.writer (hne hcfg)
    refine ⟨header, ?_⟩
    rw [h.writer, hwriter, h.config, buildWriters_withRetention]
    rfl
  · rw [h.level hd, hbefore.level (hne hcfg) hd, h.config, effectiveLevel_withRetention]

theorem CallEntry.Sound.settled {direct : Bool} {e : CallEntry} (h : e.Sound direct)
    (hbefore : e.before.Settled direct) : e.after.Settled direct := by
  unfold CallEntry.Sound at h
  split at h
  · exact h.settled
  · exact hbefore.congr h.1
  · exact hbefore.congr h.1
  · exact h.settled hbefore
  · exact h.elim

/-- The change of a call that does not fail is committed. -/
theorem CallEntry.Sound.config {direct : Bool} {e : CallEntry} (h : e.Sound direct)
    (hbefore : e.before.Settled direct) (hok : e.result.isFailed = false) :
    e.after.config = e.call.change e.before.config := by
  unfold CallEntry.Sound at h
  split at h
  · rename_i hcall _
    rw [hcall]
    exact h.config
  · rename_i c hcall _
    obtain ⟨hsame, -, hlast⟩ := h
    rw [hsame.config, hcall]
    exact (hbefore.config _ hlast).symm
  · rename_i hresult
    rw [hresult] at hok
    cases hok
  · rename_i hcall _
    rw [hcall]
    exact h.config
  · exact h.elim

/-- A call that did not take effect leaves everything as it was. -/
theorem CallEntry.Sound.same {direct : Bool} {e : CallEntry} (h : e.Sound direct)
    (hnot : e.result ≠ .applied) : e.before.Same direct e.after := by
  unfold CallEntry.Sound at h
  split at h
  · rename_i hresult
    exact absurd hresult hnot
  · exact h.1
  · exact h.1
  · rename_i hresult
    exact absurd hresult hnot
  · exact h.elim

namespace CallHistory

variable {direct : Bool} {log xs ys : List CallEntry} {st : OutputState}

theorem new_settled : Configuration.new.st.Settled direct where
  config _ h := by cases h
  writer h := absurd rfl h
  level h := absurd rfl h

theorem settled (h : CallHistory direct log st) : st.Settled direct := by
  induction h with
  | nil => exact new_settled
  | snoc h e hbefore he ih => exact he.settled (ih.congr hbefore)

theorem sound (h : CallHistory direct log st) : ∀ e ∈ log, e.Sound direct := by
  induction h with
  | nil =>
    intro e he
    cases he
  | snoc h e hbefore he ih =>
    intro e' he'
    rcases List.mem_append.1 he' with he' | he'
    · exact ih e' he'
    · rw [List.mem_singleton.1 he']
      exact he

/-- The committed configuration: the changes of the calls that succeeded, in
    order. -/
theorem config (h : CallHistory direct log st) :
    st.config = (log.filter fun e => !e.result.isFailed).foldl (fun cfg e => e.call.change cfg)
      .initial := by
  induction h with
  | nil => rfl
  | @snoc log st h e hbefore he ih =>
    rw [List.filter_append, List.foldl_append, ← ih]
    cases hok : e.result.isFailed with
    | false =>
      rw [he.config (h.settled.congr hbefore) hok, hbefore.config]
      simp [hok]
    | true =>
      have hnot : e.result ≠ .applied := by
        intro hresult
        rw [hresult] at hok
        cases hok
      rw [(he.same hnot).config, hbefore.config]
      simp [hok]

/-- Once a sink update has succeeded, there is a cached configuration. -/
theorem installed (h : CallHistory direct log st) {e : CallEntry} (he : e ∈ log) {c : OutputCall}
    (hcall : e.call = .update c) (hresult : e.result = .applied) : st.lastCfg ≠ none := by
  induction h with
  | nil => cases he
  | snoc h f hbefore hf ih =>
    rcases List.mem_append.1 he with he | he
    · have hst := ih he
      rw [← hbefore.lastCfg] at hst
      unfold CallEntry.Sound at hf
      split at hf
      · rw [hf.lastCfg]
        exact nofun
      · rw [hf.1.lastCfg]
        exact hst
      · rw [hf.1.lastCfg]
        exact hst
      · rw [hf.lastCfg]
        exact fun hnone => hst (Option.map_eq_none_iff.1 hnone)
      · exact hf.elim
    · obtain rfl := List.mem_singleton.1 he
      unfold CallEntry.Sound at hf
      rw [hcall, hresult] at hf
      rw [Installs.lastCfg hf]
      exact nofun

/-- The last call that returned. -/
theorem last {e : CallEntry} (h : CallHistory direct (log ++ [e]) st) :
    ∃ base, CallHistory direct log base ∧ base.Same direct e.before ∧ e.Sound direct ∧
      st = e.after := by
  generalize hall : log ++ [e] = all at h
  cases h with
  | nil => simp at hall
  | snoc h f hbefore hf =>
    obtain ⟨rfl, hlast⟩ := List.append_inj' hall rfl
    obtain rfl := List.singleton_inj.1 hlast
    exact ⟨_, h, hbefore, hf, rfl⟩

/-- Calls that take no effect leave the state as it was. -/
theorem quiet (h : CallHistory direct (xs ++ ys) st) : ∃ base, CallHistory direct xs base ∧
    ((∀ g ∈ ys, g.result ≠ .applied) → base.Same direct st) := by
  induction ys using List.reverseRecOn generalizing st with
  | nil =>
    rw [List.append_nil] at h
    exact ⟨st, h, fun _ => .refl _ _⟩
  | append_singleton ys g ih =>
    rw [← List.append_assoc] at h
    obtain ⟨mid, hmid, hbefore, hg, rfl⟩ := h.last
    obtain ⟨base, hbase, hsame⟩ := ih hmid
    refine ⟨base, hbase, fun hnot => ?_⟩
    have hys := hsame fun g' hg' => hnot g' (List.mem_append_left _ hg')
    exact (hys.trans hbefore).trans (hg.same (hnot g (by simp)))

/-- A request that failed is not cut short before another call has taken effect. -/
theorem retried {e f : CallEntry} {zs : List CallEntry}
    (h : CallHistory direct (xs ++ [e] ++ ys ++ [f] ++ zs) st) (hcall : e.call = f.call)
    (he : e.result.isFailed = true) (hf : f.result = .unchanged) :
    ∃ g ∈ ys, g.result = .applied := by
  by_contra hnone
  have hquiet : ∀ g ∈ ys, g.result ≠ .applied := fun g hg ha => hnone ⟨g, hg, ha⟩
  obtain ⟨after, hafter, -⟩ := h.quiet
  obtain ⟨mid, hmid, hfbefore, hfsound, -⟩ := hafter.last
  obtain ⟨base, hbase, hsame⟩ := hmid.quiet
  obtain ⟨-, -, -, hesound, rfl⟩ := hbase.last
  -- the state in which `f` begins is the one in which `e` began
  have hne : e.result ≠ .applied := by
    intro ha
    rw [ha] at he
    cases he
  have hall := ((hesound.same hne).trans (hsame hquiet)).trans hfbefore
  unfold CallEntry.Sound at hesound hfsound
  rw [hf] at hfsound
  cases hresult : e.result with
  | applied => exact hne hresult
  | unchanged =>
    rw [hresult] at he
    cases he
  | failed error =>
    rw [hresult, hcall] at hesound
    cases hc : f.call with
    | setJournalRetention maxRecords =>
      rw [hc] at hfsound
      exact hfsound
    | update c =>
      rw [hc] at hesound hfsound
      obtain ⟨-, hforce, hlast⟩ := hfsound
      refine hesound.2 hforce ?_
      rw [← hall.lastCfg, ← hall.config]
      exact hlast

end CallHistory

/-! ## Headers -/

/-- A header is asked for only by calls that are not cut short. -/
theorem OutputCall.force_of_header {c : OutputCall} {header : RunHeader}
    (h : c.header = some header) : c.force = true := by
  cases c with
  | enableFileOutputRotating path policy header' => rfl
  | setup s =>
    simp only [OutputCall.header] at h
    split at h
    · rename_i hfile
      simp only [OutputCall.force, hfile]
    · cases h
  | _ => cases h

/-- The writer that a call with a header installs has written it. -/
theorem OutputCall.header_written {c : OutputCall} {header : RunHeader} (h : c.header = some header)
    (cfg : Config) : ∃ path style policy minLevel,
      Sink.rotating path style policy (some header) minLevel ∈
        buildWriters (c.change cfg) c.header := by
  have hrotation : ∀ (cfg : Config) (file : String) (limits : LogPolicy),
      ∃ path style policy minLevel, Sink.rotating path style policy (some header) minLevel ∈
        buildWriters (cfg.withRotation file limits) (some header) := by
    intro cfg file limits
    exact ⟨file, ⟨true, true, cfg.fileFormat⟩, limits, cfg.fileLevel,
      List.mem_append_right _ (List.mem_singleton.2 rfl)⟩
  rw [h]
  cases c with
  | enableFileOutputRotating path policy header' => exact hrotation cfg path policy
  | setup s =>
    simp only [OutputCall.header] at h
    split at h
    · rename_i path policy header' hfile
      simp only [OutputCall.change, Setup.change, hfile]
      exact hrotation _ path policy
    · cases h
  | _ => cases h

/-! ## The invariant of the runs -/

/-- Where a call is that has locked `last_cfg`: what it has done since. -/
def ConfigPc.Holds (direct : Bool) (st : OutputState) : ConfigPc → OutputState → Prop
  | .locked _ before, base => base.Same direct before ∧ before.Same direct st
  | .retained maxRecords before, base => base.Same direct before ∧
      st.config = before.config.withRetention maxRecords ∧ st.lastCfg = before.lastCfg ∧
      st.writer = before.writer ∧ (direct = false → st.level = before.level)
  | .changed c cfg before, base => base.Same direct before ∧ before.Same direct st ∧
      cfg = c.change before.config ∧ (c.force = false → before.lastCfg ≠ some cfg)
  | .failed c _ before, base => base.Same direct before ∧ before.Same direct st ∧
      (c.force = false → before.lastCfg ≠ some (c.change before.config))
  | .installed c cfg before, base => base.Same direct before ∧ cfg = c.change before.config ∧
      st.writer = .async (buildWriters cfg c.header) cfg.writerMode
  | .leveled c cfg before, base => base.Same direct before ∧ cfg = c.change before.config ∧
      st.writer = .async (buildWriters cfg c.header) cfg.writerMode ∧
      (direct = false → st.level = cfg.effectiveLevel)
  | .committed c cfg before, base => base.Same direct before ∧ cfg = c.change before.config ∧
      st.writer = .async (buildWriters cfg c.header) cfg.writerMode ∧
      (direct = false → st.level = cfg.effectiveLevel) ∧ st.config = cfg
  | .user, _ | .waiting _, _ => False

/-- Before a new writer is built nobody but `set_log_level`, which set the levels
    `during`, changes the level. -/
def ConfigPc.KeepsLevel (during : List LogLevel) (st : OutputState) : ConfigPc → Prop
  | .locked _ before | .changed _ _ before | .failed _ _ before =>
    st.level = during.getLastD before.level
  | _ => True

/-- The thread has not locked `last_cfg`. -/
def ConfigPc.free : ConfigPc → Bool
  | .user | .waiting _ => true
  | _ => false

/-- A setup whose failure is recorded, and that has not returned. -/
def ConfigPc.failing : ConfigPc → ℕ
  | .failed .. => 1
  | _ => 0

/-- The number of setups that failed. -/
def failures (log : List CallEntry) : ℕ := log.countP fun e => e.result.isFailed

theorem failures_concat (log : List CallEntry) (e : CallEntry) :
    failures (log ++ [e]) = failures log + if e.result.isFailed then 1 else 0 := by
  rw [failures, List.countP_append, List.countP_singleton, failures]

namespace Configuration

structure Inv (s : Configuration) : Prop where
  free : ∀ t, s.holder ≠ some t → (s.threads t).free = true
  idle : s.holder = none → ∃ base, CallHistory s.direct s.log base ∧ base.Same s.direct s.st
  held : ∀ t, s.holder = some t → ∃ base, CallHistory s.direct s.log base ∧
    (s.threads t).Holds s.direct s.st base
  keeps : ∀ t, s.holder = some t → (s.threads t).KeepsLevel s.during s.st
  levels : ∀ e ∈ s.log, e.result.isFailed = true → e.after.level = e.during.getLastD e.before.level
  counted : s.state.failed =
    s.background + failures s.log + s.holder.elim 0 fun t => (s.threads t).failing

theorem new_inv : new.Inv where
  free _ _ := rfl
  idle _ := ⟨_, .nil, .refl _ _⟩
  held t h := by cases h
  keeps t h := by cases h
  levels e he := by cases he
  counted := rfl

variable {s s' : Configuration} {t : ThreadId}

/-- Only the thread that has `last_cfg` is past the lock. -/
theorem Inv.holder (h : s.Inv) (ht : (s.threads t).free = false) : s.holder = some t := by
  by_contra hne
  rw [h.free t hne] at ht
  cases ht

/-- A call that has the lock moves on. -/
theorem Inv.move (h : s.Inv) (ht : s.holder = some t) {st : OutputState} {state : WriterState}
    {pc : ConfigPc}
    (hheld : ∀ base, (s.threads t).Holds s.direct s.st base → pc.Holds s.direct st base)
    (hkeeps : (s.threads t).KeepsLevel s.during s.st → pc.KeepsLevel s.during st)
    (hcount : state.failed + (s.threads t).failing = s.state.failed + pc.failing) :
    Inv ({ s with st, state }.goto t pc) := by
  refine ⟨fun u hu => ?_, fun hidle => ?_, fun u hu => ?_, fun u hu => ?_, h.levels, ?_⟩
  · have hne : u ≠ t := by
      rintro rfl
      exact hu ht
    show (Function.update s.threads t pc u).free = true
    rw [Function.update_of_ne hne]
    exact h.free u hu
  · rw [show s.holder = none from hidle] at ht
    cases ht
  · obtain rfl := Option.some.inj (ht.symm.trans hu)
    obtain ⟨base, hhist, hholds⟩ := h.held t ht
    refine ⟨base, hhist, ?_⟩
    show (Function.update s.threads t pc t).Holds s.direct st base
    rw [Function.update_self]
    exact hheld base hholds
  · obtain rfl := Option.some.inj (ht.symm.trans hu)
    show (Function.update s.threads t pc t).KeepsLevel s.during st
    rw [Function.update_self]
    exact hkeeps (h.keeps t ht)
  · have hold := h.counted
    rw [ht] at hold
    show state.failed = s.background + failures s.log +
      s.holder.elim 0 fun u => (Function.update s.threads t pc u).failing
    rw [ht]
    simp only [Option.elim_some, Function.update_self] at hold ⊢
    omega

/-- A call returns. -/
theorem Inv.ret (h : s.Inv) (ht : s.holder = some t) {st : OutputState} {call : ConfigCall}
    {result : CallResult} {before : OutputState}
    (hend : ∀ base, (s.threads t).Holds s.direct s.st base →
      base.Same s.direct before ∧ CallEntry.Sound s.direct ⟨call, result, before, st, s.during⟩)
    (hkept : (s.threads t).KeepsLevel s.during s.st → result.isFailed = true →
      st.level = s.during.getLastD before.level)
    (hcount : (s.threads t).failing = if result.isFailed then 1 else 0) :
    Inv ({ s with st }.ret t call result before) := by
  obtain ⟨base, hhist, hholds⟩ := h.held t ht
  obtain ⟨hbefore, hsound⟩ := hend base hholds
  refine ⟨fun u _ => ?_, fun _ => ⟨st, .snoc hhist _ hbefore hsound, .refl _ _⟩, ?_, ?_, ?_, ?_⟩
  · show (Function.update s.threads t .user u).free = true
    by_cases hu : u = t
    · rw [hu, Function.update_self]
      rfl
    · rw [Function.update_of_ne hu]
      refine h.free u fun hheld => hu ?_
      exact (Option.some.inj (ht.symm.trans hheld)).symm
  · rintro u ⟨⟩
  · rintro u ⟨⟩
  · intro e he
    rcases List.mem_append.1 he with he | he
    · exact h.levels e he
    · rw [List.mem_singleton.1 he]
      exact hkept (h.keeps t ht)
  · have hold := h.counted
    rw [ht] at hold
    rw [Option.elim_some, hcount] at hold
    show s.state.failed =
      s.background + failures (s.log ++ [⟨call, result, before, st, s.during⟩]) + 0
    rw [failures_concat, hold]
    dsimp only
    omega

theorem Inv.next (h : s.Inv) (hs : s.next t = some s') : s'.Inv := by
  have hlocked : (s.threads t).free = false → s.holder = some t := h.holder
  unfold Configuration.next at hs
  split at hs
  · rename_i c before hpc
    rw [hpc] at hlocked
    have ht := hlocked rfl
    dsimp only at hs
    split_ifs at hs with hcut
    · obtain rfl := Option.some.inj hs
      refine h.ret ht (fun base hholds => ?_) (fun _ hfailed => by cases hfailed) (by rw [hpc]; rfl)
      rw [hpc] at hholds
      obtain ⟨hbase, hsame⟩ := hholds
      refine ⟨hbase, hsame, hcut.1, ?_⟩
      rw [← hsame.lastCfg, ← hsame.config]
      exact hcut.2
    · obtain rfl := Option.some.inj hs
      refine h.move ht (fun base hholds => ?_) (fun hkeeps => by rwa [hpc] at hkeeps) (by rw [hpc]; rfl)
      rw [hpc] at hholds
      obtain ⟨hbase, hsame⟩ := hholds
      refine ⟨hbase, hsame, by rw [hsame.config], fun hforce hlast => hcut ⟨hforce, ?_⟩⟩
      rw [hsame.lastCfg]
      exact hlast
  · rename_i maxRecords before hpc
    rw [hpc] at hlocked
    obtain rfl := Option.some.inj hs
    refine h.move (hlocked rfl) (fun base hholds => ?_) (fun _ => trivial) (by rw [hpc]; rfl)
    rw [hpc] at hholds
    obtain ⟨hbase, hsame⟩ := hholds
    refine ⟨hbase, ?_, hsame.lastCfg, hsame.writer, hsame.level⟩
    show s.st.config.withRetention maxRecords = _
    rw [hsame.config]
  · rename_i maxRecords before hpc
    rw [hpc] at hlocked
    obtain rfl := Option.some.inj hs
    refine h.ret (hlocked rfl) (fun base hholds => ?_) (fun _ hfailed => by cases hfailed) (by rw [hpc]; rfl)
    rw [hpc] at hholds
    obtain ⟨hbase, hconfig, hlast, hwriter, hlevel⟩ := hholds
    refine ⟨hbase, hconfig, ?_, hwriter, hlevel⟩
    show s.st.lastCfg.map _ = _
    rw [hlast]
  · rename_i c error before hpc
    rw [hpc] at hlocked
    obtain rfl := Option.some.inj hs
    refine h.ret (hlocked rfl) (fun base hholds => ?_) (fun hkeeps _ => by rwa [hpc] at hkeeps) (by rw [hpc]; rfl)
    rw [hpc] at hholds
    exact hholds
  · rename_i c cfg before hpc
    rw [hpc] at hlocked
    obtain rfl := Option.some.inj hs
    refine h.move (hlocked rfl) (fun base hholds => ?_) (fun _ => trivial) (by rw [hpc]; rfl)
    rw [hpc] at hholds
    obtain ⟨hbase, hcfg, hwriter⟩ := hholds
    exact ⟨hbase, hcfg, hwriter, fun _ => rfl⟩
  · rename_i c cfg before hpc
    rw [hpc] at hlocked
    obtain rfl := Option.some.inj hs
    refine h.move (hlocked rfl) (fun base hholds => ?_) (fun _ => trivial) (by rw [hpc]; rfl)
    rw [hpc] at hholds
    obtain ⟨hbase, hcfg, hwriter, hlevel⟩ := hholds
    exact ⟨hbase, hcfg, hwriter, hlevel, rfl⟩
  · rename_i c cfg before hpc
    rw [hpc] at hlocked
    obtain rfl := Option.some.inj hs
    refine h.ret (hlocked rfl) (fun base hholds => ?_) (fun _ hfailed => by cases hfailed) (by rw [hpc]; rfl)
    rw [hpc] at hholds
    obtain ⟨hbase, hcfg, hwriter, hlevel, hconfig⟩ := hholds
    have hafter : s.st.config = c.change before.config := hconfig.trans hcfg
    refine ⟨hbase, hafter, ?_, ?_, ?_⟩
    · show some cfg = some s.st.config
      rw [hconfig]
    · show s.st.writer = .async (buildWriters s.st.config c.header) s.st.config.writerMode
      rw [hconfig]
      exact hwriter
    · intro hd
      show s.st.level = s.st.config.effectiveLevel
      rw [hconfig]
      exact hlevel hd
  · cases hs
  · cases hs
  · cases hs

theorem Inv.build (h : s.Inv) {r : IoResult} (hs : s.build t r = some s') : s'.Inv := by
  unfold Configuration.build at hs
  split at hs
  · rename_i c cfg before error hpc
    have ht : s.holder = some t := h.holder (by rw [hpc]; rfl)
    obtain rfl := Option.some.inj hs
    refine h.move ht (fun base hholds => ?_) (fun hkeeps => by rwa [hpc] at hkeeps) (by rw [hpc]; rfl)
    rw [hpc] at hholds
    obtain ⟨hbase, hsame, rfl, hnot⟩ := hholds
    exact ⟨hbase, hsame, hnot⟩
  · rename_i c cfg before hpc
    have ht : s.holder = some t := h.holder (by rw [hpc]; rfl)
    obtain rfl := Option.some.inj hs
    refine h.move ht (fun base hholds => ?_) (fun _ => trivial) (by rw [hpc]; rfl)
    rw [hpc] at hholds
    obtain ⟨hbase, -, hcfg, -⟩ := hholds
    exact ⟨hbase, hcfg, rfl⟩
  · cases hs

/-- A direct `set_log_level` in the middle of a call. -/
theorem holds_setLevel {direct : Bool} {pc : ConfigPc} {st base : OutputState}
    (h : pc.Holds direct st base) (level : LogLevel) : pc.Holds true { st with level } base := by
  cases pc with
  | user => exact h
  | waiting c => exact h
  | locked c before => exact ⟨h.1.mono, h.2.setLevel level⟩
  | retained maxRecords before =>
    obtain ⟨hbase, hconfig, hlast, hwriter, -⟩ := h
    exact ⟨hbase.mono, hconfig, hlast, hwriter, nofun⟩
  | changed c cfg before =>
    obtain ⟨hbase, hsame, hcfg, hnot⟩ := h
    exact ⟨hbase.mono, hsame.setLevel level, hcfg, hnot⟩
  | failed c error before =>
    obtain ⟨hbase, hsame, hnot⟩ := h
    exact ⟨hbase.mono, hsame.setLevel level, hnot⟩
  | installed c cfg before =>
    obtain ⟨hbase, hcfg, hwriter⟩ := h
    exact ⟨hbase.mono, hcfg, hwriter⟩
  | leveled c cfg before =>
    obtain ⟨hbase, hcfg, hwriter, -⟩ := h
    exact ⟨hbase.mono, hcfg, hwriter, nofun⟩
  | committed c cfg before =>
    obtain ⟨hbase, hcfg, hwriter, -, hconfig⟩ := h
    exact ⟨hbase.mono, hcfg, hwriter, nofun, hconfig⟩

theorem keepsLevel_setLevel {during : List LogLevel} {pc : ConfigPc} {st : OutputState}
    (level : LogLevel) (h : pc.KeepsLevel during st) :
    pc.KeepsLevel (during ++ [level]) { st with level } := by
  cases pc with
  | locked c before => exact List.getLastD_concat.symm
  | changed c cfg before => exact List.getLastD_concat.symm
  | failed c error before => exact List.getLastD_concat.symm
  | _ => exact h

/-- **Every step keeps the invariant.** -/
theorem Inv.step (h : s.Inv) {a : ConfigAction} (hs : s.step a = some s') : s'.Inv := by
  cases a with
  | call t c =>
    rw [Configuration.step] at hs
    split at hs
    · rename_i hpc
      obtain rfl := Option.some.inj hs
      -- a thread that waits does not count
      have hne : s.holder ≠ some t := by
        intro ht
        obtain ⟨base, -, hholds⟩ := h.held t ht
        rw [hpc] at hholds
        exact hholds
      have hother : ∀ u, s.holder = some u → Function.update s.threads t (.waiting c) u =
          s.threads u := by
        intro u hu
        refine Function.update_of_ne ?_ _ _
        rintro rfl
        exact hne hu
      refine ⟨fun u hu => ?_, h.idle, fun u hu => ?_, fun u hu => ?_, h.levels, ?_⟩
      · show (Function.update s.threads t (.waiting c) u).free = true
        by_cases hut : u = t
        · rw [hut, Function.update_self]
          rfl
        · rw [Function.update_of_ne hut]
          exact h.free u hu
      · show ∃ base, _ ∧ (Function.update s.threads t (.waiting c) u).Holds s.direct s.st base
        rw [hother u hu]
        exact h.held u hu
      · show (Function.update s.threads t (.waiting c) u).KeepsLevel s.during s.st
        rw [hother u hu]
        exact h.keeps u hu
      · have hold := h.counted
        show s.state.failed = s.background + failures s.log +
          s.holder.elim 0 fun u => (Function.update s.threads t (.waiting c) u).failing
        cases hholder : s.holder with
        | none => rwa [hholder] at hold
        | some u =>
          rw [hholder] at hold
          rw [Option.elim_some, hother u hholder]
          exact hold
    · cases hs
  | lock t =>
    rw [Configuration.step] at hs
    split at hs
    · rename_i c hpc hholder
      obtain rfl := Option.some.inj hs
      refine ⟨fun u hu => ?_, nofun, fun u hu => ?_, fun u hu => ?_, h.levels, ?_⟩
      · have hut : u ≠ t := by
          rintro rfl
          exact hu rfl
        show (Function.update s.threads t _ u).free = true
        rw [Function.update_of_ne hut]
        exact h.free u (by rw [hholder]; nofun)
      · obtain rfl := Option.some.inj hu
        obtain ⟨base, hhist, hsame⟩ := h.idle hholder
        refine ⟨base, hhist, ?_⟩
        show (Function.update s.threads t _ t).Holds s.direct s.st base
        rw [Function.update_self]
        exact ⟨hsame, .refl _ _⟩
      · obtain rfl := Option.some.inj hu
        show (Function.update s.threads t _ t).KeepsLevel [] s.st
        rw [Function.update_self]
        rfl
      · have hold := h.counted
        rw [hholder] at hold
        show s.state.failed = s.background + failures s.log +
          (Function.update s.threads t _ t).failing
        rw [Function.update_self]
        exact hold
    · cases hs
  | next t => exact h.next hs
  | build t r => exact h.build hs
  | recordError operation error =>
    obtain rfl := Option.some.inj hs
    refine ⟨h.free, h.idle, h.held, h.keeps, h.levels, ?_⟩
    have hold := h.counted
    show s.state.failed + 1 = s.background + 1 + failures s.log +
      s.holder.elim 0 fun t => (s.threads t).failing
    omega
  | setLogLevel level =>
    obtain rfl := Option.some.inj hs
    refine ⟨h.free, fun hidle => ?_, fun t ht => ?_, fun t ht => ?_, h.levels, h.counted⟩
    · obtain ⟨base, hhist, hsame⟩ := h.idle hidle
      exact ⟨base, hhist.mono, hsame.setLevel level⟩
    · obtain ⟨base, hhist, hholds⟩ := h.held t ht
      exact ⟨base, hhist.mono, holds_setLevel hholds level⟩
    · exact keepsLevel_setLevel level (h.keeps t ht)

/-- What holds of the configuration in every state of a run. -/
structure Transactional (s : Configuration) : Prop where
  /-- a setup that fails leaves everything as it was, the level too unless
      `set_log_level` changed it meanwhile -/
  failed : ∀ e ∈ s.log, e.result.isFailed = true →
    e.after = { e.before with level := e.during.getLastD e.before.level }
  /-- and adds one failed operation -/
  counted : s.holder = none → s.state.failed = s.background + failures s.log
  /-- after a success, cached configuration, writer and level are those of the
      committed configuration -/
  settled : s.holder = none → (∃ e ∈ s.log, ∃ c, e.call = .update c ∧ e.result = .applied) →
    s.st.lastCfg = some s.st.config ∧
    (∃ header, s.st.writer = .async (buildWriters s.st.config header) s.st.config.writerMode) ∧
    (s.direct = false → s.st.level = s.st.config.effectiveLevel)
  /-- no update is lost -/
  committed : s.holder = none → s.st.config =
    (s.log.filter fun e => !e.result.isFailed).foldl (fun cfg e => e.call.change cfg) .initial
  /-- a request that failed is tried again, unless another call took effect -/
  retried : ∀ (xs : List CallEntry) (e : CallEntry) (ys : List CallEntry) (f : CallEntry)
    (zs : List CallEntry), s.log = xs ++ [e] ++ ys ++ [f] ++ zs → e.call = f.call →
    e.result.isFailed = true → f.result = .unchanged → ∃ g ∈ ys, g.result = .applied
  /-- a header is written -/
  header : ∀ e ∈ s.log, ∀ c header, e.call = .update c → c.header = some header →
    e.result ≠ .unchanged ∧ (e.result = .applied →
      ∃ sinks mode path style policy minLevel, e.after.writer = .async sinks mode ∧
        Sink.rotating path style policy (some header) minLevel ∈ sinks)

theorem Inv.kept (h : s.Inv) : s.Transactional := by
  obtain ⟨base, hhist⟩ : ∃ base, CallHistory s.direct s.log base := by
    cases hholder : s.holder with
    | none =>
      obtain ⟨base, hhist, -⟩ := h.idle hholder
      exact ⟨base, hhist⟩
    | some t =>
      obtain ⟨base, hhist, -⟩ := h.held t hholder
      exact ⟨base, hhist⟩
  refine ⟨fun e he hfailed => ?_, fun hidle => ?_, fun hidle hdone => ?_, fun hidle => ?_, ?_, ?_⟩
  · have hsame := (hhist.sound e he).same fun happlied => by
      rw [happlied] at hfailed
      cases hfailed
    have hlevel := h.levels e he hfailed
    obtain ⟨call, result, before, after, during⟩ := e
    obtain ⟨hconfig, hlast, hwriter, -⟩ := hsame
    exact OutputState.ext hconfig hlast hwriter hlevel
  · have hcount := h.counted
    rwa [hidle] at hcount
  · obtain ⟨e, he, c, hcall, hresult⟩ := hdone
    obtain ⟨base, hhist, hsame⟩ := h.idle hidle
    have hsettled := hhist.settled.congr hsame
    have hlast : s.st.lastCfg ≠ none := by
      rw [hsame.lastCfg]
      exact hhist.installed he hcall hresult
    refine ⟨?_, hsettled.writer hlast, hsettled.level hlast⟩
    obtain ⟨cfg, hcfg⟩ := Option.ne_none_iff_exists'.1 hlast
    rw [hcfg, hsettled.config cfg hcfg]
  · obtain ⟨base, hhist, hsame⟩ := h.idle hidle
    rw [hsame.config]
    exact hhist.config
  · intro xs e ys f zs hlog hcall he hf
    rw [hlog] at hhist
    exact hhist.retried hcall he hf
  · intro e he c header hcall hheader
    have hsound := hhist.sound e he
    obtain ⟨call, result, before, after⟩ := e
    obtain rfl : call = .update c := hcall
    constructor
    · rintro rfl
      obtain ⟨-, hforce, -⟩ : before.Same s.direct after ∧ c.force = false ∧
        before.lastCfg = some (c.change before.config) := hsound
      rw [OutputCall.force_of_header hheader] at hforce
      cases hforce
    · rintro rfl
      have hinstalls : Installs s.direct c before after := hsound
      obtain ⟨path, style, policy, minLevel, hmem⟩ := OutputCall.header_written hheader before.config
      rw [← hinstalls.config] at hmem
      exact ⟨_, _, path, style, policy, minLevel, hinstalls.writer, hmem⟩

/-- **The configuration is transactional**, for any number of threads, calls and
    failures, in any order of their sections. -/
theorem transactional {actions : List ConfigAction}
    (hs : Machine.run step new actions = some s) : s.Transactional :=
  (Machine.run_invariant (fun _ _ _ h hs => h.step hs) hs new_inv).kept

/-- A call of a thread from its start to the lock, then the sections `rest`. -/
def locks (t : ThreadId) (c : ConfigCall) (rest : List ConfigAction) : List ConfigAction :=
  .call t c :: .lock t :: rest

/-- `init_sync` by a thread. -/
def inits (t : ThreadId) : List ConfigAction :=
  locks t (.update .initSync) [.next t, .build t (.ok ()), .next t, .next t, .next t]

/-- Two threads initialise the runtime, while a third one sets the retention. -/
def concurrent : List ConfigAction :=
  .call 1 (.update .initSync) :: .call 2 (.setJournalRetention 0) ::
    (inits 0).append [.lock 2, .next 2, .next 2, .lock 1, .next 1]

theorem transactional_concurrent : ∃ s, Machine.run step new concurrent = some s ∧
    s.st.config.maxJournalRecords = 1 ∧ s.Transactional := by
  obtain ⟨s, hs, hmax⟩ : ∃ s, Machine.run step new concurrent = some s ∧
    s.st.config.maxJournalRecords = 1 := ⟨_, rfl, rfl⟩
  exact ⟨s, hs, hmax, transactional hs⟩

/-- A setup that changes the retention only. -/
def retentionSetup : Setup := ⟨true, some .info, none, some .debug, none, some 100⟩

/-- The setup fails, the retention is set, and the setup is tried again. -/
def retriedSetup : List ConfigAction :=
  List.flatten [inits 0,
    locks 0 (.update (.setup retentionSetup))
      [.next 0, .build 0 (.error ⟨.other, "thread limit reached"⟩), .next 0],
    locks 0 (.setJournalRetention 100) [.next 0, .next 0],
    locks 0 (.update (.setup retentionSetup)) [.next 0]]

/-- **A request that failed is cut short** after `set_journal_retention` has made
    the change that it asked for, though it never succeeded. -/
theorem shortcut_after_failure : ∃ s e f, Machine.run step new retriedSetup = some s ∧
    s.log[1]? = some e ∧ s.log[3]? = some f ∧ e.call = f.call ∧
    e.result = .failed ⟨.other, "thread limit reached"⟩ ∧ f.result = .unchanged :=
  ⟨_, _, _, rfl, rfl, rfl, rfl, rfl, rfl⟩

end Configuration

end Eventline
