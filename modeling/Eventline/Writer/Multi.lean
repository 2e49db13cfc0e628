/-
  Sinks side by side (`MultiWriter` of `journal/writer.rs`, `FilteredWriter` of
  `runtime/mod.rs`, put together by `build_writers`).

  A `Writer` is the methods of the trait over a type of states, with any results:
  the state of a sink decides which of its calls fail.  A boxed writer of any
  type is a state, so one type serves for all sinks of a list.

  * `spied`: a sink that keeps the calls it receives.
  * `run_multi`: a run of the combined writer is a run of each sink on its own,
    on the calls that are due to it.
  * `sinks_isolated`: what each sink receives, and what a combined call returns.
-/
import Eventline.Writer.Sink

namespace Eventline

/-- The trait `Writer`. -/
structure Writer (σ : Type) where
  wantsScopeMetadata : σ → Bool
  setRunId : String → σ → σ
  writeScope : Scope → σ → IoResult × σ
  writeRecord : Record → Option Scope → σ → IoResult × σ
  flush : σ → IoResult × σ

structure FilteredWriter (σ : Type) where
  inner : σ
  minLevel : LogLevel

structure MultiWriter (σ : Type) where
  writers : List σ

/-- `get_or_insert` of the error of a result. -/
def orError (firstError : Option IoError) : IoResult → Option IoError
  | .error e => firstError.or (some e)
  | .ok () => firstError

/-- The loop of `MultiWriter` over its writers. -/
def forWriters {σ : Type} (op : σ → IoResult × σ) (firstError : Option IoError) :
    List σ → Option IoError × List σ
  | [] => (firstError, [])
  | s :: writers =>
    let (result, s) := op s
    let (firstError, writers) := forWriters op (orError firstError result) writers
    (firstError, s :: writers)

namespace Writer

variable {σ : Type} (w : Writer σ)

/-- `impl Writer for FilteredWriter`. -/
def filtered : Writer (FilteredWriter σ) where
  wantsScopeMetadata f := w.wantsScopeMetadata f.inner
  setRunId runId f := { f with inner := w.setRunId runId f.inner }
  writeScope scope f :=
    let (result, inner) := w.writeScope scope f.inner
    (result, { f with inner })
  writeRecord record scope f :=
    if recordEnabledAtLevel record f.minLevel then
      let (result, inner) := w.writeRecord record scope f.inner
      (result, { f with inner })
    else (.ok (), f)
  flush f :=
    let (result, inner) := w.flush f.inner
    (result, { f with inner })

/-- A call of every writer; the first error is returned. -/
def tryAll (op : σ → IoResult × σ) (m : MultiWriter σ) : IoResult × MultiWriter σ :=
  let (firstError, writers) := forWriters op none m.writers
  (firstError.elim (.ok ()) .error, ⟨writers⟩)

/-- `impl Writer for MultiWriter`. -/
def multi : Writer (MultiWriter σ) where
  wantsScopeMetadata m := m.writers.any w.wantsScopeMetadata
  setRunId runId m := ⟨m.writers.map (w.setRunId runId)⟩
  writeScope scope := tryAll (w.writeScope scope)
  writeRecord record scope := tryAll (w.writeRecord record scope)
  flush := tryAll w.flush

/-- A call of the trait. -/
def call (m : Msg) (s : σ) : IoResult × σ :=
  match m with
  | .runId runId => (.ok (), w.setRunId runId s)
  | .scope scope => w.writeScope scope s
  | .record record scope => w.writeRecord record scope s
  | .flush => w.flush s

/-- The results of a sequence of calls, and the state after it. -/
def run : List Msg → σ → List IoResult × σ
  | [], s => ([], s)
  | m :: ms, s =>
    let (result, s) := w.call m s
    let (results, s) := run ms s
    (result :: results, s)

end Writer

/-- A sink with the calls that it has received. -/
structure Spied (σ : Type) where
  inner : σ
  received : List Msg

/-- The sink, with its calls written down. -/
def Writer.spied {σ : Type} (w : Writer σ) : Writer (Spied σ) where
  wantsScopeMetadata s := w.wantsScopeMetadata s.inner
  setRunId runId s := ⟨w.setRunId runId s.inner, s.received ++ [.runId runId]⟩
  writeScope scope s :=
    let (result, inner) := w.writeScope scope s.inner
    (result, ⟨inner, s.received ++ [.scope scope]⟩)
  writeRecord record scope s :=
    let (result, inner) := w.writeRecord record scope s.inner
    (result, ⟨inner, s.received ++ [.record record scope]⟩)
  flush s :=
    let (result, inner) := w.flush s.inner
    (result, ⟨inner, s.received ++ [.flush]⟩)

/-! ## What is due to a sink -/

def EventKind.level : EventKind → LogLevel
  | .debug => .debug
  | .info => .info
  | .warning => .warning
  | .error => .error

/-- A sink of the level is to get the call: events of a lower level are not for it. -/
def Msg.due (minLevel : LogLevel) : Msg → Bool
  | .record r _ =>
    match r.kind with
    | .event kind _ _ => minLevel.toNat ≤ kind.level.toNat
    | .scopeExit .. => true
  | _ => true

theorem recordEnabledAtLevel_eq (record : Record) (scope : Option Scope) (minLevel : LogLevel) :
    recordEnabledAtLevel record minLevel = (Msg.record record scope).due minLevel := by
  unfold recordEnabledAtLevel Msg.due
  dsimp only
  cases record.kind with
  | scopeExit outcome durationNs => rfl
  | event kind name fields =>
    cases kind <;> exact decide_eq_decide.2 Nat.not_lt

/-- Behind its filter the file gets what is due to it. -/
theorem AsyncWriter.fileCalls_due (w : AsyncWriter) (minLevel : LogLevel) :
    w.fileCalls minLevel =
      ((w.inner.map Prod.fst).filter (Msg.due minLevel)).filterMap (Msg.fileCall .debug) := by
  rw [fileCalls, List.filterMap_filter]
  congr 1
  funext m
  cases m with
  | runId runId => rfl
  | flush => rfl
  | scope scope => rfl
  | record record scope =>
    rw [Msg.fileCall, recordEnabledAtLevel_eq record scope, Msg.fileCall,
      if_pos (recordEnabledAtLevel_debug record)]

/-! ## One call -/

/-- The error of a result. -/
def ioError : IoResult → Option IoError
  | .error e => some e
  | .ok () => none

/-- **Every writer is called**, whatever the others return, and the error is that
    of the first one that fails. -/
theorem forWriters_eq {σ : Type} (op : σ → IoResult × σ) (firstError : Option IoError)
    (writers : List σ) : forWriters op firstError writers =
      (firstError.or (writers.findSome? fun s => ioError (op s).1),
        writers.map fun s => (op s).2) := by
  induction writers generalizing firstError with
  | nil => simp [forWriters]
  | cons s writers ih =>
    rw [forWriters]
    simp only [ih, List.findSome?_cons, List.map_cons]
    cases hresult : (op s).1 with
    | ok u => simp [orError, ioError]
    | error e => cases firstError <;> simp [orError, ioError]

namespace Writer

variable {σ : Type} (w : Writer σ)

/-- What a combined call returns, from the results of the sinks. -/
def firstFailure (results : List IoResult) : IoResult :=
  (results.findSome? ioError).elim (.ok ()) .error

theorem multi_call (m : Msg) (writers : List σ) : w.multi.call m ⟨writers⟩ =
    (firstFailure (writers.map fun s => (w.call m s).1), ⟨writers.map fun s => (w.call m s).2⟩) := by
  have hall : ∀ op : σ → IoResult × σ, tryAll op ⟨writers⟩ =
      (firstFailure (writers.map fun s => (op s).1), ⟨writers.map fun s => (op s).2⟩) := by
    intro op
    rw [tryAll, forWriters_eq, firstFailure, List.findSome?_map]
    rfl
  cases m with
  | runId runId =>
    have hok : (writers.map fun _ => (.ok () : IoResult)).findSome? ioError = none := by
      simp [ioError]
    show _ = (firstFailure (writers.map fun _ => (.ok () : IoResult)), _)
    rw [firstFailure, hok]
    rfl
  | scope scope => exact hall _
  | record record scope => exact hall _
  | flush => exact hall _

/-- A sink behind a filter gets the call if it is due. -/
theorem filtered_call (m : Msg) (s : σ) (minLevel : LogLevel) : w.filtered.call m ⟨s, minLevel⟩ =
    if m.due minLevel then ((w.call m s).1, ⟨(w.call m s).2, minLevel⟩)
    else (.ok (), ⟨s, minLevel⟩) := by
  cases m with
  | runId runId => rfl
  | scope scope => rfl
  | flush => rfl
  | record record scope =>
    show (if recordEnabledAtLevel record minLevel then _ else _) = _
    rw [recordEnabledAtLevel_eq record scope]
    rfl

theorem spied_call (m : Msg) (s : σ) (received : List Msg) : w.spied.call m ⟨s, received⟩ =
    ((w.call m s).1, ⟨(w.call m s).2, received ++ [m]⟩) := by
  cases m <;> rfl

/-! ## Runs -/

theorem spied_run (ms : List Msg) (s : σ) (received : List Msg) : w.spied.run ms ⟨s, received⟩ =
    ((w.run ms s).1, ⟨(w.run ms s).2, received ++ ms⟩) := by
  induction ms generalizing s received with
  | nil => simp [run]
  | cons m ms ih => simp [run, spied_call, ih]

/-- **A filtered sink runs** as the sink does on the calls that are due. -/
theorem filtered_run (ms : List Msg) (s : σ) (minLevel : LogLevel) :
    (w.filtered.run ms ⟨s, minLevel⟩).2 = ⟨(w.run (ms.filter (Msg.due minLevel)) s).2, minLevel⟩ := by
  induction ms generalizing s with
  | nil => rfl
  | cons m ms ih =>
    rw [run, filtered_call]
    by_cases hdue : m.due minLevel
    · rw [if_pos hdue, List.filter_cons_of_pos hdue]
      exact ih _
    · rw [if_neg hdue, List.filter_cons_of_neg hdue]
      exact ih s

/-- **A combined writer runs** as each of its writers does. -/
theorem multi_run (ms : List Msg) (writers : List σ) :
    (w.multi.run ms ⟨writers⟩).2 = ⟨writers.map fun s => (w.run ms s).2⟩ := by
  induction ms generalizing writers with
  | nil => simp [run]
  | cons m ms ih =>
    rw [run, multi_call]
    show (w.multi.run ms ⟨writers.map fun s => (w.call m s).2⟩).2 = _
    rw [ih, List.map_map]
    rfl

/-- The result of a call in a run is that of the call in the state before it. -/
theorem run_result (before : List Msg) (m : Msg) (later : List Msg) (s : σ) :
    (w.run (before ++ m :: later) s).1[before.length]? =
      some (w.call m (w.run before s).2).1 := by
  induction before generalizing s with
  | nil => rfl
  | cons b before ih => exact ih _

end Writer

/-! ## Isolation -/

section
variable {σ : Type} (w : Writer σ) (sinks : List (σ × LogLevel)) (calls : List Msg)

/-- The `MultiWriter` that `build_writers` makes of opened sinks, each behind the
    `FilteredWriter` of its level; the calls they receive are written down. -/
def combined : MultiWriter (FilteredWriter (Spied σ)) :=
  ⟨sinks.map fun s => ⟨⟨s.1, []⟩, s.2⟩⟩

/-- A run of the combined writer. -/
def runCombined : List IoResult × MultiWriter (FilteredWriter (Spied σ)) :=
  w.spied.filtered.multi.run calls (combined sinks)

/-- The state of a sink that gets only the calls that are due to it. -/
def runAlone (s : σ × LogLevel) : σ := (w.run (calls.filter (Msg.due s.2)) s.1).2

/-- How the call ends on the sink, after other calls; one that is not due to it
    is not made. -/
def resultAlone (before : List Msg) (call : Msg) (s : σ × LogLevel) : IoResult :=
  if call.due s.2 then (w.call call (runAlone w before s)).1 else .ok ()

/-- Each sink received just the calls that are due to it, in order, and is as if it
    were alone; a combined call returns the error of the first sink that fails. -/
structure SinksIsolated : Prop where
  received : (runCombined w sinks calls).2.writers =
    sinks.map fun s => ⟨⟨runAlone w calls s, calls.filter (Msg.due s.2)⟩, s.2⟩
  results : ∀ before call later, calls = before ++ call :: later →
    (runCombined w sinks calls).1[before.length]? =
      some (Writer.firstFailure (sinks.map (resultAlone w before call)))
  independent : ∀ (others : List (σ × LogLevel)) (i j : ℕ), others[j]? = sinks[i]? →
    (runCombined w others calls).2.writers[j]? = (runCombined w sinks calls).2.writers[i]?

theorem runCombined_state : (runCombined w sinks calls).2 =
    ⟨sinks.map fun s => ⟨⟨runAlone w calls s, calls.filter (Msg.due s.2)⟩, s.2⟩⟩ := by
  rw [runCombined, combined, Writer.multi_run, List.map_map]
  refine congrArg MultiWriter.mk (List.map_congr_left fun s _ => ?_)
  show (w.spied.filtered.run calls ⟨⟨s.1, []⟩, s.2⟩).2 = _
  rw [Writer.filtered_run, Writer.spied_run, List.nil_append]
  rfl

/-- The error of the first failed call says which one it was. -/
theorem firstFailure_eq_error {results : List IoResult} {e : IoError} :
    Writer.firstFailure results = .error e ↔
      ∃ before later, results = before ++ .error e :: later ∧ ∀ r ∈ before, r = .ok () := by
  induction results with
  | nil => simp [Writer.firstFailure]
  | cons r results ih =>
    cases r with
    | error e' =>
      constructor
      · intro h
        obtain rfl : e' = e := Except.error.inj h
        exact ⟨[], results, rfl, by simp⟩
      · rintro ⟨before, later, heq, hok⟩
        cases before with
        | nil =>
          obtain ⟨he, -⟩ := List.cons.inj heq
          rw [he]
          rfl
        | cons b before =>
          obtain ⟨rfl, -⟩ := List.cons.inj heq
          cases hok _ List.mem_cons_self
    | ok u =>
      refine Iff.trans (show _ ↔ Writer.firstFailure results = .error e from Iff.rfl) (ih.trans ?_)
      constructor
      · rintro ⟨before, later, rfl, hok⟩
        exact ⟨.ok u :: before, later, rfl, List.forall_mem_cons.2 ⟨rfl, hok⟩⟩
      · rintro ⟨before, later, heq, hok⟩
        cases before with
        | nil => cases heq
        | cons b before =>
          obtain ⟨-, rfl⟩ := List.cons.inj heq
          exact ⟨before, later, rfl, fun r hr => hok r (List.mem_cons_of_mem _ hr)⟩

end

/-- **Sinks are isolated from each other**, for any sinks, levels, failures and
    sequences of calls; a combined call fails exactly when a sink's call does,
    with the error of the first of them. -/
theorem sinks_isolated {σ : Type} (w : Writer σ) (sinks : List (σ × LogLevel)) (calls : List Msg) :
    SinksIsolated w sinks calls ∧
      ∀ before call e, Writer.firstFailure (sinks.map (resultAlone w before call)) = .error e ↔
        ∃ earlier s later, sinks = earlier ++ s :: later ∧ resultAlone w before call s = .error e ∧
          ∀ t ∈ earlier, resultAlone w before call t = .ok () := by
  refine ⟨⟨by rw [runCombined_state], ?_, ?_⟩, ?_⟩
  · rintro before call later rfl
    have hstate : (w.spied.filtered.multi.run before (combined sinks)).2 = _ :=
      runCombined_state w sinks before
    rw [runCombined, Writer.run_result, hstate, Writer.multi_call, List.map_map]
    refine congrArg (fun results => some (Writer.firstFailure results))
      (List.map_congr_left fun s _ => ?_)
    show (w.spied.filtered.call call _).1 = resultAlone w before call s
    rw [Writer.filtered_call, resultAlone, Writer.spied_call]
    split_ifs <;> rfl
  · intro others i j heq
    rw [runCombined_state, runCombined_state, List.getElem?_map, List.getElem?_map, heq]
  · intro before call e
    rw [firstFailure_eq_error]
    constructor
    · rintro ⟨oks, rest, heq, hok⟩
      obtain ⟨earlier, found, rfl, rfl, hfound⟩ := List.map_eq_append_iff.1 heq
      obtain ⟨s, later, rfl, hs, rfl⟩ := List.map_eq_cons_iff.1 hfound
      exact ⟨earlier, s, later, rfl, hs, fun t ht => hok _ (List.mem_map_of_mem ht)⟩
    · rintro ⟨earlier, s, later, rfl, hs, hok⟩
      refine ⟨earlier.map (resultAlone w before call), later.map (resultAlone w before call), ?_, ?_⟩
      · rw [List.map_append, List.map_cons, hs]
      · intro r hr
        obtain ⟨t, ht, rfl⟩ := List.mem_map.1 hr
        exact hok t ht

end Eventline
