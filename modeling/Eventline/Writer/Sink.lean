/-
  A plain JSONL file behind the background writer.

  `build_writers` puts the file behind a `FilteredWriter` and `update_writers`
  puts that behind an `AsyncWriter`.

  * `FlushedTo`: such a sink in the mode `Blocking` got some calls, and a flush
    has returned.  `FlushedTo.bytes`: the file holds the lines of these calls.
-/
import Eventline.Runtime.Config
import Eventline.Writer.Delivery

namespace Eventline

open Text

/-- `record_enabled_at_level`. -/
def recordEnabledAtLevel (record : Record) (minLevel : LogLevel) : Bool :=
  match record.kind with
  | .event kind _ _ =>
    let recordLevel : LogLevel := match kind with
      | .debug => .debug
      | .info => .info
      | .warning => .warning
      | .error => .error
    ¬ recordLevel < minLevel
  | .scopeExit .. => true

theorem recordEnabledAtLevel_debug (record : Record) : recordEnabledAtLevel record .debug = true := by
  unfold recordEnabledAtLevel
  split
  · rename_i kind _ _ _
    cases kind <;> rfl
  · rfl

/-- The message for a call. -/
def WriterCall.msg : WriterCall → Msg
  | .scope s => .scope s
  | .record r s => .record r s

/-- The call on the file that the worker makes for a message, behind
    `FilteredWriter`. -/
def Msg.fileCall (minLevel : LogLevel) : Msg → Option WriterCall
  | .scope s => some (.scope s)
  | .record r s => if recordEnabledAtLevel r minLevel then some (.record r s) else none
  | .runId _ | .flush => none

theorem fileCall_msg (c : WriterCall) : c.msg.fileCall .debug = some c := by
  cases c with
  | scope s => rfl
  | record r s => rw [WriterCall.msg, Msg.fileCall, if_pos (recordEnabledAtLevel_debug r)]

namespace AsyncWriter

/-- The calls on the file that the worker has made. -/
def fileCalls (w : AsyncWriter) (minLevel : LogLevel) : List WriterCall :=
  (w.inner.map Prod.fst).filterMap (Msg.fileCall minLevel)

/-- The last call has returned: a flush, without an error. -/
def Flushed (w : AsyncWriter) : Prop :=
  w.producer = .idle ∧ w.submitted.getLast? = some .flush ∧
    w.returned.getLast? = some (.flush, .ok ())

variable {w : AsyncWriter}

/-- After a flush a writer that blocks has delivered everything. -/
theorem Calm.flushed (h : w.Calm) (hmode : w.mode = .blocking) (hflushed : w.Flushed) :
    w.inner.map Prod.fst = w.submitted := by
  obtain ⟨hidle, hlast, -⟩ := hflushed
  have hsent : w.submitted = w.inner.map Prod.fst ++ w.onTheWay := by
    have hall : w.accepted = w.sent.map Prod.fst := by
      rw [AsyncWriter.accepted, withFate, List.filter_eq_self.2]
      intro p hp
      simpa using h.blocking hmode p hp
    rw [h.booked.ledger.submitted, hidle, ← hall, h.accepted]
    exact List.append_nil _
  have hway : w.onTheWay = [] := by
    by_contra hne
    -- the last message would be a flush on its way
    obtain ⟨m, hm⟩ := Option.ne_none_iff_exists'.1 (mt List.getLast?_eq_none_iff.1 hne)
    have hm' : w.submitted.getLast? = some m := by
      rw [hsent, List.getLast?_append_of_ne_nil _ hne, hm]
    obtain rfl := Option.some.inj (hm'.symm.trans hlast)
    exact (h.flush.idle (by rw [hidle]; rintro ⟨⟩)).2 (List.mem_of_getLast? hm)
  rw [hsent, hway, List.append_nil]

end AsyncWriter

/-- A new plain JSONL file at the level Debug, behind a writer in the mode
    `Blocking`, got the calls; none of its writes failed, and after the last call
    a flush has returned.  The file then has the given bytes. -/
def FlushedTo (serde : SerdeJson) (runId : String) (calls : List WriterCall) (bytes : Bytes) : Prop :=
  ∃ (queueCap : ℕ) (actions : List WriterAction) (w : AsyncWriter) (file : FileWriter),
    Machine.run AsyncWriter.step (.spawn queueCap .blocking true) actions = some w ∧
    (∀ r, .work r ∈ actions → r = .ok) ∧
    w.submitted.filter (fun m => m ≠ .flush) = calls.map WriterCall.msg ∧ w.Flushed ∧
    Machine.run (FileWriter.step serde) (.withStyle none runId)
      ((w.fileCalls .debug).map fun c => ⟨c, .ok⟩) = some file ∧
    bytes = file.file.bytes

theorem FileWriter.withStyle_none (runId : String) :
    FileWriter.withStyle none runId = ⟨.empty, runId⟩ := rfl

/-- Writes that succeed append their lines. -/
theorem run_fileWriter (serde : SerdeJson) (runId : String) (calls : List WriterCall) (f : LogFile) :
    ∃ f', Machine.run (FileWriter.step serde) ⟨f, runId⟩ (calls.map fun c => ⟨c, .ok⟩) =
        some ⟨f', runId⟩ ∧ f'.bytes = f.bytes ++ unlines (calls.map (WriterCall.line serde runId)) := by
  induction calls generalizing f with
  | nil => exact ⟨f, rfl, (List.append_nil _).symm⟩
  | cons c calls ih =>
    obtain ⟨f', hrun, hbytes⟩ := ih (f.write serde runId ⟨c, .ok⟩)
    refine ⟨f', ?_, ?_⟩
    · rw [List.map_cons, Machine.run_cons_eq_some]
      exact ⟨⟨f.write serde runId ⟨c, .ok⟩, runId⟩, rfl, hrun⟩
    · rw [hbytes]
      simp [LogFile.write, LogFile.appendLine, WriteResults.ok, unlines]

section
variable {serde : SerdeJson} {runId : String} {calls : List WriterCall}

/-- **The file holds the lines** of all calls, in their order. -/
theorem FlushedTo.bytes_eq {bytes : Bytes} (h : FlushedTo serde runId calls bytes) :
    bytes = unlines (calls.map (WriterCall.line serde runId)) := by
  obtain ⟨queueCap, actions, w, file, hw, hok, hsubmitted, hflushed, hfile, rfl⟩ := h
  have hpanic : .work .panic ∉ actions := fun h => by cases hok _ h
  have hmode : w.mode = .blocking :=
    Machine.run_invariant (I := fun w => w.mode = .blocking)
      (fun _ _ _ hw hs => (AsyncWriter.step_keeps hs).1.trans hw) hw rfl
  have hinner := (AsyncWriter.run_calm hpanic hw).flushed hmode hflushed
  have hcalls : w.fileCalls .debug = calls := by
    have hskip : w.submitted.filterMap (Msg.fileCall .debug) =
        (w.submitted.filter fun m => m ≠ .flush).filterMap (Msg.fileCall .debug) := by
      rw [List.filterMap_filter]
      refine List.filterMap_congr fun m _ => ?_
      cases m <;> rfl
    have hback : (calls.map WriterCall.msg).filterMap (Msg.fileCall .debug) = calls := by
      rw [List.filterMap_map]
      have hsome : Msg.fileCall .debug ∘ WriterCall.msg = some := funext fileCall_msg
      rw [hsome, List.filterMap_some]
    rw [AsyncWriter.fileCalls, hinner, hskip, hsubmitted, hback]
  obtain ⟨f', hrun, hbytes⟩ := run_fileWriter serde runId
    (w.fileCalls .debug) .empty
  rw [FileWriter.withStyle_none, hrun] at hfile
  obtain rfl := Option.some.inj hfile
  rw [hbytes, hcalls]
  rfl

end

/-- A writer with nothing on its way. -/
def AsyncWriter.resting (submitted : List Msg) (sent : List (Msg × Fate))
    (inner : List (Msg × InnerResult)) (returned : List (Msg × IoResult)) : AsyncWriter :=
  { AsyncWriter.spawn 1 .blocking true with submitted, sent, inner, returned }

/-- The steps that bring a message to the file while nothing is on its way. -/
def handledAtOnce (m : Msg) : List WriterAction := [.call m, .proceed, .receive, .work .ok]

theorem run_handledAtOnce (calls : List WriterCall) (submitted : List Msg)
    (sent : List (Msg × Fate)) (inner : List (Msg × InnerResult)) (returned : List (Msg × IoResult)) :
    ∃ sent' inner' returned', Machine.run AsyncWriter.step (.resting submitted sent inner returned)
        (calls.flatMap fun c => handledAtOnce c.msg) =
      some (.resting (submitted ++ calls.map WriterCall.msg) sent' inner' returned') := by
  induction calls generalizing submitted sent inner returned with
  | nil => exact ⟨sent, inner, returned, by rw [List.map_nil, List.append_nil]; rfl⟩
  | cons c calls ih =>
    obtain ⟨sent', inner', returned', hrun⟩ := ih (submitted ++ [c.msg])
      (sent ++ [(c.msg, Fate.accepted)]) (inner ++ [(c.msg, InnerResult.ok)])
      (returned ++ [(c.msg, Except.ok ())])
    refine ⟨sent', inner', returned', ?_⟩
    rw [List.flatMap_cons, Machine.run_append_eq_some]
    refine ⟨_, ?_, by rw [List.map_cons, List.append_cons]; exact hrun⟩
    cases c <;> rfl

/-- **A sink gets there**: there are steps that write all calls and flush. -/
theorem flushedTo_unlines (serde : SerdeJson) (runId : String) (calls : List WriterCall) :
    FlushedTo serde runId calls (unlines (calls.map (WriterCall.line serde runId))) := by
  obtain ⟨sent, inner, returned, hrun⟩ := run_handledAtOnce calls [] [] [] []
  rw [List.nil_append] at hrun
  have hflush : Machine.run AsyncWriter.step
      (.resting (calls.map WriterCall.msg) sent inner returned) (handledAtOnce .flush ++ [.proceed]) =
      some (.resting (calls.map WriterCall.msg ++ [Msg.flush])
        (sent ++ [(Msg.flush, Fate.accepted)]) (inner ++ [(Msg.flush, InnerResult.ok)])
        (returned ++ [(Msg.flush, Except.ok ())])) := rfl
  have hok : ∀ r, .work r ∈ (calls.flatMap fun c => handledAtOnce c.msg) ++
      (handledAtOnce .flush ++ [.proceed]) → r = InnerResult.ok := by
    intro r hr
    have hr' : (∃ x, x ∈ calls) ∧ r = .ok ∨ r = .ok := by simpa [handledAtOnce] using hr
    exact hr'.elim And.right id
  obtain ⟨f', hfile, -⟩ := run_fileWriter serde runId
    (AsyncWriter.fileCalls (.resting (calls.map WriterCall.msg ++ [Msg.flush])
      (sent ++ [(Msg.flush, Fate.accepted)]) (inner ++ [(Msg.flush, InnerResult.ok)])
      (returned ++ [(Msg.flush, Except.ok ())])) .debug) .empty
  rw [← FileWriter.withStyle_none] at hfile
  have hkeep : (calls.map WriterCall.msg).filter (fun m => m ≠ .flush) = calls.map WriterCall.msg := by
    rw [List.filter_eq_self]
    intro m hm
    obtain ⟨c, -, rfl⟩ := List.mem_map.1 hm
    cases c <;> rfl
  have h : FlushedTo serde runId calls f'.bytes := by
    refine ⟨1, _, _, _, Machine.run_append_eq_some.2 ⟨_, hrun, hflush⟩, hok, ?_,
      ⟨rfl, List.getLast?_concat .., List.getLast?_concat ..⟩, hfile, rfl⟩
    show (calls.map WriterCall.msg ++ [Msg.flush]).filter (fun m => m ≠ Msg.flush) = _
    rw [List.filter_append, hkeep]
    exact List.append_nil _
  rw [← h.bytes_eq]
  exact h

end Eventline
