/-
  What a reader gets of a live run when entries are lost.

  The process may end at any moment, a queue may drop entries, a rotation may
  drop files, and files may be lost, repeated or mixed with others.

  * `live_recovery_truthful`: what is left of the entries written tells the truth
    about the run, whatever else the input holds.
  * `rotated_recovery_truthful`: so do the files of a rotating sink behind a
    queue, whatever was dropped or filtered, at any moment.
  * `losses_counted`: a flushed file lacks as many entries as the writer counted.
-/
import Eventline.Runtime.Survivors
import Eventline.Writer.Recovery

namespace Eventline

open Text Checked

/-! ## What was written -/

section
variable {s : Process} (h : Chronicle s)
include h

/-- The records pushed are one of each id, and exit each scope once, as they are
    read. -/
theorem Chronicle.oneEach (serde : SerdeJson) :
    OneEach (s.runtime.pushed.map (Record.reread serde)) :=
  oneEach_reread serde h.numbered.distinct h.numbered.exitsOnce

/-- What is read is of lives and records of the run. -/
theorem Chronicle.told (serde : SerdeJson) {p : Parts} (hp : p ∈ s.runtime.asRead serde) :
    Told s.runtime.lives (s.runtime.pushed.map (Record.reread serde)) p := by
  obtain ⟨q, hq, rfl⟩ := List.mem_map.1 hp
  refine Told.reread ⟨fun x hx => ?_, fun r hr => ?_⟩ serde
  · obtain ⟨l, hl, hshows, -⟩ := h.handed.backed q x (.inl hq) hx
    exact ⟨l, hl, hshows⟩
  · exact h.handed.records.subset r (List.mem_filterMap.2 ⟨q, hq, hr⟩)

theorem Chronicle.below : ∀ l ∈ s.runtime.lives, ∀ p, l.scope.parent = some p →
    p.n < l.scope.id.n :=
  fun l hl p hp => (h.tracked.parents l hl p hp).1

end

/-! ## Input with rendered lines -/

/-- Lines that are all entries of the run. -/
theorem ofRun_entries {serde : SerdeJson} {runId : String} {lines : List InputLine}
    {ps : List Parts} (h : lines.map (fun line => classify serde line.raw) =
      ps.map fun parts => .entry ⟨some runId, parts⟩) :
    (lines.filterMap (InputLine.ofRun serde runId)).map (·.parts) = ps ∧
      ∀ line ∈ lines, line.ofRun serde runId ≠ none := by
  induction lines generalizing ps with
  | nil =>
    cases ps with
    | nil => exact ⟨rfl, List.forall_mem_nil _⟩
    | cons parts ps => cases h
  | cons line lines ih =>
    cases ps with
    | nil => cases h
    | cons parts ps =>
      obtain ⟨hline, hlines⟩ := List.cons.inj h
      obtain ⟨hparts, hall⟩ := ih hlines
      have hof : line.ofRun serde runId = some ⟨line.source, line.number, parts⟩ :=
        InputLine.ofRun_eq_some.2 ⟨hline, rfl⟩
      constructor
      · simp [hof, hparts]
      · rw [List.forall_mem_cons]
        exact ⟨by simp [hof], hall⟩

/-- The lines of a file that holds entries of one run. -/
theorem linesOf_entries {serde : SerdeJson} {runId : String} {f : InputFile} {ps : List Parts}
    (h : (rawLines f.bytes).map (classify serde) = ps.map fun parts => .entry ⟨some runId, parts⟩) :
    (linesOf serde runId [f]).map (·.parts) = ps ∧
      ∀ line ∈ inputLines [f], line.ofRun serde runId ≠ none := by
  refine ofRun_entries ?_
  rw [← h]
  have hmap := congrArg (List.map fun x => classify serde x.2) (map_inputLines [f])
  simpa [Function.comp_def] using hmap

/-- What is loaded of a run from input that holds some of its entries. -/
structure SavedJournal.Tells (saved : SavedJournal) (serde : SerdeJson) (runId : String)
    (files : List InputFile) (r : Runtime) (run : SavedRun) : Prop where
  once : saved.runs.filter (fun run => run.runId = some runId) = [run]
  recovered : Recovered r.lives (linesOf serde runId files) run
  pushed : ∀ x ∈ run.records, x ∈ r.pushed.map (Record.reread serde)
  quiet : saved.QuietAbout serde {runId} files

/-- **What is left of the entries** tells the truth about the run. -/
theorem Chronicle.tells {s : Process} (h : Chronicle s) {serde : SerdeJson} (hs : serde.Lawful)
    {runId : String} {files : List InputFile}
    (hwritten : ∀ line ∈ linesOf serde runId files, line.parts ∈ s.runtime.asRead serde)
    (hsome : linesOf serde runId files ≠ []) :
    ∃ saved run, load serde files = .ok saved ∧ saved.Tells serde runId files s.runtime run := by
  have ht : AllTold s.runtime.lives (s.runtime.pushed.map (Record.reread serde))
      (linesOf serde runId files) := fun line hline => h.told serde (hwritten line hline)
  obtain ⟨saved, run, hload, hone, hrecovered, hquiet⟩ :=
    load_told h.tracked.ids h.below hs (h.oneEach serde) ht hsome
  exact ⟨saved, run, hload, hone, hrecovered, fun x hx => ht.recordsIn (hrecovered.mem_records.1 hx),
    hquiet⟩

/-! ## Live runs -/

/-- **Recovery is truthful.**  For every interleaving of live steps and every
    moment of it, and for any input whose entries of the run are among those
    written, in any order and number and among anything else: the load has one
    such run, with the records that survived, each once and with its doubles as
    they are read, and the scopes that they show or name, and reports no
    contradiction at any of its lines. -/
theorem live_recovery_truthful {serde : SerdeJson} (hs : serde.Lawful) (process : UInt64 × UInt64)
    (next : UInt64) (max : ℕ) (actions : List Action) (s : Process) (files : List InputFile)
    (hrun : Machine.run Process.step (.new (newRunId process next) true max) actions = some s)
    (hlive : Machine.Meets Process.step Process.Live (.new (newRunId process next) true max) actions)
    (hscopes : s.runtime.lives.length ≤ 2 ^ 64) (hrecords : s.runtime.recordIds ≤ 2 ^ 64)
    (hwritten : ∀ line ∈ linesOf serde (newRunId process next) files,
      line.parts ∈ s.runtime.asRead serde)
    (hsome : linesOf serde (newRunId process next) files ≠ []) :
    ∃ saved run, load serde files = .ok saved ∧
      saved.Tells serde (newRunId process next) files s.runtime run :=
  (Chronicle.of_run hrun hlive hscopes hrecords).tells hs hwritten hsome

/-- A file that has one of the entries of a run twice, and no other. -/
theorem tickBesideExit_file : ∃ s tick file,
    Machine.run Process.step (.new (newRunId (1, 2) 0) true 500) tickBesideExit = some s ∧
    s.runtime.lives.length ≤ 2 ^ 64 ∧ s.runtime.recordIds ≤ 2 ^ 64 ∧
    (linesOf compactSerde (newRunId (1, 2) 0) [file]).map (·.parts) =
      [⟨some tick, none⟩, ⟨some tick, none⟩] ∧
    ∀ line ∈ linesOf compactSerde (newRunId (1, 2) 0) [file],
      line.parts ∈ s.runtime.asRead compactSerde := by
  obtain ⟨s, tick, entered, exit, exited, hs, -, hlives, hids, -, hcalls⟩ := tickBesideExit_run
  have hlives' : s.runtime.lives.length ≤ 2 ^ 64 := by rw [hlives]; decide
  have hids' : s.runtime.recordIds ≤ 2 ^ 64 := by rw [hids]; decide
  have h := Chronicle.of_run hs tickBesideExit_live hlives' hids'
  have hmem : WriterCall.record tick none ∈ s.runtime.writer.calls := by simp [hcalls]
  have hrendered := h.rendered_call compactSerde (newRunId (1, 2) 0) hmem
  have hexact : (WriterCall.record tick none).parts.reread compactSerde = ⟨some tick, none⟩ :=
    Parts.reread_of_exact compactSerde_exact _
  obtain ⟨file, hfile⟩ : ∃ file : InputFile, (rawLines file.bytes).map (classify compactSerde) =
      [⟨some tick, none⟩, ⟨some tick, none⟩].map
        fun parts => .entry ⟨some (newRunId (1, 2) 0), parts⟩ :=
    ⟨⟨none, _⟩, classify_rendered compactSerde_lawful (newRunId_ne (1, 2) 0)
      (.cons (hexact ▸ hrendered) (.cons (hexact ▸ hrendered) .nil)) (.inl rfl)⟩
  obtain ⟨hparts, -⟩ := linesOf_entries hfile
  refine ⟨s, tick, file, hs, hlives', hids', hparts, ?_⟩
  intro line hline
  have hp : line.parts ∈ [(⟨some tick, none⟩ : Parts), ⟨some tick, none⟩] :=
    hparts ▸ List.mem_map_of_mem hline
  have hp : line.parts = ⟨some tick, none⟩ := by simpa using hp
  rw [hp, ← hexact]
  exact List.mem_map_of_mem (List.mem_map_of_mem hmem)

theorem live_recovery_truthful_twice : ∃ s file saved run,
    Machine.run Process.step (.new (newRunId (1, 2) 0) true 500) tickBesideExit = some s ∧
    load compactSerde [file] = .ok saved ∧
    saved.runs.filter (fun run => run.runId = some (newRunId (1, 2) 0)) = [run] ∧
    run.records.length = 1 ∧
    ∀ r ∈ run.records, r ∈ s.runtime.pushed.map (Record.reread compactSerde) := by
  obtain ⟨s, tick, file, hs, hlives, hids, hparts, hwritten⟩ := tickBesideExit_file
  obtain ⟨saved, run, hload, htells⟩ := live_recovery_truthful
    compactSerde_lawful (1, 2) 0 500 _ s [file] hs tickBesideExit_live hlives hids hwritten
    (fun hnil => by rw [hnil] at hparts; cases hparts)
  refine ⟨s, file, saved, run, hs, hload, htells.once, ?_, htells.pushed⟩
  have hrecords : recordsIn (linesOf compactSerde (newRunId (1, 2) 0) [file]) = [tick, tick] := by
    have hmap := congrArg (List.filterMap Parts.record) hparts
    rw [List.filterMap_map] at hmap
    exact hmap
  rw [htells.recovered.records, hrecords]
  simp [List.eraseDups_cons]

/-! ## Sinks -/

/-- The lines of a file are ended, and those of the run are of the calls. -/
structure Carries (serde : SerdeJson) (runId : String) (calls : List WriterCall) (bytes : Bytes) :
    Prop where
  ended : bytes = [] ∨ bytes.getLast? = some newline
  lines : ∀ raw ∈ rawLines bytes, belongs serde runId raw = true →
    ∃ c ∈ calls, raw = c.line serde runId ++ [newline]

theorem carries_nil (serde : SerdeJson) (runId : String) (calls : List WriterCall) :
    Carries serde runId calls [] := ⟨.inl rfl, by simp⟩

/-- All files of a directory carry only calls. -/
def Directory.Carries (serde : SerdeJson) (runId : String) (calls : List WriterCall)
    (d : Directory) : Prop :=
  ∀ i f, d i = some f → Eventline.Carries serde runId calls f.bytes

section
variable {serde : SerdeJson} {runId : String} {calls : List WriterCall}

theorem Carries.append {bytes : Bytes} (h : Carries serde runId calls bytes) {c : WriterCall}
    (hc : c ∈ calls) (hline : newline ∉ c.line serde runId) :
    Carries serde runId calls (bytes ++ c.line serde runId ++ [newline]) where
  ended := .inr (by simp)
  lines raw hraw hbelongs := by
    rw [List.append_assoc, rawLines_append h.ended, rawLines_line hline, rawLines_nil] at hraw
    rcases List.mem_append.1 hraw with hraw | hraw
    · exact h.lines raw hraw hbelongs
    · exact ⟨c, hc, List.mem_singleton.1 hraw⟩

theorem Directory.Carries.within {d d' : Directory} (h : d.Carries serde runId calls)
    (hw : d'.Within d) : d'.Carries serde runId calls := by
  intro i f hf
  rcases hw i f hf with rfl | ⟨j, hj⟩
  · exact carries_nil serde runId calls
  · exact h j f hj

/-- The calls on a file: each writes its whole line or nothing. -/
def WriteCall.Whole (c : WriteCall) : Prop := c.results = .ok ∨ c.results.line = some 0

/-- A call adds its line to the file, or nothing. -/
theorem LogFile.write_carries {f : LogFile} (h : Carries serde runId calls f.bytes) {c : WriteCall}
    (hc : c.call ∈ calls) (hwhole : c.Whole) (hline : newline ∉ c.call.line serde runId) :
    Carries serde runId calls (f.write serde runId c).bytes := by
  rcases hwhole with hok | hnothing
  · rw [LogFile.write, hok]
    exact h.append hc hline
  · simpa [LogFile.write, appendLine, hnothing] using h

namespace RotatingFileWriter

/-- The invariant of a rotating sink. -/
structure CarriesOnly (serde : SerdeJson) (runId : String) (calls : List WriterCall)
    (w : RotatingFileWriter) : Prop where
  run : w.runId = runId
  files : w.files.Carries serde runId calls

theorem CarriesOnly.ready {w : RotatingFileWriter} (h : w.CarriesOnly serde runId calls)
    (line : Bytes) : (w.ready line).CarriesOnly serde runId calls := by
  unfold RotatingFileWriter.ready
  split_ifs
  · refine ⟨h.run, h.files.within ?_⟩
    exact (Directory.create_within _).trans (Directory.rotate_within _ _)
  · exact h

theorem CarriesOnly.step {w w' : RotatingFileWriter} (h : w.CarriesOnly serde runId calls)
    {c : WriteCall} (hc : c.call ∈ calls) (hwhole : c.Whole)
    (hline : newline ∉ c.call.line serde runId) (hstep : w.step serde c = some w') :
    w'.CarriesOnly serde runId calls := by
  unfold RotatingFileWriter.step at hstep
  split_ifs at hstep
  obtain rfl := Option.some.inj hstep
  have hready := h.ready (c.call.line serde w.runId)
  refine ⟨hready.run, ?_⟩
  intro i f hf
  simp only [writeLine] at hf
  by_cases hi : i = 0
  · subst hi
    rw [Function.update_self, hready.run] at hf
    rw [← Option.some.inj hf]
    refine LogFile.write_carries ?_ hc hwhole hline
    unfold Directory.active
    cases hd : (w.ready (c.call.line serde w.runId)).files 0 with
    | none => exact carries_nil serde runId calls
    | some g => exact hready.files 0 g hd
  · rw [Function.update_of_ne hi] at hf
    exact hready.files i f hf

theorem withStyle_carriesOnly {files : Directory} (h : files.Carries serde runId calls)
    (policy : LogPolicy) : (withStyle files policy runId).CarriesOnly serde runId calls := by
  unfold withStyle
  split
  · exact ⟨rfl, h.within files.create_within⟩
  · split_ifs
    · exact ⟨rfl, h.within ((Directory.create_within _).trans (Directory.rotate_within _ _))⟩
    · exact ⟨rfl, h⟩

/-- **The files of a sink** hold nothing of the run but calls. -/
theorem run_carriesOnly {files : Directory} (h : files.Carries serde runId calls)
    {policy : LogPolicy} {writes : List WriteCall} {w : RotatingFileWriter}
    (hwrites : ∀ c ∈ writes, c.call ∈ calls ∧ c.Whole)
    (hlines : ∀ c ∈ calls, newline ∉ c.line serde runId)
    (hrun : Machine.run (RotatingFileWriter.step serde) (withStyle files policy runId) writes =
      some w) : w.CarriesOnly serde runId calls := by
  have hmeets : Machine.Meets (RotatingFileWriter.step serde)
      (fun _ c => c.call ∈ calls ∧ c.Whole) (withStyle files policy runId) writes :=
    Machine.meets_of_forall fun c hc _ => hwrites c hc
  refine Machine.run_invariant_of_meets (I := CarriesOnly serde runId calls) ?_ hrun hmeets
    (withStyle_carriesOnly h policy)
  intro w c w' hw hc hs
  exact hw.step hc.1 hc.2 (hlines c.call hc.1) hs

/-- What an input file of a sink holds of the run. -/
theorem CarriesOnly.linesOf {w : RotatingFileWriter} (h : w.CarriesOnly serde runId calls)
    (hrendered : ∀ c ∈ calls, Rendered serde runId (c.line serde runId) (c.parts.reread serde))
    (hs : serde.Lawful) (hne : runId ≠ "") {path : String} {f : InputFile}
    (hf : f ∈ w.inputFiles path) {line : InputLine} (hline : line ∈ f.lines) {rl : RunLine}
    (hof : line.ofRun serde runId = some rl) : ∃ c ∈ calls, rl.parts = c.parts.reread serde := by
  obtain ⟨hc, -⟩ := InputLine.ofRun_eq_some.1 hof
  obtain ⟨i, -, hi⟩ := List.mem_filterMap.1 hf
  obtain ⟨g, hg, rfl⟩ := Option.map_eq_some_iff.1 hi
  obtain ⟨⟨raw, n⟩, hraw, rfl⟩ := List.mem_map.1 hline
  have hbelongs : belongs serde runId raw = true := by
    rw [belongs, hc]
    exact decide_eq_true rfl
  obtain ⟨c, hcall, rfl⟩ := (h.files i g hg).lines raw (List.fst_mem_of_mem_zipIdx hraw) hbelongs
  refine ⟨c, hcall, ?_⟩
  have hread := (hrendered c hcall).classify_line hs hne (List.forall_mem_nil _)
    (show ∀ b ∈ [newline], isAsciiWhitespace b = true by simp [newline]; rfl)
  rw [List.nil_append] at hread
  have hentry := LineClass.entry.inj (hc.symm.trans hread)
  exact congrArg DecodedLine.parts hentry

end RotatingFileWriter

end

namespace AsyncWriter

/-- The worker only makes calls that were submitted. -/
theorem Booked.fileCalls {w : AsyncWriter} (h : w.Booked) {minLevel : LogLevel} {c : WriterCall}
    (hc : c ∈ w.fileCalls minLevel) : c.msg ∈ w.submitted := by
  obtain ⟨m, hm, hcall⟩ := List.mem_filterMap.1 hc
  have hmsg : m = c.msg := by
    cases m with
    | scope x =>
      obtain rfl := Option.some.inj hcall
      rfl
    | record r x =>
      obtain rfl := Option.some.inj (Option.ite_none_right_eq_some.1 hcall).2
      rfl
    | runId r => cases hcall
    | flush => cases hcall
  have haccepted : m ∈ w.accepted := by
    rw [h.ledger.accepted]
    simp [hm]
  obtain ⟨p, hp, rfl⟩ := List.mem_map.1 haccepted
  rw [← hmsg, h.ledger.submitted]
  exact List.mem_append_left _ (List.mem_map_of_mem (List.mem_of_mem_filter hp))

end AsyncWriter

/-- **So are the files of a rotating sink.**  The sink is behind a queue of any
    mode and size and a filter of any level, and has any rotation policy; a write
    of the file writes its line or nothing.  At every moment, what its files hold
    of a live run tells the truth about the run, whichever of them are loaded, in
    any order and number, and beside any files without lines of the run. -/
theorem rotated_recovery_truthful {serde : SerdeJson} (hs : serde.Lawful)
    (process : UInt64 × UInt64) (next : UInt64) (max : ℕ) (actions : List Action) (s : Process)
    (hrun : Machine.run Process.step (.new (newRunId process next) true max) actions = some s)
    (hlive : Machine.Meets Process.step Process.Live (.new (newRunId process next) true max) actions)
    (hscopes : s.runtime.lives.length ≤ 2 ^ 64) (hrecords : s.runtime.recordIds ≤ 2 ^ 64)
    {queueCap : ℕ} {mode : WriteMode} {steps : List WriterAction} {w : AsyncWriter}
    (hqueue : Machine.run AsyncWriter.step (.spawn queueCap mode true) steps = some w)
    (hcalls : ∀ c : WriterCall, c.msg ∈ w.submitted → c ∈ s.runtime.writer.calls)
    {minLevel : LogLevel} (writes : List WriteCall)
    (hwrites : writes.map (·.call) = w.fileCalls minLevel) (hwhole : ∀ c ∈ writes, c.Whole)
    {directory : Directory} {policy : LogPolicy}
    (hold : directory.Carries serde (newRunId process next) [])
    {sink : RotatingFileWriter} (hfile : Machine.run (RotatingFileWriter.step serde)
      (.withStyle directory policy (newRunId process next)) writes = some sink) (path : String)
    (files : List InputFile)
    (hfiles : ∀ f ∈ files, f ∈ sink.inputFiles path ∨ linesOf serde (newRunId process next) [f] = [])
    (hsome : linesOf serde (newRunId process next) files ≠ []) :
    ∃ saved run, load serde files = .ok saved ∧
      saved.Tells serde (newRunId process next) files s.runtime run := by
  have h := Chronicle.of_run hrun hlive hscopes hrecords
  have hrendered := fun c hc => h.rendered_call serde (newRunId process next) (c := c) hc
  have hcarries : directory.Carries serde (newRunId process next) s.runtime.writer.calls := by
    intro i f hf
    refine ⟨(hold i f hf).ended, fun raw hraw hbelongs => ?_⟩
    obtain ⟨c, hc, -⟩ := (hold i f hf).lines raw hraw hbelongs
    cases hc
  have hmem : ∀ c ∈ writes, c.call ∈ s.runtime.writer.calls ∧ c.Whole := by
    intro c hc
    have hcall : c.call ∈ w.fileCalls minLevel := hwrites ▸ List.mem_map_of_mem hc
    exact ⟨hcalls c.call ((AsyncWriter.run_booked hqueue).fileCalls hcall), hwhole c hc⟩
  have hsink := RotatingFileWriter.run_carriesOnly hcarries hmem
    (fun c hc => (hrendered c hc).newline_notMem hs) hfile
  refine h.tells hs (fun rl hrl => ?_) hsome
  obtain ⟨line, hline, hof⟩ := List.mem_filterMap.1 hrl
  obtain ⟨f, hf, hline⟩ := List.mem_flatMap.1 hline
  rcases hfiles f hf with hf | hnone
  · obtain ⟨c, hc, hparts⟩ := hsink.linesOf hrendered hs (newRunId_ne process next) hf hline hof
    rw [hparts]
    exact List.mem_map_of_mem (List.mem_map_of_mem hc)
  · have hin : rl ∈ linesOf serde (newRunId process next) [f] := by
      rw [linesOf, inputLines, List.flatMap_singleton]
      exact List.mem_filterMap.2 ⟨line, hline, hof⟩
    rw [hnone] at hin
    cases hin

/-- A sink with room for one line rotates at the second. -/
theorem run_rotatesOnce (serde : SerdeJson) (runId : String) (c c' : WriterCall) : ∃ sink,
    Machine.run (RotatingFileWriter.step serde) (.withStyle (fun _ => none) ⟨1, 1⟩ runId)
      [⟨c, .ok⟩, ⟨c', .ok⟩] = some sink ∧
    RotatingFileWriter.inputFiles sink "run.jsonl" =
      [⟨some "run.jsonl.1", c.line serde runId ++ [newline]⟩,
        ⟨some "run.jsonl", c'.line serde runId ++ [newline]⟩] := by
  obtain ⟨w, hw⟩ : ∃ w : RotatingFileWriter, w =
      (RotatingFileWriter.withStyle (fun _ => none) ⟨1, 1⟩ runId).writeLine serde ⟨c, .ok⟩ := ⟨_, rfl⟩
  have hfull : w.full (c'.line serde runId) = true := by
    have hlong : 1 < RotatingFileWriter.saturatingAdd (0 + ((c.line serde runId).length + 1))
        ((c'.line serde runId).length + 1) := by
      unfold RotatingFileWriter.saturatingAdd
      omega
    rw [hw]
    simpa [RotatingFileWriter.full, RotatingFileWriter.writeLine, RotatingFileWriter.ready,
      RotatingFileWriter.withStyle, WriteResults.ok, WriteResults.isOk] using hlong
  refine ⟨w.writeLine serde ⟨c', .ok⟩, by rw [hw]; rfl, ?_⟩
  have hready : w.ready (c'.line serde w.runId) = w.rotateAndReopen := by
    rw [show w.runId = runId by rw [hw]; rfl]
    exact if_pos hfull
  rw [RotatingFileWriter.writeLine]
  simp only [hready]
  rw [hw]
  rfl

/-- A queue that has passed on the scope and the record. -/
theorem run_twoCalls (entered : Scope) (tick : Record) : ∃ w,
    Machine.run AsyncWriter.step (.spawn 1 .bestEffort true)
      [.call (.scope entered), .receive, .work .ok, .call (.record tick none), .receive,
        .work .ok] = some w ∧
    w.submitted = [.scope entered, .record tick none] ∧
    w.fileCalls .debug = [.scope entered, .record tick none] := by
  obtain ⟨w, hw, hsubmitted, hinner⟩ : ∃ w, Machine.run AsyncWriter.step (.spawn 1 .bestEffort true)
      [.call (.scope entered), .receive, .work .ok, .call (.record tick none), .receive,
        .work .ok] = some w ∧
      w.submitted = [.scope entered, .record tick none] ∧
      w.inner.map Prod.fst = [.scope entered, .record tick none] := ⟨_, rfl, rfl, rfl⟩
  refine ⟨w, hw, hsubmitted, ?_⟩
  rw [AsyncWriter.fileCalls, hinner]
  show ([WriterCall.scope entered, .record tick none].map WriterCall.msg).filterMap
    (Msg.fileCall .debug) = _
  rw [List.filterMap_map, show Msg.fileCall .debug ∘ WriterCall.msg = some from funext fileCall_msg,
    List.filterMap_some]

/-- A sink that has got the scope and the record, and has rotated between them:
    both files are loaded twice, in both orders. -/
theorem rotated_recovery_truthful_cut : ∃ s sink saved run,
    Machine.run Process.step (.new (newRunId (1, 2) 0) true 500) tickBesideExit = some s ∧
    (RotatingFileWriter.inputFiles sink "run.jsonl").length = 2 ∧
    load compactSerde ((RotatingFileWriter.inputFiles sink "run.jsonl").reverse ++
      RotatingFileWriter.inputFiles sink "run.jsonl") = .ok saved ∧
    saved.runs.filter (fun run => run.runId = some (newRunId (1, 2) 0)) = [run] ∧
    run.records.length = 1 ∧
    ∀ r ∈ run.records, r ∈ s.runtime.pushed.map (Record.reread compactSerde) := by
  obtain ⟨s, tick, entered, exit, exited, hs, -, hlives, hids, -, hcalls⟩ := tickBesideExit_run
  have h := Chronicle.of_run hs tickBesideExit_live (by rw [hlives]; decide) (by rw [hids]; decide)
  have hscope : WriterCall.scope entered ∈ s.runtime.writer.calls := by simp [hcalls]
  have hrecord : WriterCall.record tick none ∈ s.runtime.writer.calls := by simp [hcalls]
  obtain ⟨w, hw, hsubmitted, hfileCalls⟩ := run_twoCalls entered tick
  obtain ⟨sink, hsink, hfiles⟩ := run_rotatesOnce compactSerde (newRunId (1, 2) 0)
    (.scope entered) (.record tick none)
  -- what a file with one line has
  have hone : ∀ (c : WriterCall) (source : Option String), c ∈ s.runtime.writer.calls →
      recordsIn (linesOf compactSerde (newRunId (1, 2) 0)
        [⟨source, c.line compactSerde (newRunId (1, 2) 0) ++ [newline]⟩]) =
          [c.parts].filterMap (·.record) := by
    intro c source hc
    have hrendered := h.rendered_call compactSerde (newRunId (1, 2) 0) hc
    have hclass := classify_rendered compactSerde_lawful (newRunId_ne (1, 2) 0)
      (.cons hrendered .nil) (.inl rfl)
    rw [unlines, List.flatMap_singleton, Parts.reread_of_exact compactSerde_exact] at hclass
    rw [← (linesOf_entries (f := ⟨source, _⟩) hclass).1, List.filterMap_map]
    rfl
  have heach : ∀ files, recordsIn (linesOf compactSerde (newRunId (1, 2) 0) files) =
      files.flatMap fun f => recordsIn (linesOf compactSerde (newRunId (1, 2) 0) [f]) := by
    intro files
    simp [recordsIn, linesOf, inputLines, List.filterMap_flatMap]
  have hrecords : recordsIn (linesOf compactSerde (newRunId (1, 2) 0)
      ((RotatingFileWriter.inputFiles sink "run.jsonl").reverse ++
        RotatingFileWriter.inputFiles sink "run.jsonl")) = [tick, tick] := by
    rw [heach, hfiles]
    simp only [List.reverse_cons, List.reverse_nil, List.nil_append, List.flatMap_append,
      List.flatMap_cons, List.flatMap_nil, hone _ _ hscope, hone _ _ hrecord]
    rfl
  obtain ⟨saved, run, hload, htells⟩ := rotated_recovery_truthful
    compactSerde_lawful (1, 2) 0 500 _ s hs tickBesideExit_live (by rw [hlives]; decide)
    (by rw [hids]; decide) hw
    (fun c hc => by
      rw [hsubmitted] at hc
      cases c <;> simp [WriterCall.msg] at hc
      · exact hc ▸ hscope
      · exact hc.1 ▸ hc.2 ▸ hrecord)
    [⟨.scope entered, .ok⟩, ⟨.record tick none, .ok⟩] hfileCalls.symm
    (fun c hc => .inl (by
      simp only [List.mem_cons, List.not_mem_nil, or_false] at hc
      rcases hc with rfl | rfl <;> rfl))
    (fun i f hf => by cases hf) hsink "run.jsonl"
    ((RotatingFileWriter.inputFiles sink "run.jsonl").reverse ++
      RotatingFileWriter.inputFiles sink "run.jsonl")
    (fun f hf => .inl (by simpa using hf))
    (fun hnil => by rw [hnil] at hrecords; cases hrecords)
  refine ⟨s, sink, saved, run, hs, by rw [hfiles]; rfl, hload, htells.once, ?_, htells.pushed⟩
  rw [htells.recovered.records, hrecords]
  simp [List.eraseDups_cons]

/-! ## What is missing from a flushed file -/

namespace AsyncWriter

/-- After a flush the worker has made all calls that the queue took. -/
theorem Calm.drained {w : AsyncWriter} (h : w.Calm) (hflushed : w.Flushed) :
    w.inner.map Prod.fst = w.accepted ∧ w.submitted = w.sent.map Prod.fst := by
  obtain ⟨hidle, hlast, -⟩ := hflushed
  have hsent : w.submitted = w.sent.map Prod.fst := by
    rw [h.booked.ledger.submitted, hidle]
    exact List.append_nil _
  refine ⟨?_, hsent⟩
  -- the flush is the last message that the queue took
  have haccepted : w.accepted.getLast? = some .flush := by
    rw [hsent, List.getLast?_map, Option.map_eq_some_iff] at hlast
    obtain ⟨⟨m, f⟩, hp, rfl⟩ := hlast
    obtain ⟨init, hinit⟩ := List.getLast?_eq_some_iff.1 hp
    have hmem : (Msg.flush, f) ∈ w.sent := by simp [hinit]
    have hf : f = .accepted := by
      cases f with
      | accepted => rfl
      | dropped => cases h.booked.ledger.writes _ hmem rfl
      | refused => exact absurd rfl (h.fates _ hmem)
    subst hf
    simp [AsyncWriter.accepted, withFate, hinit]
  have hway : w.onTheWay = [] := by
    by_contra hne
    rw [h.accepted, List.getLast?_append_of_ne_nil _ hne] at haccepted
    exact (h.flush.idle (by rw [hidle]; rintro ⟨⟩)).2 (List.mem_of_getLast? haccepted)
  rw [h.accepted, hway, List.append_nil]

end AsyncWriter

/-- A new plain JSONL file at the level Debug, behind a writer in the mode, got
    the calls; none of its writes failed, and after the last call a flush has
    returned.  The writer then has counted `dropped` records, and the file has
    the given bytes. -/
def DrainedTo (serde : SerdeJson) (runId : String) (mode : WriteMode) (calls : List WriterCall)
    (dropped : ℕ) (bytes : Bytes) : Prop :=
  ∃ (queueCap : ℕ) (actions : List WriterAction) (w : AsyncWriter) (file : FileWriter),
    Machine.run AsyncWriter.step (.spawn queueCap mode true) actions = some w ∧
    (∀ r, .work r ∈ actions → r = .ok) ∧
    w.submitted.filter (fun m => m ≠ .flush) = calls.map WriterCall.msg ∧ w.Flushed ∧
    Machine.run (FileWriter.step serde) (.withStyle none runId)
      ((w.fileCalls .debug).map fun c => ⟨c, .ok⟩) = some file ∧
    w.state.dropped = dropped ∧ bytes = file.file.bytes

/-- The calls on the file for messages that are calls and flushes. -/
theorem filterMap_fileCall {ms : List Msg} {calls : List WriterCall}
    (h : ms.filter (fun m => m ≠ .flush) = calls.map WriterCall.msg) :
    ms.filterMap (Msg.fileCall .debug) = calls := by
  have hskip : ms.filterMap (Msg.fileCall .debug) =
      (ms.filter fun m => m ≠ .flush).filterMap (Msg.fileCall .debug) := by
    rw [List.filterMap_filter]
    refine List.filterMap_congr fun m _ => ?_
    cases m <;> rfl
  have hsome : Msg.fileCall .debug ∘ WriterCall.msg = some := funext fileCall_msg
  rw [hskip, h, List.filterMap_map, hsome, List.filterMap_some]

/-- **The file lacks what was counted**: it holds the lines of the other calls,
    in their order. -/
theorem DrainedTo.bytes_eq {serde : SerdeJson} {runId : String} {mode : WriteMode}
    {calls : List WriterCall} {dropped : ℕ} {bytes : Bytes}
    (h : DrainedTo serde runId mode calls dropped bytes) :
    ∃ kept : List WriterCall, kept.Sublist calls ∧ kept.length + dropped = calls.length ∧
      bytes = unlines (kept.map (WriterCall.line serde runId)) := by
  obtain ⟨queueCap, actions, w, file, hw, hok, hsubmitted, hflushed, hfile, rfl, rfl⟩ := h
  have hcalm := AsyncWriter.run_calm (fun h => by cases hok _ h) hw
  obtain ⟨hinner, hsent⟩ := hcalm.drained hflushed
  have hcalls := filterMap_fileCall hsubmitted
  have hkept : w.fileCalls .debug = w.accepted.filterMap (Msg.fileCall .debug) := by
    rw [AsyncWriter.fileCalls, hinner]
  refine ⟨w.fileCalls .debug, ?_, ?_, ?_⟩
  · rw [hkept, ← hcalls, hsent]
    exact (List.filter_sublist.map _).filterMap _
  · have hdropped : (w.droppedMsgs.filterMap (Msg.fileCall .debug)).length =
        w.droppedMsgs.length := by
      rw [List.length_filterMap_eq_countP, List.countP_eq_length]
      intro m hm
      obtain ⟨p, hp, rfl⟩ := List.mem_map.1 hm
      obtain ⟨hp, hfate⟩ := List.mem_filter.1 hp
      have hwrite := hcalm.booked.ledger.writes p hp (by simpa using hfate)
      obtain ⟨m, f⟩ := p
      cases m with
      | scope x => rfl
      | record r x => simp [Msg.fileCall, recordEnabledAtLevel_debug]
      | runId r => cases hwrite
      | flush => cases hwrite
    have hperm := (hcalm.sent_perm.filterMap (Msg.fileCall .debug)).length_eq
    rw [← hsent, hcalls, List.filterMap_append, List.length_append, ← hkept, hdropped] at hperm
    rw [hperm, hcalm.booked.ledger.dropped]
  · obtain ⟨f', hrun, hbytes⟩ := run_fileWriter serde runId (w.fileCalls .debug) .empty
    rw [FileWriter.withStyle_none, hrun] at hfile
    obtain rfl := Option.some.inj hfile
    rw [hbytes]
    rfl

/-- **Losses are counted.**  Once all calls of a live run have returned and its
    sink, in either mode, is flushed: the load of its file has the run alone, with
    as many entries as there were calls, less those that the writer has counted,
    and reports nothing but scopes without metadata; and with none counted it has
    the whole history, the doubles being as they are read. -/
theorem losses_counted {serde : SerdeJson} (hs : serde.Lawful) (process : UInt64 × UInt64)
    (next : UInt64) (max : ℕ) (actions : List Action) (s : Process) (source : Option String)
    (mode : WriteMode) (dropped : ℕ) (bytes : Bytes)
    (hrun : Machine.run Process.step (.new (newRunId process next) true max) actions = some s)
    (hlive : Machine.Meets Process.step Process.Live (.new (newRunId process next) true max) actions)
    (hreturned : ∀ t, (s.threads t).pc = .user)
    (hdrained : DrainedTo serde (newRunId process next) mode s.runtime.writer.calls dropped bytes)
    (hscopes : s.runtime.lives.length ≤ 2 ^ 64) (hrecords : s.runtime.recordIds ≤ 2 ^ 64) :
    (linesOf serde (newRunId process next) [⟨source, bytes⟩]).length + dropped =
        s.runtime.writer.calls.length ∧
      (dropped < s.runtime.writer.calls.length → ∃ run, load serde [⟨source, bytes⟩] =
          .ok ⟨[run], run.missingScopeMetadata.map (RunBuilder.missingIssue source)⟩ ∧
        Recovered s.runtime.lives (linesOf serde (newRunId process next) [⟨source, bytes⟩]) run ∧
        ∀ r ∈ run.records, r ∈ s.runtime.pushed.map (Record.reread serde)) ∧
      (dropped = 0 → ∃ saved, load serde [⟨source, bytes⟩] = .ok saved ∧
        saved.Restores (newRunId process next) (s.runtime.pushed.map (Record.reread serde))
          s.runtime) := by
  have h := Chronicle.of_run hrun hlive hscopes hrecords
  obtain ⟨kept, hsub, hlength, hbytes⟩ := hdrained.bytes_eq
  have hrendered : List.Forall₂ (Rendered serde (newRunId process next))
      (kept.map (WriterCall.line serde (newRunId process next)))
      (kept.map fun c => c.parts.reread serde) := by
    rw [List.forall₂_map_left_iff, List.forall₂_map_right_iff]
    exact List.forall₂_same.2 fun c hc => h.rendered_call serde _ (hsub.subset hc)
  have hclass := classify_rendered hs (newRunId_ne process next) hrendered (.inl hbytes)
  obtain ⟨hparts, hall⟩ := linesOf_entries (f := ⟨source, bytes⟩) hclass
  have hlines : (linesOf serde (newRunId process next) [⟨source, bytes⟩]).length = kept.length := by
    have hmap := congrArg List.length hparts
    simpa using hmap
  have ht : AllTold s.runtime.lives (s.runtime.pushed.map (Record.reread serde))
      (linesOf serde (newRunId process next) [⟨source, bytes⟩]) := by
    intro line hline
    refine h.told serde ?_
    have hmem : line.parts ∈ kept.map fun c => c.parts.reread serde :=
      hparts ▸ List.mem_map_of_mem hline
    obtain ⟨c, hc, hcp⟩ := List.mem_map.1 hmem
    rw [← hcp]
    exact List.mem_map_of_mem (List.mem_map_of_mem (hsub.subset hc))
  refine ⟨by rw [hlines, hlength], fun hsome => ?_, ?_⟩
  · have hne : inputLines [⟨source, bytes⟩] ≠ [] := by
      intro hnil
      have hzero : kept.length = 0 := by rw [← hlines, linesOf, hnil]; rfl
      omega
    obtain ⟨line, hline, run, hload, -, hrecovered⟩ :=
      load_told_alone h.tracked.ids h.below hs (h.oneEach serde) ht hne hall
    have hsource : line.source = source := by
      obtain ⟨f, hf, hline⟩ := List.mem_flatMap.1 hline
      obtain rfl := List.mem_singleton.1 hf
      obtain ⟨l, -, rfl⟩ := List.mem_map.1 hline
      rfl
    exact ⟨run, hsource ▸ hload, hrecovered,
      fun r hr => ht.recordsIn (hrecovered.mem_records.1 hr)⟩
  · rintro rfl
    obtain rfl := hsub.eq_of_length (by omega)
    exact h.restored hreturned hs (newRunId_ne process next) source hbytes

/-- A queue with one place that drops the second of three calls. -/
theorem drainedTo_second (serde : SerdeJson) (runId : String) (tick exit : Record)
    (entered exited : Scope) : ∃ bytes, DrainedTo serde runId .bestEffort
      [.scope entered, .record tick none, .record exit (some exited)] 1 bytes := by
  obtain ⟨w, hw, hsubmitted, hflushed, hdropped⟩ : ∃ w, Machine.run AsyncWriter.step
        (.spawn 1 .bestEffort true)
        [.call (.scope entered), .call (.record tick none), .receive, .work .ok,
          .call (.record exit (some exited)), .receive, .work .ok, .call .flush, .proceed, .receive,
          .work .ok, .proceed] = some w ∧
      w.submitted.filter (fun m => m ≠ .flush) =
        [.scope entered, .record tick none, .record exit (some exited)] ∧
      w.Flushed ∧ w.state.dropped = 1 := ⟨_, rfl, rfl, ⟨rfl, rfl, rfl⟩, rfl⟩
  obtain ⟨f, hfile, -⟩ := run_fileWriter serde runId (w.fileCalls .debug) .empty
  exact ⟨_, 1, _, w, _, hw, by simp, hsubmitted, hflushed, hfile, hdropped, rfl⟩

theorem losses_counted_second : ∃ s bytes run,
    Machine.run Process.step (.new (newRunId (1, 2) 0) true 500) tickBesideExit = some s ∧
    (linesOf compactSerde (newRunId (1, 2) 0) [⟨none, bytes⟩]).length + 1 = 3 ∧
    load compactSerde [⟨none, bytes⟩] =
      .ok ⟨[run], run.missingScopeMetadata.map (RunBuilder.missingIssue none)⟩ ∧
    ∀ r ∈ run.records, r ∈ s.runtime.pushed.map (Record.reread compactSerde) := by
  obtain ⟨s, tick, entered, exit, exited, hs, hidle, hlives, hids, -, hcalls⟩ := tickBesideExit_run
  obtain ⟨bytes, hdrained⟩ :=
    drainedTo_second compactSerde (newRunId (1, 2) 0) tick exit entered exited
  obtain ⟨hlength, hsome, -⟩ := losses_counted compactSerde_lawful (1, 2) 0 500 _ s none .bestEffort
    1 bytes hs tickBesideExit_live hidle (by rw [hcalls]; exact hdrained) (by rw [hlives]; decide)
    (by rw [hids]; decide)
  rw [hcalls] at hlength hsome
  obtain ⟨run, hload, -, hpushed⟩ := hsome (by simp)
  exact ⟨s, bytes, run, hs, hlength, hload, hpushed⟩

end Eventline
