/-
  Which acknowledged records a load finds again.

  * `LogFile.Sound`: a file has an ended line for each record it acknowledged;
    a call keeps it if the line it adds starts on a clean line (`Framed`).
  * `acknowledged_recovered`: both writers keep it, so a load has every
    acknowledged record whose file is still there.
  * `truncated_line_swallows`: a line added to a truncated one is lost with it.
-/
import Eventline.Writer.Rotation
import Eventline.Replay.Contents

namespace Eventline

open Text Checked

/-! ## Files -/

namespace LogFile

/-- The file has an ended line for each record that it acknowledged, read as the
    record with its doubles as the reader has them. -/
def Sound (serde : SerdeJson) (runId : String) (f : LogFile) : Prop :=
  ∀ r ∈ f.acknowledged, ∃ raw ∈ rawLines f.bytes, newline ∈ raw ∧
    ∃ s, classify serde raw = .entry ⟨some runId, ⟨some (r.reread serde), s⟩⟩

/-- What follows the last newline is whitespace. -/
def clean (f : LogFile) : Bool := (lastLine f.bytes).all isAsciiWhitespace

theorem sound_of_nil {serde : SerdeJson} {runId : String} {f : LogFile} (h : f.acknowledged = []) :
    f.Sound serde runId := by
  intro r hr
  rw [h] at hr
  cases hr

end LogFile

/-- A record written with success starts on a clean line, and can be read back. -/
def WriteCall.Framed (c : WriteCall) (f : LogFile) : Prop :=
  c.results.isOk = true → ∀ r s, c.call = .record r s → r.Paired s ∧ f.clean = true

theorem WriteResults.isOk_iff {w : WriteResults} : w.isOk = true ↔ w = .ok := by
  obtain ⟨line, newline⟩ := w
  cases line <;> cases newline <;> simp [isOk, ok]

section
variable {serde : SerdeJson} {runId : String}

theorem LogFile.bytes_write (f : LogFile) (c : WriteCall) :
    ∃ more, (f.write serde runId c).bytes = f.bytes ++ more := by
  simp only [LogFile.write, appendLine]
  split
  · exact ⟨_, rfl⟩
  · split
    · exact ⟨_, List.append_assoc ..⟩
    · exact ⟨_, List.append_assoc ..⟩

/-- **A framed call keeps a file sound.** -/
theorem LogFile.Sound.write (hs : serde.Lawful) (hne : runId ≠ "") {f : LogFile}
    (h : f.Sound serde runId) {c : WriteCall} (hc : c.Framed f) :
    (f.write serde runId c).Sound serde runId := by
  intro r hr
  have hold : r ∈ f.acknowledged → ∃ raw ∈ rawLines (f.write serde runId c).bytes, newline ∈ raw ∧
      ∃ s, classify serde raw = .entry ⟨some runId, ⟨some (r.reread serde), s⟩⟩ := by
    intro hr
    obtain ⟨raw, hraw, hend, hentry⟩ := h r hr
    obtain ⟨more, hmore⟩ := LogFile.bytes_write f c
    refine ⟨raw, ?_, hend, hentry⟩
    rw [hmore]
    exact mem_rawLines_append hraw hend more
  simp only [LogFile.write] at hr
  split_ifs at hr with hok
  · rcases List.mem_append.1 hr with hr | hr
    · exact hold hr
    · obtain ⟨call, results⟩ := c
      cases call with
      | scope s => cases hr
      | record r' s =>
        obtain rfl : r = r' := by simpa [WriterCall.acknowledges] using hr
        obtain ⟨hp, hclean⟩ := hc hok r s rfl
        obtain rfl := WriteResults.isOk_iff.1 hok
        have hrendered : Rendered serde runId _ _ := .record hp
        refine ⟨lastLine f.bytes ++ renderJsonlInRun serde r s runId ++ [newline],
          mem_rawLines_ended f.bytes (hrendered.newline_notMem hs), by simp, s, ?_⟩
        exact hrendered.classify_line hs hne (List.all_eq_true.1 hclean) (by simp [newline]; rfl)
  · exact hold hr

end

/-! ## FileWriter -/

theorem FileWriter.step_runId {serde : SerdeJson} {w w' : FileWriter} {c : WriteCall}
    (h : w.step serde c = some w') : w'.runId = w.runId ∧ w'.file = w.file.write serde w.runId c := by
  unfold step at h
  split_ifs at h
  obtain rfl := Option.some.inj h
  exact ⟨rfl, rfl⟩

/-! ## RotatingFileWriter -/

namespace Directory

/-- Every file of a directory is one of another, or an empty one. -/
def Within (d' d : Directory) : Prop :=
  ∀ i f, d' i = some f → f = .empty ∨ ∃ j, d j = some f

theorem Within.refl (d : Directory) : d.Within d := fun i _ h => .inr ⟨i, h⟩

theorem Within.trans {d d' d'' : Directory} (h : d''.Within d') (h' : d'.Within d) :
    d''.Within d := by
  intro i f hf
  rcases h i f hf with hf | ⟨j, hj⟩
  · exact .inl hf
  · exact h' j f hj

theorem rename_within (d : Directory) (source target : ℕ) : (d.rename source target).Within d := by
  unfold rename
  split
  · rename_i g hg
    intro i f hf
    by_cases hi : i = source
    · subst hi
      rw [Function.update_self] at hf
      cases hf
    · rw [Function.update_of_ne hi] at hf
      by_cases ht : i = target
      · subst ht
        rw [Function.update_self] at hf
        exact .inr ⟨source, hg.trans hf⟩
      · rw [Function.update_of_ne ht] at hf
        exact .inr ⟨i, hf⟩
  · exact .refl d

theorem shift_within (d : Directory) (n : ℕ) : (d.shift n).Within d := by
  induction n generalizing d with
  | zero => exact .refl d
  | succ n ih => exact (ih _).trans (rename_within d (n + 1) (n + 2))

/-- Rotation keeps files or drops them. -/
theorem rotate_within (d : Directory) (keep : ℕ) : (d.rotate keep).Within d := by
  unfold rotate
  split_ifs
  · intro i f hf
    by_cases hi : i = 0
    · subst hi
      rw [Function.update_self] at hf
      cases hf
    · rw [Function.update_of_ne hi] at hf
      exact .inr ⟨i, hf⟩
  · exact (rename_within _ 0 1).trans (shift_within d _)

theorem create_within (d : Directory) : d.create.Within d := by
  unfold create
  split
  · exact .refl d
  · intro i f hf
    by_cases hi : i = 0
    · subst hi
      rw [Function.update_self] at hf
      exact .inl (Option.some.inj hf).symm
    · rw [Function.update_of_ne hi] at hf
      exact .inr ⟨i, hf⟩

/-- Every file is sound, and only the active file and the backups that are kept
    acknowledge records. -/
structure Sound (serde : SerdeJson) (runId : String) (keep : ℕ) (d : Directory) : Prop where
  files : ∀ i f, d i = some f → f.Sound serde runId
  above : ∀ i f, d i = some f → keep < i → f.acknowledged = []

variable {serde : SerdeJson} {runId : String} {keep : ℕ}

theorem Sound.within {d d' : Directory} (h : d.Sound serde runId keep) (hw : d'.Within d)
    (habove : ∀ i, keep < i → d' i = d i) : d'.Sound serde runId keep where
  files i f hf := by
    rcases hw i f hf with rfl | ⟨j, hj⟩
    · exact LogFile.sound_of_nil rfl
    · exact h.files j f hj
  above i f hf hi := by
    rw [habove i hi] at hf
    exact h.above i f hf hi

theorem Sound.create {d : Directory} (h : d.Sound serde runId keep) :
    d.create.Sound serde runId keep :=
  h.within d.create_within fun _ hi => create_apply d (Nat.zero_lt_of_lt hi)

theorem Sound.rotate {d : Directory} (h : d.Sound serde runId keep) :
    (d.rotate keep).Sound serde runId keep :=
  h.within (d.rotate_within keep) fun _ hi => rotate_apply d hi

theorem Sound.active {d : Directory} (h : d.Sound serde runId keep) :
    d.active.Sound serde runId := by
  unfold Directory.active
  cases hd : d 0 with
  | none => exact LogFile.sound_of_nil rfl
  | some f => exact h.files 0 f hd

end Directory

namespace RotatingFileWriter

variable {serde : SerdeJson}

/-- The invariant of a writer of the given run and policy. -/
structure Sound (serde : SerdeJson) (runId : String) (keep : ℕ) (w : RotatingFileWriter) : Prop where
  run : w.runId = runId
  policy : w.policy.keepBackups = keep
  files : w.files.Sound serde runId keep

variable {runId : String} {keep : ℕ}

theorem Sound.ready {w : RotatingFileWriter} (h : w.Sound serde runId keep) (line : Bytes) :
    (w.ready line).Sound serde runId keep := by
  unfold RotatingFileWriter.ready
  split_ifs
  · refine ⟨h.run, h.policy, ?_⟩
    rw [rotateAndReopen, h.policy]
    exact h.files.rotate.create
  · exact h

/-- A call whose line starts on a clean line of the file it goes to. -/
def Framed (serde : SerdeJson) (w : RotatingFileWriter) (c : WriteCall) : Prop :=
  c.Framed (w.ready (c.call.line serde w.runId)).files.active

theorem Sound.step (hs : serde.Lawful) (hne : runId ≠ "") {w w' : RotatingFileWriter}
    {c : WriteCall} (h : w.Sound serde runId keep) (hc : w.Framed serde c)
    (hstep : w.step serde c = some w') : w'.Sound serde runId keep := by
  unfold RotatingFileWriter.step at hstep
  split_ifs at hstep
  obtain rfl := Option.some.inj hstep
  have hready := h.ready (c.call.line serde w.runId)
  have hfile := hready.files.active.write hs hne hc
  refine ⟨hready.run, hready.policy, ?_, ?_⟩
  · intro i f hf
    simp only [writeLine] at hf
    by_cases hi : i = 0
    · subst hi
      rw [Function.update_self] at hf
      rw [← Option.some.inj hf, hready.run]
      exact hfile
    · rw [Function.update_of_ne hi] at hf
      exact hready.files.files i f hf
  · intro i f hf hi
    simp only [writeLine] at hf
    rw [Function.update_of_ne (by omega)] at hf
    exact hready.files.above i f hf hi

theorem withStyle_sound {files : Directory} (hnew : ∀ i f, files i = some f → f.acknowledged = [])
    (policy : LogPolicy) (runId : String) :
    (withStyle files policy runId).Sound serde runId policy.keepBackups := by
  have hfiles : files.Sound serde runId policy.keepBackups :=
    ⟨fun i f hf => LogFile.sound_of_nil (hnew i f hf), fun i f hf _ => hnew i f hf⟩
  unfold withStyle
  split
  · exact ⟨rfl, rfl, hfiles.create⟩
  · split_ifs
    · exact ⟨rfl, rfl, hfiles.rotate.create⟩
    · exact ⟨rfl, rfl, hfiles⟩

theorem mem_inputFiles {w : RotatingFileWriter} (path : String) {i : ℕ} {f : LogFile}
    (hi : i ≤ w.policy.keepBackups) (hf : w.files i = some f) :
    ⟨some (pathOf path i), f.bytes⟩ ∈ w.inputFiles path := by
  unfold inputFiles
  rw [List.mem_filterMap]
  refine ⟨i, by simpa using Nat.lt_succ_of_le hi, ?_⟩
  rw [hf]
  rfl

end RotatingFileWriter

/-- **Acknowledged records are recovered** when every record that is written with
    success starts on a clean line: a load has each one whose file is there, up
    to what reading does to doubles. -/
theorem acknowledged_recovered {serde : SerdeJson} (hs : serde.Lawful)
    (process : UInt64 × UInt64) (next : UInt64) :
    (∀ contents calls w, Machine.run (FileWriter.step serde)
        (.withStyle contents (newRunId process next)) calls = some w →
      Machine.Meets (FileWriter.step serde) (fun w c => c.Framed w.file)
        (.withStyle contents (newRunId process next)) calls →
      ∀ path, ∃ saved, load serde [⟨some path, w.file.bytes⟩] = .ok saved ∧
        ∀ r ∈ w.file.acknowledged, saved.Has serde w.runId r) ∧
    ∀ files policy calls w, (∀ i f, files i = some f → f.acknowledged = []) →
      Machine.run (RotatingFileWriter.step serde)
        (.withStyle files policy (newRunId process next)) calls = some w →
      Machine.Meets (RotatingFileWriter.step serde) (RotatingFileWriter.Framed serde)
        (.withStyle files policy (newRunId process next)) calls →
      ∀ path, ∃ saved, load serde (w.inputFiles path) = .ok saved ∧
        ∀ i f, w.files i = some f → ∀ r ∈ f.acknowledged, saved.Has serde w.runId r := by
  have hne := newRunId_ne process next
  constructor
  · intro contents calls w hrun hmeets path
    have hinv := Machine.run_invariant_of_meets
      (I := fun w => w.runId = newRunId process next ∧ w.file.Sound serde (newRunId process next))
      (fun w c w' hw hc hstep => by
        obtain ⟨hid, hfile⟩ := FileWriter.step_runId hstep
        rw [hid, hfile, hw.1]
        exact ⟨rfl, hw.2.write hs hne hc⟩)
      hrun hmeets ⟨rfl, LogFile.sound_of_nil rfl⟩
    obtain ⟨saved, log, builders, hload⟩ := load_ok hs [⟨some path, w.file.bytes⟩]
    refine ⟨saved, hload.load, ?_⟩
    intro r hr
    obtain ⟨raw, hraw, -, s, hc⟩ := hinv.2 r hr
    obtain ⟨line, hline, rfl⟩ :=
      mem_inputLines (f := ⟨some path, w.file.bytes⟩) (List.mem_singleton.2 rfl) hraw
    rw [hinv.1]
    exact hload.has_record hs hline hc
  · intro files policy calls w hnew hrun hmeets path
    have hinv := Machine.run_invariant_of_meets
      (I := RotatingFileWriter.Sound serde (newRunId process next) policy.keepBackups)
      (fun w c w' hw hc hstep => hw.step hs hne hc hstep) hrun hmeets
      (RotatingFileWriter.withStyle_sound hnew policy (newRunId process next))
    obtain ⟨saved, log, builders, hload⟩ := load_ok hs (w.inputFiles path)
    refine ⟨saved, hload.load, ?_⟩
    intro i f hf r hr
    have hi : i ≤ w.policy.keepBackups := by
      by_contra hlt
      rw [hinv.files.above i f hf (by rw [← hinv.policy]; omega)] at hr
      cases hr
    obtain ⟨raw, hraw, -, s, hc⟩ := hinv.files.files i f hf r hr
    obtain ⟨line, hline, rfl⟩ :=
      mem_inputLines (RotatingFileWriter.mem_inputFiles path hi hf) hraw
    rw [hinv.run]
    exact hload.has_record hs hline hc

/-- A record, and a call that writes it with success. -/
def tick : Record := ⟨⟨0⟩, none, 2000, .event .info "tick" .new⟩

def writeTick : WriteCall := ⟨.record tick none, .ok⟩

theorem tick_paired : tick.Paired none := ⟨by simp [tick], by simp⟩

theorem tick_framed {f : LogFile} (h : f.clean = true) : writeTick.Framed f := by
  rintro - r s hc
  obtain ⟨rfl, rfl⟩ := WriterCall.record.inj hc
  exact ⟨tick_paired, h⟩

theorem acknowledged_recovered_tick :
    (∃ w saved, Machine.run (FileWriter.step compactSerde)
        (.withStyle (some [123, newline]) (newRunId (1, 2) 0)) [writeTick] = some w ∧
      load compactSerde [⟨some "run.jsonl", w.file.bytes⟩] = .ok saved ∧
      saved.Has compactSerde (newRunId (1, 2) 0) tick) ∧
    ∃ w saved, Machine.run (RotatingFileWriter.step compactSerde)
        (.withStyle (Function.update (fun _ => none) 0 (some ⟨[123, newline], []⟩)) ⟨2, 1⟩
          (newRunId (1, 2) 0)) [writeTick] = some w ∧
      load compactSerde (w.inputFiles "run.jsonl") = .ok saved ∧
      saved.Has compactSerde (newRunId (1, 2) 0) tick := by
  obtain ⟨hfile, hrotating⟩ := acknowledged_recovered compactSerde_lawful (1, 2) 0
  constructor
  · obtain ⟨saved, hload, hhas⟩ := hfile (some [123, newline]) [writeTick] _ rfl
      ⟨tick_framed (by decide), fun _ _ => trivial⟩ "run.jsonl"
    exact ⟨_, saved, rfl, hload, hhas tick (List.mem_singleton.2 rfl)⟩
  · have hnew : ∀ i f, (Function.update (fun _ => none) 0 (some ⟨[123, newline], []⟩) : Directory) i =
        some f → f.acknowledged = [] := by
      intro i f hf
      by_cases hi : i = 0
      · subst hi
        rw [Function.update_self] at hf
        rw [← Option.some.inj hf]
      · rw [Function.update_of_ne hi] at hf
        cases hf
    obtain ⟨saved, hload, hhas⟩ := hrotating _ ⟨2, 1⟩ [writeTick] _ hnew rfl
      ⟨tick_framed (by decide), fun _ _ => trivial⟩ "run.jsonl"
    exact ⟨_, saved, rfl, hload, hhas 0 _ rfl tick (List.mem_singleton.2 rfl)⟩

/-! ## A truncated line -/

/-- A text that starts with two opening braces is no value. -/
theorem fromSlice_braces (cs : List Char) :
    ∃ e, compactSerde.fromSlice (utf8 (.ofList ('\x7b' :: '\x7b' :: cs))) = .error e := by
  have hvalue : ∀ n, JsonText.value n ('\x7b' :: '\x7b' :: cs) = none := by
    rintro (_ | _ | n)
    · rfl
    · rfl
    · simp [JsonText.value, JsonText.members]
  refine ⟨"expected value at line 1 column 1", ?_⟩
  simp [compactSerde, hvalue]

theorem classify_truncated {members : List (String × Json)} {line : Bytes}
    (h : compactSerde.toVec (.obj members) = .ok line) :
    ∃ reason, classify compactSerde ([123] ++ line ++ [newline]) = .rejected reason := by
  obtain ⟨-, hlast⟩ := compactSerde_lawful.obj_braces _ _ h
  obtain rfl := Except.ok.inj h
  have htext : [123] ++ utf8 (.ofList (JsonText.text (.obj members))) =
      utf8 (.ofList ('\x7b' :: JsonText.text (.obj members))) := by
    rw [utf8_ofList, utf8_ofList]
    rfl
  have hlast' : ([123] ++ utf8 (.ofList (JsonText.text (.obj members)))).getLast? = some 125 := by
    rw [List.getLast?_append, hlast]
    rfl
  have htrim : trimAscii ([] ++ ([123] ++ utf8 (.ofList (JsonText.text (.obj members)))) ++
      [newline]) = _ :=
    trimAscii_framed (by simp) (by simp [newline]; rfl) rfl hlast' rfl rfl
  rw [List.nil_append] at htrim
  obtain ⟨e, he⟩ := fromSlice_braces (JsonText.membersText [] members)
  refine ⟨(.invalidLine, e), ?_⟩
  rw [classify, htrim, headerText_of_head rfl, htext, JsonText.text, decodeLine, he]
  rw [← JsonText.text, ← htext]
  rfl

/-- A load without entries has no records. -/
theorem Loaded.not_has {serde : SerdeJson} (hs : serde.Lawful) {files : List InputFile}
    {saved : SavedJournal} {log : List Fed} {builders : List RunBuilder}
    (h : Loaded serde files saved log builders)
    (hnone : ∀ line ∈ inputLines files, ∀ d, classify serde line.raw ≠ .entry d) (runId : String)
    (r : Record) : ¬ saved.Has serde runId r := by
  have hlog : log = [] := by
    rw [List.eq_nil_iff_forall_not_mem]
    intro e he
    obtain ⟨line, hline, hc⟩ := (h.mem_log_iff e.decoded).1 ⟨e, he, rfl⟩
    exact hnone line hline _ hc
  rintro ⟨run, hrun, -, x, hx, -⟩
  obtain ⟨i, hi⟩ := List.mem_iff_getElem?.1 hrun
  rw [h.records hs hi, hlog] at hx
  cases hx

/-- **A truncated line swallows the next one**: the record is acknowledged, and
    lost with the line that it was appended to. -/
theorem truncated_line_swallows : ∃ w saved, Machine.run (FileWriter.step compactSerde)
      (.withStyle (some [123]) (newRunId (1, 2) 0)) [writeTick] = some w ∧
    tick ∈ w.file.acknowledged ∧
    load compactSerde [⟨some "run.jsonl", w.file.bytes⟩] = .ok saved ∧
    ¬ saved.Has compactSerde (newRunId (1, 2) 0) tick := by
  have hs := compactSerde_lawful
  have hrendered : Rendered compactSerde (newRunId (1, 2) 0) _ _ := .record tick_paired
  obtain ⟨saved, log, builders, hload⟩ := load_ok hs
    [⟨some "run.jsonl", [123] ++ renderJsonlInRun compactSerde tick none (newRunId (1, 2) 0) ++
      [newline]⟩]
  refine ⟨_, saved, rfl, List.mem_singleton.2 rfl, hload.load, ?_⟩
  refine hload.not_has hs ?_ _ _
  intro line hline d hd
  have hline' : line.raw ∈ rawLines ([123] ++ renderJsonlInRun compactSerde tick none
      (newRunId (1, 2) 0) ++ [newline]) := by
    have hm : (line.source, line.raw) ∈ (inputLines _).map fun line => (line.source, line.raw) :=
      List.mem_map.2 ⟨line, hline, rfl⟩
    rw [map_inputLines, List.flatMap_singleton] at hm
    obtain ⟨raw, hraw, heq⟩ := List.mem_map.1 hm
    exact (Prod.mk.inj heq).2 ▸ hraw
  have hnone : newline ∉ [123] ++ renderJsonlInRun compactSerde tick none (newRunId (1, 2) 0) := by
    intro hm
    rcases List.mem_append.1 hm with hm | hm
    · simp [newline] at hm
    · exact hrendered.newline_notMem hs hm
  rw [rawLines_line hnone [], rawLines_nil, List.mem_singleton] at hline'
  obtain ⟨members, ht⟩ := hrendered.text hs
  obtain ⟨reason, hreason⟩ := classify_truncated ht
  rw [hline', hreason] at hd
  cases hd

end Eventline
