/-
  Rotation keeps what is written, up to whole files at the old end.

  The files in the slots that are kept, read from the last backup to the active
  file, are a history; rotation makes room for a new active file, and drops at
  most the oldest file of the history.

  * `Directory.retained`: that history.
  * `rotate_retained`: what a rotation leaves of it.
  * `writeText`: a `write_line` whose calls succeed, for any line.
  * `rotation_keeps_history`: what holds after any sequence of them.
-/
import Eventline.Writer.Files
import Eventline.Lib.Checked

namespace Eventline

open Text Checked

namespace Directory

/-! ## The operations, slot by slot -/

theorem rename_apply (d : Directory) {source target i : ℕ} (hs : i ≠ source) (ht : i ≠ target) :
    d.rename source target i = d i := by
  unfold rename
  cases d source with
  | some f =>
    dsimp only
    rw [Function.update_of_ne hs, Function.update_of_ne ht]
  | none => rfl

theorem rename_source (d : Directory) (source target : ℕ) : d.rename source target source = none := by
  unfold rename
  cases h : d source with
  | some f => exact Function.update_self _ _ _
  | none => exact h

theorem shift_apply (d : Directory) {n i : ℕ} (h : n + 1 < i) : d.shift n i = d i := by
  induction n generalizing d with
  | zero => rfl
  | succ n ih => rw [shift, ih _ (by omega), rename_apply d (by omega) (by omega)]

/-- Rotation does not reach the slots above the backups that are kept. -/
theorem rotate_apply (d : Directory) {keep i : ℕ} (h : keep < i) : d.rotate keep i = d i := by
  unfold rotate
  split_ifs with hk
  · rw [Function.update_of_ne (by omega)]
  · rw [rename_apply _ (by omega) (by omega), shift_apply d (by omega)]

theorem rotate_active (d : Directory) (keep : ℕ) : d.rotate keep 0 = none := by
  unfold rotate
  split_ifs
  · exact Function.update_self _ _ _
  · exact rename_source _ 0 1

theorem create_apply (d : Directory) {i : ℕ} (h : 0 < i) : d.create i = d i := by
  unfold create
  cases d 0 with
  | some f => rfl
  | none =>
    dsimp only
    rw [Function.update_of_ne (by omega)]

theorem create_of_none {d : Directory} (h : d 0 = none) :
    d.create = Function.update d 0 (some .empty) := by
  rw [create, h]

/-! ## The history of the slots -/

/-- The bytes of the files in the slots below `n`, from the highest slot down. -/
def below (d : Directory) (n : ℕ) : List Bytes :=
  (List.range n).reverse.filterMap fun i => (d i).map (·.bytes)

/-- The files that are kept, oldest first. -/
def retained (d : Directory) (keep : ℕ) : List Bytes := d.below (keep + 1)

/-- All that the files that are kept hold. -/
def contents (d : Directory) (keep : ℕ) : Bytes := (d.retained keep).flatten

theorem below_succ (d : Directory) (n : ℕ) :
    d.below (n + 1) = ((d n).map (·.bytes)).toList ++ d.below n := by
  rw [below, List.range_succ, List.reverse_append, List.reverse_singleton, List.singleton_append,
    List.filterMap_cons, below]
  cases d n <;> rfl

/-- The active file comes last. -/
theorem below_active (d : Directory) (n : ℕ) :
    d.below (n + 1) = below (fun i => d (i + 1)) n ++ ((d 0).map (·.bytes)).toList := by
  rw [below, List.range_succ_eq_map, List.reverse_cons, List.filterMap_append, ← List.map_reverse,
    List.filterMap_map, below]
  rfl

theorem below_congr {d d' : Directory} {n : ℕ} (h : ∀ i < n, d' i = d i) : d'.below n = d.below n := by
  refine List.filterMap_congr fun i hi => ?_
  rw [List.mem_reverse, List.mem_range] at hi
  rw [h i hi]

/-- Renaming to the next slot up loses at most the file there, the oldest one. -/
theorem rename_below_top (d : Directory) (i : ℕ) :
    (d.rename i (i + 1)).below (i + 2) <:+ d.below (i + 2) := by
  cases h : d i with
  | none =>
    rw [rename, h]
  | some f =>
    have hlow : (d.rename i (i + 1)).below i = d.below i :=
      below_congr fun j hj => rename_apply d (by omega) (by omega)
    have htop : d.rename i (i + 1) (i + 1) = some f := by
      rw [rename, h]
      dsimp only
      rw [Function.update_of_ne (by omega), Function.update_self]
    rw [below_succ, below_succ, htop, rename_source, hlow, below_succ, below_succ, h]
    exact List.suffix_append _ _

/-- Renaming to a vacant next slot changes no order. -/
theorem rename_below_vacant {d : Directory} {i n : ℕ} (h : d (i + 1) = none) (hn : i + 2 ≤ n) :
    (d.rename i (i + 1)).below n = d.below n := by
  induction n, hn using Nat.le_induction with
  | base =>
    cases hi : d i with
    | none => rw [rename, hi]
    | some f =>
      have hlow : (d.rename i (i + 1)).below i = d.below i :=
        below_congr fun j hj => rename_apply d (by omega) (by omega)
      have htop : d.rename i (i + 1) (i + 1) = some f := by
        rw [rename, hi]
        dsimp only
        rw [Function.update_of_ne (by omega), Function.update_self]
      rw [below_succ, below_succ, htop, rename_source, hlow, below_succ, below_succ, h, hi]
      rfl
  | succ n hn ih => rw [below_succ, below_succ, ih, rename_apply d (by omega) (by omega)]

/-- Shifting into a vacant slot changes no order and leaves the first slot free. -/
theorem shift_below_vacant {d : Directory} {n m : ℕ} (h : d (n + 1) = none) (hm : n + 2 ≤ m) :
    (d.shift n).below m = d.below m ∧ d.shift n 1 = none := by
  induction n generalizing d with
  | zero => exact ⟨rfl, h⟩
  | succ n ih =>
    obtain ⟨hbelow, hfirst⟩ := ih (rename_source d (n + 1) (n + 2)) (by omega)
    rw [rename_below_vacant h (by omega)] at hbelow
    exact ⟨hbelow, hfirst⟩

/-- **A rotation drops whole files only**, from the old end of the history. -/
theorem rotate_retained (d : Directory) (keep : ℕ) :
    (d.rotate keep).retained keep <:+ d.retained keep := by
  rcases keep with - | - | keep
  · have hnone : (d.rotate 0).retained 0 = [] := by
      rw [retained, below_succ, rotate_active]
      rfl
    rw [hnone]
    exact List.nil_suffix
  · exact rename_below_top d 0
  · -- the last backup may be overwritten, every later rename is to a free slot
    have hstep : (d.rename (keep + 1) (keep + 2)).below (keep + 3) <:+ d.below (keep + 3) :=
      rename_below_top d (keep + 1)
    obtain ⟨hshift, hfirst⟩ := shift_below_vacant (m := keep + 3)
      (rename_source d (keep + 1) (keep + 2)) (Nat.le_succ _)
    have hrotate : (d.rotate (keep + 2)).retained (keep + 2) =
        (((d.rename (keep + 1) (keep + 2)).shift keep).rename 0 1).below (keep + 3) := rfl
    rw [hrotate, rename_below_vacant hfirst (by omega), hshift]
    exact hstep

/-- A new active file is the newest. -/
theorem create_retained {d : Directory} (h : d 0 = none) (keep : ℕ) :
    d.create.retained keep = d.retained keep ++ [[]] := by
  rw [create_of_none h, retained, retained, below_active, below_active d, h]
  simp [LogFile.empty]

/-- Writing to the active file changes the newest. -/
theorem retained_update {d : Directory} {f : LogFile} (h : d 0 = some f) (keep : ℕ) :
    ∃ older, d.retained keep = older ++ [f.bytes] ∧
      ∀ g : LogFile, retained (Function.update d 0 (some g)) keep = older ++ [g.bytes] := by
  refine ⟨below (fun i => d (i + 1)) keep, ?_, fun g => ?_⟩
  · rw [retained, below_active, h]
    rfl
  · rw [retained, below_active]
    simp

end Directory

/-- Files at the old end are gone, and `added` is at the end of the last file or
    in a new one. -/
def WholeFiles (old new : List Bytes) (added : Bytes) : Prop :=
  (∃ older last, old = older ++ [last] ∧ new = older ++ [last ++ added]) ∨
    ∃ kept, kept <:+ old ∧ new = kept ++ [added]

/-- Nothing but whole files is lost. -/
theorem WholeFiles.flatten {old new : List Bytes} {added : Bytes} (h : WholeFiles old new added) :
    new.flatten <:+ old.flatten ++ added := by
  rcases h with ⟨older, last, rfl, rfl⟩ | ⟨kept, ⟨gone, rfl⟩, rfl⟩
  · rw [List.flatten_concat, List.flatten_concat, List.append_assoc]
  · rw [List.flatten_concat, List.flatten_append, List.append_assoc]
    exact List.suffix_append _ _

namespace RotatingFileWriter

/-- `write_line` of any line, all its calls succeeding; `current_size` is a `u64`. -/
def writeText (w : RotatingFileWriter) (line : Bytes) : Checked RotatingFileWriter := do
  let w := w.ready line
  let currentSize ← add w.currentSize (line.length + 1)
  let file := w.files.active
  pure { w with
    files := Function.update w.files 0 (some { file with bytes := file.bytes ++ line ++ [newline] })
    currentSize }

/-- It writes what a `write_scope` or `write_record` that succeeds does. -/
theorem writeText_writeLine {serde : SerdeJson} {w w' : RotatingFileWriter} {call : WriterCall}
    (h : w.writeText (call.line serde w.runId) = .ok w') :
    w'.currentSize = (w.writeLine serde ⟨call, .ok⟩).currentSize ∧
      ∀ i, (w'.files i).map (·.bytes) = ((w.writeLine serde ⟨call, .ok⟩).files i).map (·.bytes) := by
  have hrun : (w.ready (call.line serde w.runId)).runId = w.runId := by
    unfold ready
    split_ifs
    · rfl
    · rfl
  obtain ⟨size, hsize, h⟩ := bind_eq_ok.1 h
  obtain rfl := Except.ok.inj h
  rw [add] at hsize
  split_ifs at hsize
  refine ⟨(Except.ok.inj hsize).symm, fun i => ?_⟩
  by_cases hi : i = 0
  · subst hi
    simp [writeLine, LogFile.write, LogFile.appendLine, WriteResults.ok, hrun]
  · simp [writeLine, hi]

/-- The writer has the active file open and knows its size. -/
def Sized (w : RotatingFileWriter) : Prop :=
  ∃ f, w.files 0 = some f ∧ w.currentSize = f.bytes.length

/-- **A writer that is ready for a line** is as it was, or full and rotated. -/
theorem ready_cases {w : RotatingFileWriter} (line : Bytes) :
    (w.ready line = w ∧ w.full line = false) ∨
      (w.ready line = w.rotateAndReopen ∧ w.full line = true) := by
  unfold ready
  split_ifs with h
  · exact .inr ⟨rfl, h⟩
  · exact .inl ⟨rfl, by simpa using h⟩

theorem rotateAndReopen_active (w : RotatingFileWriter) :
    w.rotateAndReopen.files 0 = some .empty := by
  show (w.files.rotate w.policy.keepBackups).create 0 = some .empty
  rw [Directory.create_of_none (w.files.rotate_active _), Function.update_self]

/-- What a line written to the open file `f` leaves. -/
theorem writeText_inv {w w' : RotatingFileWriter} {line : Bytes} (hw : w.Sized)
    (h : w.writeText line = .ok w') :
    ∃ f, (w.ready line).files 0 = some f ∧ (w.ready line).currentSize = f.bytes.length ∧
      f.bytes.length + (line.length + 1) ≤ usizeMax ∧
      w'.currentSize = f.bytes.length + (line.length + 1) ∧ w'.policy = w.policy ∧
      w'.files = Function.update (w.ready line).files 0
        (some { f with bytes := f.bytes ++ line ++ [newline] }) := by
  obtain ⟨f, hf, hsize⟩ : (w.ready line).Sized := by
    rcases ready_cases (w := w) line with ⟨heq, -⟩ | ⟨heq, -⟩
    · rw [heq]
      exact hw
    · rw [heq]
      exact ⟨.empty, w.rotateAndReopen_active, rfl⟩
  have hpolicy : (w.ready line).policy = w.policy := by
    rcases ready_cases (w := w) line with ⟨heq, -⟩ | ⟨heq, -⟩
    · rw [heq]
    · rw [heq]
      rfl
  obtain ⟨size, hadd, h⟩ := bind_eq_ok.1 h
  obtain rfl := Except.ok.inj h
  rw [add] at hadd
  split_ifs at hadd with hle
  obtain rfl := Except.ok.inj hadd
  refine ⟨f, hf, hsize, by rwa [← hsize], by dsimp only; rw [hsize], hpolicy, ?_⟩
  rw [Directory.active, hf]
  rfl

/-- **A line is added whole; only whole files are gone.** -/
theorem writeText_wholeFiles {w w' : RotatingFileWriter} {line : Bytes} (hw : w.Sized)
    (h : w.writeText line = .ok w') :
    WholeFiles (w.files.retained w.policy.keepBackups) (w'.files.retained w.policy.keepBackups)
      (line ++ [newline]) := by
  obtain ⟨f, hf, -, -, -, -, hfiles⟩ := writeText_inv hw h
  obtain ⟨older, hold, hnew⟩ := Directory.retained_update hf w.policy.keepBackups
  rw [hfiles, hnew, List.append_assoc]
  rcases ready_cases (w := w) line with ⟨heq, -⟩ | ⟨heq, -⟩
  · rw [heq] at hold
    exact .inl ⟨older, f.bytes, hold, rfl⟩
  · rw [heq] at hold hf
    obtain rfl := Option.some.inj (hf.symm.trans w.rotateAndReopen_active)
    have hcreate := Directory.create_retained (w.files.rotate_active w.policy.keepBackups)
      w.policy.keepBackups
    have hkept : older = (w.files.rotate w.policy.keepBackups).retained w.policy.keepBackups :=
      List.append_cancel_right (hold.symm.trans hcreate)
    refine .inr ⟨older, ?_, rfl⟩
    rw [hkept]
    exact w.files.rotate_retained _

/-! ## Any sequence of lines -/

/-- A file that a limit of `max` bytes allows: not over the limit, or one line. -/
def Allowed (max : ℕ) (lines : List Bytes) (file : Bytes) : Prop :=
  file.length ≤ max ∨ ∃ line ∈ lines, file = line ++ [newline]

theorem Allowed.mono {max : ℕ} {lines : List Bytes} {file : Bytes} (h : Allowed max lines file)
    (line : Bytes) : Allowed max (lines ++ [line]) file := by
  rcases h with h | ⟨l, hl, rfl⟩
  · exact .inl h
  · exact .inr ⟨l, List.mem_append_left _ hl, rfl⟩

/-- The writer after the lines, opened on `files` with the policy. -/
structure Rotated (files : Directory) (policy : LogPolicy) (lines : List Bytes)
    (w : RotatingFileWriter) : Prop where
  samePolicy : w.policy = policy
  sized : w.Sized
  suffix : w.files.contents policy.keepBackups <:+
    files.contents policy.keepBackups ++ unlines lines
  beyond : ∀ i, policy.keepBackups < i → w.files i = files i
  unlimited : policy.maxBytes = 0 → (∀ i, i ≠ 0 → w.files i = files i) ∧
    w.files.active.bytes = files.active.bytes ++ unlines lines
  active : 0 < policy.maxBytes → Allowed policy.maxBytes lines w.files.active.bytes
  retained : 0 < policy.maxBytes → ∀ f ∈ w.files.retained policy.keepBackups,
    f ∈ files.retained policy.keepBackups ∨ Allowed policy.maxBytes lines f

/-- The files that opening leaves are those that were there, and an empty one if
    there is no active file. -/
theorem withStyle_wholeFiles (files : Directory) (policy : LogPolicy) (runId : String) :
    WholeFiles (files.retained policy.keepBackups)
      ((withStyle files policy runId).files.retained policy.keepBackups) [] := by
  unfold withStyle
  cases h : files 0 with
  | none =>
    refine .inr ⟨_, List.suffix_refl _, ?_⟩
    exact Directory.create_retained h policy.keepBackups
  | some f =>
    dsimp only
    split_ifs
    · refine .inr ⟨_, files.rotate_retained policy.keepBackups, ?_⟩
      exact Directory.create_retained (files.rotate_active _) policy.keepBackups
    · obtain ⟨older, hold, -⟩ := Directory.retained_update h policy.keepBackups
      exact .inl ⟨older, f.bytes, hold, by rw [List.append_nil]; exact hold⟩

/-- What is retained after whole files are gone and a line is added. -/
theorem WholeFiles.mem {old new : List Bytes} {added f : Bytes} (h : WholeFiles old new added)
    (hf : f ∈ new) : f ∈ old ∨ ∃ kept, new = kept ++ [f] := by
  rcases h with ⟨older, last, rfl, rfl⟩ | ⟨kept, hkept, rfl⟩
  · rcases List.mem_append.1 hf with hf | hf
    · exact .inl (List.mem_append_left _ hf)
    · exact .inr ⟨older, by rw [List.mem_singleton.1 hf]⟩
  · rcases List.mem_append.1 hf with hf | hf
    · exact .inl (hkept.subset hf)
    · exact .inr ⟨kept, by rw [List.mem_singleton.1 hf]⟩

/-- The last file retained is the active one. -/
theorem active_of_last {d : Directory} {f : LogFile} {keep : ℕ} {kept : List Bytes} {b : Bytes}
    (hf : d 0 = some f) (h : d.retained keep = kept ++ [b]) : b = d.active.bytes := by
  obtain ⟨older, hold, -⟩ := Directory.retained_update hf keep
  have hlast := congrArg List.getLast? (hold.symm.trans h)
  rw [List.getLast?_concat, List.getLast?_concat] at hlast
  rw [Directory.active, hf]
  exact (Option.some.inj hlast).symm

theorem withStyle_sized (files : Directory) (policy : LogPolicy) (runId : String) :
    (withStyle files policy runId).Sized := by
  unfold withStyle
  cases h : files 0 with
  | none =>
    refine ⟨.empty, ?_, rfl⟩
    show files.create 0 = _
    rw [Directory.create_of_none h, Function.update_self]
  | some f =>
    dsimp only
    split_ifs
    · refine ⟨.empty, ?_, rfl⟩
      show (files.rotate policy.keepBackups).create 0 = _
      rw [Directory.create_of_none (files.rotate_active _), Function.update_self]
    · exact ⟨f, h, rfl⟩

theorem withStyle_rotated (files : Directory) (policy : LogPolicy) (runId : String) :
    Rotated files policy [] (withStyle files policy runId) := by
  have hsized := withStyle_sized files policy runId
  have hwhole := withStyle_wholeFiles files policy runId
  have hactive : 0 < policy.maxBytes →
      (withStyle files policy runId).files.active.bytes.length ≤ policy.maxBytes := by
    intro hmax
    unfold withStyle
    cases h : files 0 with
    | none =>
      show (files.create.active).bytes.length ≤ _
      rw [Directory.active, Directory.create_of_none h, Function.update_self]
      exact Nat.zero_le _
    | some f =>
      dsimp only
      split_ifs with hfull
      · show ((files.rotate policy.keepBackups).create.active).bytes.length ≤ _
        rw [Directory.active, Directory.create_of_none (files.rotate_active _),
          Function.update_self]
        exact Nat.zero_le _
      · show ((files 0).getD .empty).bytes.length ≤ _
        rw [h]
        show f.bytes.length ≤ _
        omega
  refine ⟨?_, hsized, ?_, ?_, ?_, fun hmax => .inl (hactive hmax), ?_⟩
  · unfold withStyle
    cases files 0 with
    | none => rfl
    | some f =>
      dsimp only
      split_ifs
      · rfl
      · rfl
  · exact hwhole.flatten
  · intro i hi
    unfold withStyle
    cases files 0 with
    | none => exact Directory.create_apply files (Nat.zero_lt_of_lt hi)
    | some f =>
      dsimp only
      split_ifs
      · show (files.rotate policy.keepBackups).create i = files i
        rw [Directory.create_apply _ (Nat.zero_lt_of_lt hi), Directory.rotate_apply files hi]
      · rfl
  · intro hmax
    unfold withStyle
    cases h : files 0 with
    | none =>
      refine ⟨fun i hi => Directory.create_apply files (Nat.pos_of_ne_zero hi), ?_⟩
      show files.create.active.bytes = _
      rw [Directory.active, Directory.create_of_none h, Function.update_self, Directory.active, h]
      rfl
    | some f =>
      dsimp only
      rw [if_neg (by omega)]
      exact ⟨fun _ _ => rfl, (List.append_nil _).symm⟩
  · intro hmax f hf
    obtain ⟨g, hg, -⟩ := hsized
    rcases WholeFiles.mem hwhole hf with hold | ⟨kept, hlast⟩
    · exact .inl hold
    · rw [active_of_last hg hlast]
      exact .inr (.inl (hactive hmax))

/-- **A line keeps the invariant.** -/
theorem Rotated.writeText {files : Directory} {policy : LogPolicy} {lines : List Bytes}
    {w w' : RotatingFileWriter} {line : Bytes} (h : Rotated files policy lines w)
    (hw : w.writeText line = .ok w') : Rotated files policy (lines ++ [line]) w' := by
  obtain ⟨f, hf, hsize, hle, hsize', hpolicy, hfiles⟩ := writeText_inv h.sized hw
  have hwhole := writeText_wholeFiles h.sized hw
  rw [h.samePolicy] at hwhole hpolicy
  have hunlines : unlines (lines ++ [line]) = unlines lines ++ (line ++ [newline]) := by
    simp [unlines]
  have hactive' : w'.files.active.bytes = f.bytes ++ line ++ [newline] := by
    rw [Directory.active, hfiles, Function.update_self]
    rfl
  have hactive : 0 < policy.maxBytes →
      Allowed policy.maxBytes (lines ++ [line]) w'.files.active.bytes := by
    intro hmax
    rw [hactive']
    rcases ready_cases (w := w) line with ⟨heq, hfull⟩ | ⟨heq, -⟩
    · rw [heq] at hsize
      by_cases hempty : f.bytes = []
      · exact .inr ⟨line, by simp, by rw [hempty]; rfl⟩
      · -- there is room for the line
        refine .inl ?_
        have hpos := List.length_pos_of_ne_nil hempty
        simp only [full, h.samePolicy, hsize, Bool.and_eq_false_iff, decide_eq_false_iff_not,
          saturatingAdd] at hfull
        simp only [List.length_append, List.length_singleton]
        simp only [usizeMax] at hle
        omega
    · rw [heq] at hf
      obtain rfl := Option.some.inj (hf.symm.trans w.rotateAndReopen_active)
      exact .inr ⟨line, by simp, rfl⟩
  refine ⟨hpolicy, ⟨_, by rw [hfiles, Function.update_self], ?_⟩, ?_, ?_, ?_, hactive, ?_⟩
  · rw [hsize']
    simp only [List.length_append, List.length_singleton]
    omega
  · rw [hunlines, ← List.append_assoc]
    refine hwhole.flatten.trans ?_
    obtain ⟨gone, hgone⟩ := h.suffix
    exact ⟨gone, by rw [← hgone, List.append_assoc, Directory.contents]⟩
  · intro i hi
    rw [hfiles, Function.update_of_ne (by omega)]
    rcases ready_cases (w := w) line with ⟨heq, -⟩ | ⟨heq, -⟩
    · rw [heq]
      exact h.beyond i hi
    · rw [heq]
      show (w.files.rotate w.policy.keepBackups).create i = files i
      rw [Directory.create_apply _ (Nat.zero_lt_of_lt hi), h.samePolicy,
        Directory.rotate_apply _ hi, h.beyond i hi]
  · intro hmax
    obtain ⟨hother, hold⟩ := h.unlimited hmax
    have hready : w.ready line = w := by
      rw [ready, if_neg]
      simp [full, h.samePolicy, hmax]
    rw [hready] at hf hfiles
    refine ⟨fun i hi => ?_, ?_⟩
    · rw [hfiles, Function.update_of_ne hi]
      exact hother i hi
    · have hwf : w.files.active.bytes = f.bytes := by
        rw [Directory.active, hf]
        rfl
      rw [hactive', ← hwf, hold, hunlines]
      simp only [List.append_assoc]
  · intro hmax g hg
    rcases WholeFiles.mem hwhole hg with hold | ⟨kept, hlast⟩
    · exact (h.retained hmax g hold).imp id fun ha => ha.mono line
    · have hg0 : w'.files 0 = some { f with bytes := f.bytes ++ line ++ [newline] } := by
        rw [hfiles, Function.update_self]
      rw [active_of_last hg0 hlast]
      exact .inr (hactive hmax)

theorem Rotated.writeTexts {files : Directory} {policy : LogPolicy} {lines more : List Bytes}
    {w w' : RotatingFileWriter} (h : Rotated files policy lines w)
    (hw : more.foldlM RotatingFileWriter.writeText w = .ok w') :
    Rotated files policy (lines ++ more) w' := by
  induction more generalizing lines w with
  | nil =>
    obtain rfl := Except.ok.inj hw
    rwa [List.append_nil]
  | cons line more ih =>
    obtain ⟨u, hu, hw⟩ := bind_eq_ok.1 hw
    have hmore := ih (h.writeText hu) hw
    rwa [List.append_assoc] at hmore

/-- **Rotation loses only whole files from the old end, and respects the limit.**
    For any files, any policy and any lines; opening and every further line lose
    whole files only. -/
theorem rotation_keeps_history {files : Directory} {policy : LogPolicy} {runId : String}
    {lines : List Bytes} {w : RotatingFileWriter}
    (h : lines.foldlM writeText (withStyle files policy runId) = .ok w) :
    Rotated files policy lines w ∧
      WholeFiles (files.retained policy.keepBackups)
        ((withStyle files policy runId).files.retained policy.keepBackups) [] ∧
      ∀ line w', w.writeText line = .ok w' →
        WholeFiles (w.files.retained policy.keepBackups) (w'.files.retained policy.keepBackups)
          (line ++ [newline]) := by
  have hrot : Rotated files policy lines w := (withStyle_rotated files policy runId).writeTexts h
  refine ⟨hrot, withStyle_wholeFiles files policy runId, ?_⟩
  intro line w' hw
  have hwhole := writeText_wholeFiles hrot.sized hw
  rwa [hrot.samePolicy] at hwhole

/-- Four lines of two bytes with a limit of three and one backup. -/
theorem rotation_keeps_history_small : ∃ w,
    [[97], [98], [99], [100]].foldlM writeText (withStyle (fun _ => none) ⟨3, 1⟩ "run") = .ok w ∧
      Rotated (fun _ => none) ⟨3, 1⟩ [[97], [98], [99], [100]] w := by
  obtain ⟨w, hw⟩ : ∃ w, [[97], [98], [99], [100]].foldlM writeText
    (withStyle (fun _ => none) ⟨3, 1⟩ "run") = .ok w := ⟨_, rfl⟩
  exact ⟨w, hw, (rotation_keeps_history hw).1⟩

end RotatingFileWriter

end Eventline
