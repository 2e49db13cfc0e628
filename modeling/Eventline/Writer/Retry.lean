/-
  Rotations that fail in the middle and are tried again (`rotation::rotate` and
  `RotatingFileWriter::rotate_and_reopen`).

  An attempt makes one call for each slot from the last but one down to the
  active file, and returns at the first call that fails.  The calls before it
  have been made, so a failed attempt leaves the upper part of the shift.

  * `chain`: renames of successive slots, from the highest one down.
  * `tryRotate_failed`: what a failed attempt leaves.
  * `retry_iff`: a rotation after failed attempts is one rotation exactly when
    none of them moved a backup that was not the last but one.
-/
import Eventline.Writer.Rotation

namespace Eventline

open Text

/-- An error of a file system call, by `ErrorKind::NotFound` or another kind. -/
inductive FsError where
  | notFound
  | other

/-- `rotation::ignore_missing`. -/
def ignoreMissing : Except FsError Unit → Except FsError Unit
  | .error .notFound => .ok ()
  | result => result

namespace Directory

section
variable (fails : Option ℕ)

/-- `fs::rename` of a slot; `fails` is the slot whose call fails, if one does. -/
def fsRename (d : Directory) (source target : ℕ) : Except FsError Unit × Directory :=
  if fails = some source then (.error .other, d)
  else
    match d source with
    | some f => (.ok (), Function.update (Function.update d target (some f)) source none)
    | none => (.error .notFound, d)

/-- `fs::remove_file` of a slot. -/
def fsRemove (d : Directory) (source : ℕ) : Except FsError Unit × Directory :=
  if fails = some source then (.error .other, d)
  else
    match d source with
    | some _ => (.ok (), Function.update d source none)
    | none => (.error .notFound, d)

/-- The loop of `rotate`, from slot `i` down to 1. -/
def tryShift (d : Directory) : ℕ → Except FsError Unit × Directory
  | 0 => (.ok (), d)
  | i + 1 =>
    let (result, d) := d.fsRename fails (i + 1) (i + 2)
    match ignoreMissing result with
    | .ok () => tryShift d i
    | .error e => (.error e, d)

/-- `rotation::rotate`, with a call that may fail. -/
def tryRotate (d : Directory) (keepBackups : ℕ) : Except FsError Unit × Directory :=
  if keepBackups = 0 then
    let (result, d) := d.fsRemove fails 0
    (ignoreMissing result, d)
  else
    match d.tryShift fails (keepBackups - 1) with
    | (.ok (), d) =>
      let (result, d) := d.fsRename fails 0 1
      (ignoreMissing result, d)
    | (.error e, d) => (.error e, d)

end

/-- The directory after failed attempts, each failing at the call for a slot. -/
def failures (keepBackups : ℕ) (d : Directory) (slots : List ℕ) : Directory :=
  slots.foldl (fun d j => (d.tryRotate (some j) keepBackups).2) d

/-- What the active path and the slots hold. -/
def bytes (d : Directory) (i : ℕ) : Option Bytes := (d i).map (·.bytes)

end Directory

namespace RotatingFileWriter

/-- `rotate_and_reopen`, with a call of the rotation that may fail. -/
def tryRotateAndReopen (w : RotatingFileWriter) (fails : Option ℕ) :
    Except FsError Unit × RotatingFileWriter :=
  match w.files.tryRotate fails w.policy.keepBackups with
  | (.ok (), files) => (.ok (), { w with files := files.create, currentSize := 0 })
  | (.error e, files) => (.error e, { w with files })

/-- `write_line`, with a call of the rotation that may fail; the line is written
    if the rotation succeeds. -/
def tryWriteLine (w : RotatingFileWriter) (line : Bytes) (fails : Option ℕ) :
    Except FsError Unit × RotatingFileWriter :=
  let (result, w) := if w.full line then w.tryRotateAndReopen fails else (.ok (), w)
  match result with
  | .ok () =>
    let file := w.files.active
    (.ok (), { w with
      files := Function.update w.files 0 (some { file with bytes := file.bytes ++ line ++ [newline] })
      currentSize := w.currentSize + (line.length + 1) })
  | .error e => (.error e, w)

end RotatingFileWriter

namespace Directory

/-! ## Renames of successive slots -/

/-- The renames of `count` slots by one, from the highest one down to `lo`. -/
def chain (d : Directory) (lo : ℕ) : ℕ → Directory
  | 0 => d
  | count + 1 => chain (d.rename (lo + count) (lo + count + 1)) lo count

theorem rename_succ_apply (d : Directory) (s i : ℕ) : d.rename s (s + 1) i =
    if i = s then none else if i = s + 1 then (d s).or (d (s + 1)) else d i := by
  split_ifs with hs ht
  · rw [hs, rename_source]
  · subst ht
    unfold rename
    cases h : d s with
    | none => rfl
    | some f =>
      dsimp only
      rw [Function.update_of_ne hs, Function.update_self, Option.some_or]
  · exact rename_apply d hs ht

/-- The lowest rename is the last one. -/
theorem chain_bottom (d : Directory) (lo count : ℕ) :
    d.chain lo (count + 1) = (d.chain (lo + 1) count).rename lo (lo + 1) := by
  induction count generalizing d with
  | zero => rfl
  | succ count ih =>
    rw [chain, ih, chain]
    simp only [Nat.add_assoc, Nat.add_comm count 1]

theorem shift_eq_chain (d : Directory) (n : ℕ) : d.shift n = d.chain 1 n := by
  induction n generalizing d with
  | zero => rfl
  | succ n ih =>
    rw [shift, ih, chain]
    simp only [Nat.add_comm 1 n]

/-- A rotation is one chain of renames, down to the active file. -/
theorem rotate_eq_chain (d : Directory) {keep : ℕ} (h : 0 < keep) : d.rotate keep = d.chain 0 keep := by
  obtain ⟨k, rfl⟩ := Nat.exists_eq_succ_of_ne_zero h.ne'
  rw [rotate, if_neg (by omega), shift_eq_chain, Nat.succ_sub_one, chain_bottom]

/-- **What a chain leaves in each slot**: the lowest slot is free, the others have
    moved up by one, and the file in the highest one is overwritten if there is
    one to do it. -/
theorem chain_apply (d : Directory) (lo count i : ℕ) : d.chain lo (count + 1) i =
    if i = lo then none
    else if lo < i ∧ i ≤ lo + count then d (i - 1)
    else if i = lo + count + 1 then (d (lo + count)).or (d (lo + count + 1))
    else d i := by
  induction count generalizing lo i with
  | zero =>
    rw [show d.chain lo (0 + 1) = d.rename lo (lo + 1) from rfl, rename_succ_apply,
      if_neg (show ¬ (lo < i ∧ i ≤ lo + 0) by omega)]
    rfl
  | succ count ih =>
    rw [chain_bottom, rename_succ_apply]
    by_cases hlo : i = lo
    · rw [if_pos hlo, if_pos hlo]
    · rw [if_neg hlo, if_neg hlo]
      by_cases hnext : i = lo + 1
      · -- the slot above the lowest was free, and takes its file
        rw [if_pos hnext, if_pos ⟨by omega, by omega⟩, ih, ih, if_pos rfl, if_neg (by omega),
          if_neg (by omega), if_neg (by omega), Option.or_none, hnext, Nat.add_sub_cancel]
      · rw [if_neg hnext, ih, if_neg hnext]
        have htop : lo + 1 + count = lo + (count + 1) := by omega
        rw [htop]
        by_cases hmid : lo < i ∧ i ≤ lo + (count + 1)
        · rw [if_pos hmid, if_pos ⟨by omega, by omega⟩]
        · rw [if_neg hmid, if_neg (by omega)]

/-! ## Attempts -/

variable {fails : Option ℕ}

theorem fsRename_failed (d : Directory) (source target : ℕ) :
    d.fsRename (some source) source target = (.error .other, d) := if_pos rfl

theorem fsRename_ok (d : Directory) (source target : ℕ) (h : fails ≠ some source) :
    ignoreMissing (d.fsRename fails source target).1 = .ok () ∧
      (d.fsRename fails source target).2 = d.rename source target := by
  unfold fsRename rename
  rw [if_neg h]
  cases d source with
  | none => exact ⟨rfl, rfl⟩
  | some f => exact ⟨rfl, rfl⟩

theorem tryShift_ok (d : Directory) {n : ℕ} (h : ∀ j, fails = some j → j = 0 ∨ n < j) :
    d.tryShift fails n = (.ok (), d.shift n) := by
  induction n generalizing d with
  | zero => rfl
  | succ n ih =>
    have hne : fails ≠ some (n + 1) := by
      intro heq
      have := h _ heq
      omega
    obtain ⟨hok, hd⟩ := d.fsRename_ok (n + 1) (n + 2) hne
    rw [tryShift]
    simp only [hok, hd]
    rw [ih _ fun j hj => (h j hj).imp_right (by omega), shift]

/-- A shift that fails at a slot has made the renames above it. -/
theorem tryShift_failed (d : Directory) {n j : ℕ} (hj : 0 < j) (hn : j ≤ n) :
    d.tryShift (some j) n = (.error .other, d.chain (j + 1) (n - j)) := by
  induction n generalizing d with
  | zero => omega
  | succ n ih =>
    rw [tryShift]
    by_cases htop : j = n + 1
    · subst htop
      rw [fsRename_failed, Nat.sub_self]
      rfl
    · have hne : some j ≠ some (n + 1) := fun heq => htop (Option.some.inj heq)
      obtain ⟨hok, hd⟩ := d.fsRename_ok (n + 1) (n + 2) hne
      have hle : j ≤ n := by omega
      simp only [hok, hd]
      rw [ih _ hle, show n + 1 - j = (n - j) + 1 by omega, chain,
        show j + 1 + (n - j) = n + 1 by omega]

/-- An attempt whose calls succeed is a rotation. -/
theorem tryRotate_ok (d : Directory) (keep : ℕ) : d.tryRotate none keep = (.ok (), d.rotate keep) := by
  unfold tryRotate rotate
  split_ifs with hk
  · unfold fsRemove
    cases h : d 0 with
    | none =>
      have hsame : Function.update d 0 none = d := by rw [← h, Function.update_eq_self]
      rw [hsame]
      rfl
    | some f => rfl
  · rw [tryShift_ok d (by rintro j ⟨⟩)]
    have hne : (none : Option ℕ) ≠ some 0 := by rintro ⟨⟩
    obtain ⟨hok, hd⟩ := (d.shift (keep - 1)).fsRename_ok 0 1 hne
    exact Prod.ext hok hd

/-- **A failed attempt has made the renames above the slot it fails at.** -/
theorem tryRotate_failed (d : Directory) {keep j : ℕ} (h : j < max keep 1) :
    d.tryRotate (some j) keep = (.error .other, d.chain (j + 1) (keep - 1 - j)) := by
  unfold tryRotate
  split_ifs with hk
  · obtain rfl : j = 0 := by omega
    rw [hk, fsRemove, if_pos rfl]
    rfl
  · by_cases hj : j = 0
    · subst hj
      rw [tryShift_ok d (by rintro j ⟨⟩; exact .inl rfl)]
      simp only [fsRename_failed]
      rw [shift_eq_chain]
      rfl
    · rw [tryShift_failed d (by omega) (by omega)]

/-- The slots that a later rotation moves, after a failed attempt. -/
theorem failed_apply (d : Directory) {keep i : ℕ} (j : ℕ) (hi : i + 1 < keep) :
    d.chain (j + 1) (keep - 1 - j) i = if i ≤ j then d i else if i = j + 1 then none else d (i - 1) := by
  by_cases hj : keep - 1 ≤ j
  · rw [show keep - 1 - j = 0 by omega, if_pos (by omega)]
    rfl
  · obtain ⟨m, hm⟩ : ∃ m, keep - 1 - j = m + 1 := ⟨keep - 2 - j, by omega⟩
    rw [hm, chain_apply]
    grind

/-! ## Attempts that lose nothing -/

/-- A failed attempt at slot `j` moves no backup but the last but one. -/
def Spared (d : Directory) (keep j : ℕ) : Prop := ∀ i, j < i → i + 1 < keep → d i = none

variable {d : Directory} {keep j : ℕ}

theorem Spared.rotate (h : d.Spared keep j) (hj : j < max keep 1) :
    (d.chain (j + 1) (keep - 1 - j)).rotate keep = d.rotate keep := by
  rcases Nat.eq_zero_or_pos keep with rfl | hkeep
  · rw [show 0 - 1 - j = 0 by omega]
    rfl
  by_cases hlast : j = keep - 1
  · rw [show keep - 1 - j = 0 by omega]
    rfl
  obtain ⟨k, hk⟩ : ∃ k, keep = k + 1 := ⟨keep - 1, by omega⟩
  obtain ⟨m, hm⟩ : ∃ m, keep - 1 - j = m + 1 := ⟨keep - 2 - j, by omega⟩
  -- below the last backup nothing has moved
  have hlow : ∀ i, i + 1 < keep → d.chain (j + 1) (keep - 1 - j) i = d i := by
    intro i hi
    rw [failed_apply d j hi]
    split_ifs with hle hnext
    · rfl
    · exact (h i (by omega) hi).symm
    · rw [h i (by omega) hi, h (i - 1) (by omega) (by omega)]
  have hvacant : d.chain (j + 1) (keep - 1 - j) k = none := by
    rw [hm, chain_apply]
    split_ifs with hbottom hmid htop
    · rfl
    · exact h _ (by omega) (by omega)
    · omega
    · omega
  have htop : d.chain (j + 1) (keep - 1 - j) (k + 1) = (d k).or (d (k + 1)) := by
    rw [hm, chain_apply, if_neg (by omega), if_neg (by omega), if_pos (by omega),
      show j + 1 + m = k by omega]
  have habove : ∀ i, k + 1 < i → d.chain (j + 1) (keep - 1 - j) i = d i := by
    intro i hi
    rw [hm, chain_apply, if_neg (by omega), if_neg (by omega), if_neg (by omega)]
  funext i
  rw [rotate_eq_chain _ hkeep, rotate_eq_chain _ hkeep, hk, chain_apply, chain_apply, ← hk]
  simp only [Nat.zero_add]
  split_ifs with hbottom hmid hend
  · rfl
  · exact hlow (i - 1) (by omega)
  · rw [hvacant, htop, Option.none_or]
  · exact habove i (by omega)

/-- Attempts that lose nothing leave it so. -/
theorem Spared.failed (h : d.Spared keep j) {j' : ℕ} (h' : d.Spared keep j') :
    (d.chain (j' + 1) (keep - 1 - j')).Spared keep j := by
  intro i hji hi
  rw [failed_apply d j' hi]
  split_ifs with hle hnext
  · exact h i hji hi
  · rfl
  · exact h' (i - 1) (by omega) (by omega)

theorem failures_cons (d : Directory) (j : ℕ) (slots : List ℕ) (hj : j < max keep 1) :
    failures keep d (j :: slots) = failures keep (d.chain (j + 1) (keep - 1 - j)) slots := by
  rw [failures, List.foldl_cons, d.tryRotate_failed hj]
  rfl

theorem failures_spared {slots : List ℕ} (hslots : ∀ j ∈ slots, j < max keep 1)
    (h : ∀ j ∈ slots, d.Spared keep j) : (failures keep d slots).rotate keep = d.rotate keep := by
  induction slots generalizing d with
  | nil => rfl
  | cons j slots ih =>
    obtain ⟨hj, hslots⟩ := List.forall_mem_cons.1 hslots
    obtain ⟨hspared, hrest⟩ := List.forall_mem_cons.1 h
    rw [failures_cons d j slots hj, ih hslots fun j' hj' => (hrest j' hj').failed hspared]
    exact hspared.rotate hj

/-! ## Attempts that move a backup too far -/

/-- Slots above `least` are free up to `i`. -/
def Vacant (d : Directory) (least i : ℕ) : Prop := ∀ k, least < k → k < i → d k = none

/-- **The lowest backup that an attempt moves** leaves its slot free for good:
    the slots below it that are moved are free. -/
theorem failures_vacates {least i : ℕ} (hi : i + 1 < keep) {slots : List ℕ}
    (hslots : ∀ j ∈ slots, j < max keep 1 ∧ least ≤ j) (hv : d.Vacant least i)
    (h : d i = none ∨ ∃ j ∈ slots, j < i) : failures keep d slots i = none := by
  induction slots generalizing d with
  | nil =>
    rcases h with h | ⟨j, hj, -⟩
    · exact h
    · cases hj
  | cons j slots ih =>
    obtain ⟨⟨hj, hleast⟩, hslots⟩ := List.forall_mem_cons.1 hslots
    rw [failures_cons d j slots hj]
    have hv' : (d.chain (j + 1) (keep - 1 - j)).Vacant least i := by
      intro k hk hki
      rw [failed_apply d j (by omega)]
      split_ifs with hle hnext
      · exact hv k hk hki
      · rfl
      · exact hv (k - 1) (by omega) (by omega)
    refine ih hslots hv' ?_
    by_cases hji : j < i
    · left
      rw [failed_apply d j hi, if_neg (by omega)]
      split_ifs with hnext
      · rfl
      · exact hv (i - 1) (by omega) (by omega)
    · rw [failed_apply d j hi, if_pos (by omega)]
      refine h.imp_right ?_
      rintro ⟨j', hj', hlt⟩
      rcases List.mem_cons.1 hj' with rfl | hj'
      · exact absurd hlt hji
      · exact ⟨j', hj', hlt⟩

/-- A rotation moves what is below the last backup up by one slot. -/
theorem rotate_succ_apply (d : Directory) {keep i : ℕ} (hi : i + 1 < keep) :
    d.rotate keep (i + 1) = d i := by
  obtain ⟨k, hk⟩ : ∃ k, keep = k + 1 := ⟨keep - 1, by omega⟩
  rw [rotate_eq_chain d (by omega), hk, chain_apply, if_neg (by omega), if_pos ⟨by omega, by omega⟩,
    Nat.add_sub_cancel]

theorem spared_of_rotate {slots : List ℕ} (hslots : ∀ j ∈ slots, j < max keep 1)
    (h : ((failures keep d slots).rotate keep).bytes = (d.rotate keep).bytes) :
    ∀ j ∈ slots, d.Spared keep j := by
  by_contra hmoved
  -- the lowest backup that some attempt moves
  have hexists : ∃ i, i + 1 < keep ∧ d i ≠ none ∧ ∃ j ∈ slots, j < i := by
    unfold Spared at hmoved
    push Not at hmoved
    obtain ⟨j, hj, i, hji, hi, hd⟩ := hmoved
    exact ⟨i, hi, hd, j, hj, hji⟩
  classical
  obtain ⟨hi, hd, j₀, hj₀, hlt₀⟩ := Nat.find_spec hexists
  have hmin := fun k => Nat.find_min (H := hexists) (m := k)
  -- the lowest slot that an attempt fails at
  have hslot : ∃ j, j ∈ slots := ⟨j₀, hj₀⟩
  have hleast := Nat.find_spec hslot
  have hv : d.Vacant (Nat.find hslot) (Nat.find hexists) := by
    intro k hk hki
    by_contra hne
    exact hmin k hki ⟨by omega, hne, _, hleast, hk⟩
  have hnone := failures_vacates hi (fun j hj => ⟨hslots j hj, Nat.find_min' hslot hj⟩) hv
    (.inr ⟨j₀, hj₀, hlt₀⟩)
  have hslot := congrFun h (Nat.find hexists + 1)
  rw [bytes, bytes, rotate_succ_apply _ hi, rotate_succ_apply _ hi, hnone] at hslot
  exact hd (Option.map_eq_none_iff.1 hslot.symm)

end Directory

/-! ## Lines -/

namespace RotatingFileWriter

/-- Lines whose rotations fail, each with the slot of the call that fails. -/
def failLines (w : RotatingFileWriter) (lines : List (Bytes × ℕ)) : RotatingFileWriter :=
  lines.foldl (fun w line => (w.tryWriteLine line.1 (some line.2)).2) w

theorem tryWriteLine_failed {w : RotatingFileWriter} {line : Bytes} {j : ℕ}
    (hfull : w.full line = true) (hj : j < max w.policy.keepBackups 1) :
    w.tryWriteLine line (some j) = (.error .other,
      { w with files := (w.files.tryRotate (some j) w.policy.keepBackups).2 }) := by
  rw [tryWriteLine, if_pos hfull, tryRotateAndReopen, w.files.tryRotate_failed hj]

/-- **Lines whose rotations fail** are attempts and nothing else: no line is
    written, and the file stays full. -/
theorem failLines_eq {w : RotatingFileWriter} {lines : List (Bytes × ℕ)}
    (h : ∀ line ∈ lines, w.full line.1 = true ∧ line.2 < max w.policy.keepBackups 1) :
    w.failLines lines =
      { w with files := w.files.failures w.policy.keepBackups (lines.map Prod.snd) } := by
  induction lines generalizing w with
  | nil => rfl
  | cons line lines ih =>
    obtain ⟨⟨hfull, hj⟩, hrest⟩ := List.forall_mem_cons.1 h
    rw [failLines, List.foldl_cons, tryWriteLine_failed hfull hj]
    exact ih hrest

end RotatingFileWriter

/-- **A retried rotation is one rotation** exactly when every failed attempt
    failed at a slot with no file between it and the last backup but one.  Lines
    whose rotations fail are such attempts. -/
theorem retry_iff {d : Directory} {keep : ℕ} {slots : List ℕ} (h : ∀ j ∈ slots, j < max keep 1) :
    (∀ d' : Directory, ∀ j ∈ slots, (d'.tryRotate (some j) keep).1 = .error .other) ∧
    (∀ d' : Directory, (d'.tryRotate none keep).1 = .ok ()) ∧
    (((d.failures keep slots).tryRotate none keep).2.bytes = (d.tryRotate none keep).2.bytes ↔
      ∀ j ∈ slots, ∀ i, j < i → i + 1 < keep → d i = none) ∧
    ∀ (w : RotatingFileWriter) (lines : List (Bytes × ℕ)), w.files = d →
      w.policy.keepBackups = keep → lines.map Prod.snd = slots →
      (∀ line ∈ lines, w.full line.1 = true) →
      w.failLines lines = { w with files := d.failures keep slots } := by
  refine ⟨?_, ?_, ?_, ?_⟩
  · intro d' j hj
    rw [d'.tryRotate_failed (h j hj)]
  · intro d'
    rw [d'.tryRotate_ok]
  · rw [Directory.tryRotate_ok, Directory.tryRotate_ok]
    constructor
    · exact Directory.spared_of_rotate h
    · intro hspared
      rw [Directory.failures_spared h hspared]
  · rintro w lines rfl rfl rfl hfull
    refine RotatingFileWriter.failLines_eq fun line hline => ⟨hfull line hline, ?_⟩
    exact h _ (List.mem_map_of_mem hline)

/-- An active file and two backups, each with its slot as contents. -/
def twoBackups : Directory := fun i => if i < 3 then some ⟨[UInt8.ofNat i], []⟩ else none

/-- The last rename fails twice, with room for two backups. -/
theorem retry_iff_two : ((twoBackups.failures 2 [0, 0]).tryRotate none 2).2.bytes =
    (twoBackups.tryRotate none 2).2.bytes :=
  (@retry_iff twoBackups 2 [0, 0] (by decide)).2.2.1.2 (by omega)

/-- With room for three backups, one failure of the last rename loses one of two. -/
theorem retry_loses_backup :
    (twoBackups.tryRotate none 3).2.retained 3 = [[2], [1], [0]] ∧
    (twoBackups.tryRotate (some 0) 3).1 = .error .other ∧
    ((twoBackups.failures 3 [0]).tryRotate none 3).2.retained 3 = [[1], [0]] ∧
    ((twoBackups.failures 3 [0]).tryRotate none 3).2.bytes ≠ (twoBackups.tryRotate none 3).2.bytes := by
  refine ⟨by decide, rfl, by decide, ?_⟩
  intro heq
  exact absurd (congrFun heq 2) (by decide)

end Eventline
