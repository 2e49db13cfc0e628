/-
  The file writers (`journal/writer.rs`) with rotation (`journal/rotation.rs`).

  A file is its bytes.  A `write_all` appends everything, or fails after some
  proper prefix; the other calls on files succeed.  Each file also keeps the
  records whose `write_record` on it returned `Ok`; no code reads that list.
-/
import Eventline.Journal
import Eventline.Replay.Loader
import Eventline.Lib.Machine

namespace Eventline

open Text

/-- A log file, and the records acknowledged as written to it. -/
structure LogFile where
  bytes : Bytes
  acknowledged : List Record

/-- A file just created. -/
def LogFile.empty : LogFile := ⟨[], []⟩

/-- The results of the two `write_all` calls that write a line: `some n` is a
    failure after `n` bytes. -/
structure WriteResults where
  line : Option ℕ
  newline : Option ℕ

/-- Both calls succeed. -/
def WriteResults.ok : WriteResults := ⟨none, none⟩

def WriteResults.isOk (w : WriteResults) : Bool := w.line.isNone && w.newline.isNone

/-- A failure leaves a proper prefix. -/
def WriteResults.fits (w : WriteResults) (line : Bytes) : Bool :=
  w.line.all (fun n => n < line.length) && w.newline.all fun n => n < 1

/-- A call of a `Writer`, and how its writes go. -/
structure WriteCall where
  call : WriterCall
  results : WriteResults

/-- The line of a call, for a sink with the style JSONL. -/
def WriterCall.line (serde : SerdeJson) (runId : String) : WriterCall → Bytes
  | .scope s => renderScopeJsonl serde s runId
  | .record r s => renderJsonlInRun serde r s runId

/-- The record that a call acknowledges when it succeeds. -/
def WriterCall.acknowledges : WriterCall → Option Record
  | .scope _ => none
  | .record r _ => some r

namespace LogFile

/-- The bytes of two `write_all` calls, the second made if the first succeeds. -/
def appendLine (bytes line : Bytes) (results : WriteResults) : Bytes :=
  match results.line with
  | some n => bytes ++ line.take n
  | none =>
    match results.newline with
    | some n => bytes ++ line ++ [newline].take n
    | none => bytes ++ line ++ [newline]

/-- A call that writes a line to the file. -/
def write (serde : SerdeJson) (runId : String) (f : LogFile) (c : WriteCall) : LogFile where
  bytes := appendLine f.bytes (c.call.line serde runId) c.results
  acknowledged :=
    if c.results.isOk then f.acknowledged ++ c.call.acknowledges.toList else f.acknowledged

end LogFile

/-! ## FileWriter -/

structure FileWriter where
  file : LogFile
  runId : String

namespace FileWriter

/-- `FileWriter::with_style` on a path with the given contents, if it exists. -/
def withStyle (contents : Option Bytes) (runId : String) : FileWriter :=
  ⟨⟨contents.getD [], []⟩, runId⟩

/-- `write_scope` and `write_record`. -/
def step (serde : SerdeJson) (w : FileWriter) (c : WriteCall) : Option FileWriter :=
  if c.results.fits (c.call.line serde w.runId) then
    some { w with file := w.file.write serde w.runId c }
  else none

end FileWriter

/-! ## RotatingFileWriter -/

structure LogPolicy where
  maxBytes : ℕ
  keepBackups : ℕ

/-- The files at the log path (slot 0) and at its rotated names. -/
abbrev Directory := ℕ → Option LogFile

namespace Directory

/-- `fs::rename`, a missing source being ignored. -/
def rename (d : Directory) (source target : ℕ) : Directory :=
  match d source with
  | some f => Function.update (Function.update d target (some f)) source none
  | none => d

/-- The shift of the backups by one slot, from `i` down to 1. -/
def shift (d : Directory) : ℕ → Directory
  | 0 => d
  | i + 1 => shift (d.rename (i + 1) (i + 2)) i

/-- `rotation::rotate`. -/
def rotate (d : Directory) (keepBackups : ℕ) : Directory :=
  if keepBackups = 0 then Function.update d 0 none
  else (d.shift (keepBackups - 1)).rename 0 1

/-- `OpenOptions::create(true).append(true)` on the log path. -/
def create (d : Directory) : Directory :=
  match d 0 with
  | some _ => d
  | none => Function.update d 0 (some .empty)

/-- The file that the writer has open. -/
def active (d : Directory) : LogFile := (d 0).getD .empty

end Directory

structure RotatingFileWriter where
  files : Directory
  policy : LogPolicy
  currentSize : ℕ
  runId : String

namespace RotatingFileWriter

/-- `RotatingFileWriter::with_style`; the path is no directory. -/
def withStyle (files : Directory) (policy : LogPolicy) (runId : String) : RotatingFileWriter :=
  match files 0 with
  | none => ⟨files.create, policy, 0, runId⟩
  | some f =>
    if 0 < policy.maxBytes ∧ policy.maxBytes ≤ f.bytes.length then
      ⟨(files.rotate policy.keepBackups).create, policy, 0, runId⟩
    else ⟨files, policy, f.bytes.length, runId⟩

def rotateAndReopen (w : RotatingFileWriter) : RotatingFileWriter :=
  { w with files := (w.files.rotate w.policy.keepBackups).create, currentSize := 0 }

/-- `u64::saturating_add`. -/
def saturatingAdd (a b : ℕ) : ℕ := min (a + b) (2 ^ 64 - 1)

/-- A line of the given length would exceed the limit. -/
def full (w : RotatingFileWriter) (line : Bytes) : Bool :=
  0 < w.policy.maxBytes && 0 < w.currentSize &&
    w.policy.maxBytes < saturatingAdd w.currentSize (line.length + 1)

/-- The writer when a line is written: rotated, if the file is full. -/
def ready (w : RotatingFileWriter) (line : Bytes) : RotatingFileWriter :=
  if w.full line then w.rotateAndReopen else w

/-- `write_line`, for the line of a call. -/
def writeLine (serde : SerdeJson) (w : RotatingFileWriter) (c : WriteCall) : RotatingFileWriter :=
  let line := c.call.line serde w.runId
  let w := w.ready line
  { w with
    files := Function.update w.files 0 (some (w.files.active.write serde w.runId c))
    currentSize := if c.results.isOk then w.currentSize + (line.length + 1) else w.currentSize }

/-- `write_scope` and `write_record`. -/
def step (serde : SerdeJson) (w : RotatingFileWriter) (c : WriteCall) : Option RotatingFileWriter :=
  if c.results.fits (c.call.line serde w.runId) then some (w.writeLine serde c) else none

/-- `rotation::rotated_name`, and the log path itself for slot 0. -/
def pathOf (path : String) : ℕ → String
  | 0 => path
  | n + 1 => path ++ "." ++ toString (n + 1)

/-- The retained backups, oldest first, then the active file. -/
def inputFiles (w : RotatingFileWriter) (path : String) : List InputFile :=
  (List.range (w.policy.keepBackups + 1)).reverse.filterMap fun i =>
    (w.files i).map fun f => ⟨some (pathOf path i), f.bytes⟩

end RotatingFileWriter

end Eventline
