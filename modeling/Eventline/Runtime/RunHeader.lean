/-
  Run headers (`runtime/run_header.rs`) and what a load makes of them.

  * `RunHeader.render`, `RotatingFileWriter.writeHeader`: the line and how it is
    written.
  * `decodings`: what the lines of a file are, blank lines apart.
  * `header_recognised_iff`: a header that is written is found by a load, and
    nothing else changes, exactly if its title has no newline.
-/
import Eventline.Replay.Headers
import Eventline.Runtime.Config
import Eventline.Wire.Reference
import Eventline.Writer.Rotation

namespace Eventline

open Text Checked

namespace RunHeader

/-- The label; `pid` is `std::process::id()`. -/
def inner (h : RunHeader) (pid : UInt32) : String :=
  if h.showPid then " " ++ h.title ++ " (pid=" ++ toString pid ++ ") " else " " ++ h.title ++ " "

def padding (h : RunHeader) (pid : UInt32) : ℕ :=
  if (h.inner pid).utf8ByteSize + 4 < h.width then h.width - (h.inner pid).utf8ByteSize else 4

/-- `"=".repeat(n)`. -/
def border (n : ℕ) : String := .ofList (List.replicate n '=')

def render (h : RunHeader) (pid : UInt32) : String :=
  let left := h.padding pid / 2
  let right := h.padding pid - left
  border left ++ h.inner pid ++ border right

theorem utf8_border (n : ℕ) : utf8 (border n) = List.replicate n 61 := by
  have hbyte : String.utf8EncodeChar '=' = [61] := rfl
  rw [border, utf8_ofList, List.flatMap_replicate, hbyte, List.flatten_replicate_singleton]

/-- The label is in a border of at least two bytes on each side. -/
theorem utf8_render (h : RunHeader) (pid : UInt32) : ∃ left right,
    utf8 (h.render pid) =
      [61, 61] ++ List.replicate left 61 ++ utf8 (h.inner pid) ++ (List.replicate right 61 ++ [61, 61]) := by
  have hpadding : 4 ≤ h.padding pid := by
    unfold padding
    split_ifs
    · omega
    · exact le_rfl
  obtain ⟨left, hleft⟩ := Nat.exists_eq_add_of_le (show 2 ≤ h.padding pid / 2 by omega)
  obtain ⟨right, hright⟩ :=
    Nat.exists_eq_add_of_le' (show 2 ≤ h.padding pid - h.padding pid / 2 by omega)
  refine ⟨left, right, ?_⟩
  rw [render, utf8_append, utf8_append, utf8_border, utf8_border, hright, hleft,
    List.replicate_add, List.replicate_add]
  rfl

theorem newline_notMem_toString (pid : UInt32) : '\n' ∉ (toString pid).toList := by
  intro h
  have htext : toString pid = toString pid.toNat := rfl
  rw [htext, Nat.toString_eq_repr, Nat.toList_repr] at h
  exact absurd (Nat.isDigit_of_mem_toDigits (by decide) le_rfl h) (by decide)

/-- The only newlines of a header are those of its title. -/
theorem newline_mem_render {h : RunHeader} {pid : UInt32} :
    newline ∈ utf8 (h.render pid) ↔ '\n' ∈ h.title.toList := by
  have hborder : ∀ n, '\n' ∉ (border n).toList := by
    intro n hn
    rw [border, String.toList_ofList] at hn
    exact absurd (List.eq_of_mem_replicate hn) (by decide)
  rw [newline_mem_utf8, render, String.toList_append, String.toList_append, List.mem_append,
    List.mem_append, or_iff_left (hborder _), or_iff_right (hborder _)]
  unfold inner
  split_ifs
  · simp [newline_notMem_toString pid]
  · simp

/-- A header is read as one, if it is read as one line. -/
theorem classify_render (serde : SerdeJson) (h : RunHeader) (pid : UInt32) :
    classify serde (utf8 (h.render pid) ++ [newline]) = .header (h.render pid) := by
  obtain ⟨left, right, hbytes⟩ := h.utf8_render pid
  have hpre : [61, 61].isPrefixOf (utf8 (h.render pid)) = true := by
    rw [hbytes]
    rfl
  have hsuffix : [61, 61] <:+ utf8 (h.render pid) := by
    rw [hbytes, ← List.append_assoc]
    exact List.suffix_append _ _
  have hpost : [61, 61].isSuffixOf (utf8 (h.render pid)) = true := List.isSuffixOf_iff_suffix.2 hsuffix
  have hlast : (utf8 (h.render pid)).getLast? = some 61 := by
    obtain ⟨label, hlabel⟩ := hsuffix
    rw [← hlabel]
    simp
  have htrim : trimAscii (utf8 (h.render pid)) = utf8 (h.render pid) := by
    have hfirst : (utf8 (h.render pid)).head? = some 61 := by
      rw [hbytes]
      rfl
    have hframed : trimAscii ([] ++ utf8 (h.render pid) ++ []) = utf8 (h.render pid) :=
      trimAscii_framed (List.forall_mem_nil _) (List.forall_mem_nil _) hfirst hlast rfl rfl
    rwa [List.nil_append, List.append_nil] at hframed
  have hne : (utf8 (h.render pid)).isEmpty = false := by
    rw [hbytes]
    rfl
  unfold classify headerText
  rw [trimAscii_newline, htrim, hne, hpre, hpost, fromUtf8_utf8]
  rfl

end RunHeader

namespace RotatingFileWriter

/-- The separator that `write_header` writes first, unless the file is empty;
    `current_size` is a `u64`. -/
def writeSeparator (w : RotatingFileWriter) : Checked RotatingFileWriter :=
  if 0 < w.currentSize then do
    let currentSize ← add w.currentSize 1
    let file := w.files.active
    pure { w with
      files := Function.update w.files 0 (some { file with bytes := file.bytes ++ [newline] })
      currentSize }
  else pure w

/-- `write_header`, all its calls succeeding. -/
def writeHeader (w : RotatingFileWriter) (header : Bytes) : Checked RotatingFileWriter := do
  let w ← w.writeSeparator
  let file := w.files.active
  pure { w with
    files := Function.update w.files 0 (some { file with bytes := file.bytes ++ header ++ [newline] })
    currentSize := saturatingAdd w.currentSize (header.length + 1) }

end RotatingFileWriter

/-- The contents of a file that a header is written to, with the separator. -/
def separated (bytes : Bytes) : Bytes := if bytes = [] then [] else bytes ++ [newline]

theorem separated_ends (bytes : Bytes) :
    separated bytes = [] ∨ (separated bytes).getLast? = some newline := by
  unfold separated
  split_ifs
  · exact .inl rfl
  · exact .inr List.getLast?_concat

theorem active_update (d : Directory) (f : LogFile) :
    Directory.active (Function.update d 0 (some f)) = f := by
  rw [Directory.active, Function.update_self]
  rfl

/-- What a header leaves in the active file. -/
theorem writeHeader_active {w w' : RotatingFileWriter} {header : Bytes} (hw : w.Sized)
    (h : w.writeHeader header = .ok w') :
    w'.files.active.bytes = separated w.files.active.bytes ++ header ++ [newline] := by
  obtain ⟨f, hf, hsize⟩ := hw
  have hactive : w.files.active = f := by
    rw [Directory.active, hf]
    rfl
  obtain ⟨u, hu, h⟩ := bind_eq_ok.1 h
  obtain rfl := Except.ok.inj h
  rw [active_update]
  suffices hseparated : u.files.active.bytes = separated w.files.active.bytes by rw [hseparated]
  unfold RotatingFileWriter.writeSeparator at hu
  rw [hactive, hsize] at hu
  rw [hactive, separated]
  split_ifs at hu with hpos
  · obtain ⟨size, -, hu⟩ := bind_eq_ok.1 hu
    obtain rfl := Except.ok.inj hu
    rw [active_update, if_neg (List.ne_nil_of_length_pos hpos)]
  · obtain rfl := Except.ok.inj hu
    have hnil : f.bytes = [] := List.eq_nil_of_length_eq_zero (by omega)
    rw [if_pos hnil, hactive, hnil]

/-! ## Lines -/

def LineClass.isBlank : LineClass → Bool
  | .blank => true
  | _ => false

/-- What the lines of a file are, each on its own; blank lines are left out. -/
def decodings (serde : SerdeJson) (bytes : Bytes) : List LineClass :=
  ((rawLines bytes).map (classify serde)).filter fun c => !c.isBlank

section
variable (serde : SerdeJson)

theorem decodings_append {xs : Bytes} (h : xs = [] ∨ xs.getLast? = some newline) (ys : Bytes) :
    decodings serde (xs ++ ys) = decodings serde xs ++ decodings serde ys := by
  rw [decodings, rawLines_append h, List.map_append, List.filter_append]
  rfl

/-- A separator does not change what the lines before it are. -/
theorem decodings_separated (bytes : Bytes) :
    decodings serde (separated bytes) = decodings serde bytes := by
  unfold separated
  split_ifs with hnil
  · rw [hnil]
  · have hlast : decodings serde (lastLine bytes ++ [newline]) = decodings serde (lastLine bytes) := by
      have hn := newline_notMem_lastLine bytes
      have hclass : classify serde (lastLine bytes ++ [newline]) = classify serde (lastLine bytes) := by
        unfold classify
        rw [trimAscii_newline]
      rw [decodings, rawLines_line hn []]
      by_cases hempty : lastLine bytes = []
      · rw [hempty]
        rfl
      · rw [decodings, rawLines_last hn hempty, List.map_cons, hclass]
        rfl
    rw [decodings, rawLines_grow, List.map_append, List.filter_append]
    have hsplit := decodings_append serde (endedPart_ends bytes) (lastLine bytes)
    rw [endedPart_append_lastLine] at hsplit
    rw [hsplit, ← hlast]
    rfl

/-- The headers that a load reads in a file. -/
theorem headersOf_file (f : InputFile) :
    headersOf serde (inputLines [f]) = (decodings serde f.bytes).filterMap LineClass.header? := by
  have hlines : ∀ (raws : List Bytes) (n : ℕ), ((raws.zipIdx n).map fun l =>
      (⟨f.source, l.2, l.1⟩ : InputLine)).filterMap (fun line => (classify serde line.raw).header?) =
      ((raws.map (classify serde)).filter fun c => !c.isBlank).filterMap LineClass.header? := by
    intro raws
    induction raws with
    | nil => exact fun _ => rfl
    | cons raw raws ih =>
      intro n
      rw [List.zipIdx_cons, List.map_cons, List.filterMap_cons, ih, List.map_cons]
      cases classify serde raw <;> rfl
  rw [headersOf, inputLines, List.flatMap_singleton]
  exact hlines _ 1

/-- No header has a newline. -/
theorem newline_notMem_header {bytes : Bytes} {text : String}
    (h : .header text ∈ decodings serde bytes) : newline ∉ utf8 text := by
  obtain ⟨raw, hraw, hclass⟩ := List.mem_map.1 (List.mem_filter.1 h).1
  have hn := (rawLines_isLines bytes).newline_notMem_trimAscii hraw
  unfold classify at hclass
  split_ifs at hclass
  split at hclass
  · rename_i text' htext
    obtain rfl := LineClass.header.inj hclass
    unfold headerText at htext
    split_ifs at htext
    rwa [utf8_of_fromUtf8 htext]
  · split at hclass <;> cases hclass

end

/-- In `file`, the header between what was there `before` and what comes `after`
    is read as one: a load has its text once more than the headers of the other
    lines, no issue is about a line with it, and the other lines are what they
    are without it. -/
structure Recognised (serde : SerdeJson) (source : Option String) (before after file : Bytes)
    (text : String) : Prop where
  others : decodings serde file = decodings serde before ++ .header text :: decodings serde after
  loaded : ∃ saved, load serde [⟨source, file⟩] = .ok saved ∧
    (saved.runs.flatMap (·.headers)).Perm
      (text :: (decodings serde before ++ decodings serde after).filterMap LineClass.header?) ∧
    ∀ e ∈ saved.issues, ∀ n raw, e.line = some (n + 1) → (rawLines file)[n]? = some raw →
      LineClass.header? (classify serde raw) ≠ some text

section
variable {serde : SerdeJson} {source : Option String} {before after file : Bytes} {text : String}

/-- What is recognised is one line. -/
theorem Recognised.newline_notMem (h : Recognised serde source before after file text) :
    newline ∉ utf8 text := by
  have hmem : .header text ∈ decodings serde file := by
    rw [h.others]
    exact List.mem_append_right _ List.mem_cons_self
  exact newline_notMem_header serde hmem

/-- **One line that is read as a header** is recognised. -/
theorem recognised (hs : serde.Lawful) (hn : newline ∉ utf8 text)
    (hclass : classify serde (utf8 text ++ [newline]) = .header text)
    (hfile : file = separated before ++ utf8 text ++ [newline] ++ after) :
    Recognised serde source before after file text := by
  have hothers : decodings serde file =
      decodings serde before ++ .header text :: decodings serde after := by
    have hline : utf8 text ++ [newline] ++ after = utf8 text ++ newline :: after := by simp
    have hdecoded : decodings serde (utf8 text ++ newline :: after) =
        .header text :: decodings serde after := by
      rw [decodings, rawLines_line hn, List.map_cons, hclass]
      rfl
    rw [hfile, List.append_assoc, List.append_assoc, ← List.append_assoc (utf8 text), hline,
      decodings_append serde (separated_ends before), decodings_separated, hdecoded]
  obtain ⟨saved, hload, hheaders, hissues⟩ := load_headers hs [⟨source, file⟩]
  refine ⟨hothers, saved, hload, ?_, ?_⟩
  · rw [headersOf_file, hothers, List.filterMap_append] at hheaders
    rw [List.filterMap_append]
    exact hheaders.trans List.perm_middle
  · intro e he n raw hline hraw hheader
    rcases hissues e he with hnone | ⟨line, hmem, -, hnumber, hdata⟩
    · rw [hline] at hnone
      cases hnone
    · -- the line with the number is the one that the issue is about
      have hline' : (rawLines file)[n]? = some line.raw := by
        rw [inputLines, List.flatMap_singleton] at hmem
        obtain ⟨⟨raw', k⟩, hk, rfl⟩ := List.mem_map.1 hmem
        rw [hline] at hnumber
        obtain rfl := Option.some.inj hnumber
        simpa using List.mk_mem_zipIdx_iff_le_and_getElem?_sub.1 hk
      obtain rfl := Option.some.inj (hraw.symm.trans hline')
      cases hc : classify serde line.raw with
      | blank | rejected | entry =>
        rw [hc] at hheader
        cases hheader
      | header text =>
        rw [hc] at hdata
        cases hdata

end

/-- **A header is recognised exactly if its title has no newline**, at whatever
    point of a log file it is written, and whatever follows. -/
theorem header_recognised_iff {serde : SerdeJson} (hs : serde.Lawful) {files : Directory}
    {policy : LogPolicy} {runId : String} {lines : List Bytes} {w w' : RotatingFileWriter}
    (hw : lines.foldlM RotatingFileWriter.writeText (.withStyle files policy runId) = .ok w)
    {header : RunHeader} {pid : UInt32} (hheader : w.writeHeader (utf8 (header.render pid)) = .ok w')
    (source : Option String) (after : Bytes) :
    Recognised serde source w.files.active.bytes after (w'.files.active.bytes ++ after)
        (header.render pid) ↔
      '\n' ∉ header.title.toList := by
  have hsized : w.Sized :=
    ((RotatingFileWriter.withStyle_rotated files policy runId).writeTexts hw).sized
  constructor
  · exact fun h hn => h.newline_notMem (RunHeader.newline_mem_render.2 hn)
  · intro hn
    refine recognised hs (mt RunHeader.newline_mem_render.1 hn) (header.classify_render serde pid) ?_
    rw [writeHeader_active hsized hheader]

/-- A log file with an unfinished line. -/
def unfinished : Directory := fun i => if i = 0 then some ⟨[123], []⟩ else none

/-- The header comes on a line of its own. -/
theorem header_recognised_unfinished :
    ∃ w w' : RotatingFileWriter, w = .withStyle unfinished ⟨0, 0⟩ "run" ∧
      w.writeHeader (utf8 ((⟨"my-daemon", true, 72⟩ : RunHeader).render 18432)) = .ok w' ∧
      Recognised compactSerde none [123] [] (w'.files.active.bytes ++ [])
        ((⟨"my-daemon", true, 72⟩ : RunHeader).render 18432) := by
  have hopened : [].foldlM RotatingFileWriter.writeText (.withStyle unfinished ⟨0, 0⟩ "run") =
      .ok (.withStyle unfinished ⟨0, 0⟩ "run") := rfl
  exact ⟨_, _, rfl, rfl, (header_recognised_iff compactSerde_lawful hopened rfl none []).2 (by decide)⟩

/-- A header with a title of two lines is not. -/
theorem header_of_two_lines : ∃ w' : RotatingFileWriter,
    (RotatingFileWriter.withStyle (fun _ => none) ⟨0, 0⟩ "run").writeHeader
      (utf8 ((⟨"first\nsecond", false, 72⟩ : RunHeader).render 0)) = .ok w' ∧
    ¬ Recognised compactSerde none [] [] (w'.files.active.bytes ++ [])
      ((⟨"first\nsecond", false, 72⟩ : RunHeader).render 0) :=
  ⟨_, rfl, fun h => h.newline_notMem (RunHeader.newline_mem_render.2 (by decide))⟩

end Eventline
