/-
  The lines that the contents of a loaded run come from.

  * `Loaded.mem_log_iff`: the log of a load has the lines read as entries.
  * `exists_of_mem_recordsOf`, `exists_mem_recordsOf`: the records of a run are
    those that its entries carry, each kept or the same on the wire as one kept.
  * `Loaded.has_record`: a load has the record of every line that is read as one.
-/
import Eventline.Replay.Forest
import Eventline.Replay.Isolation

namespace Eventline

open Text Checked

/-- A load has a written record in a run: one that is the same on the wire as what
    the line of the record is read as, and the record itself if it has no doubles. -/
def SavedJournal.Has (serde : SerdeJson) (saved : SavedJournal) (runId : String) (r : Record) :
    Prop :=
  ∃ run ∈ saved.runs, run.runId = some runId ∧ ∃ x ∈ run.records,
    comparisonJson serde x = comparisonJson serde (r.reread serde) ∧ (r.doubleFree = true → x = r)

/-! ## The records of entries -/

section
variable {serde : SerdeJson}

theorem mem_absorbRecord_of_mem {l : List Record} {x : Record} (h : x ∈ l) (r : Record) :
    x ∈ absorbRecord serde l r := by
  unfold absorbRecord
  split_ifs
  · exact h
  · exact List.mem_append_left _ h

theorem mem_of_mem_absorbRecord {l : List Record} {x r : Record}
    (h : x ∈ absorbRecord serde l r) : x ∈ l ∨ x = r := by
  unfold absorbRecord at h
  split_ifs at h
  · exact .inl h
  · simpa using h

/-- A record that is absorbed is there, or one that is the same on the wire. -/
theorem exists_mem_absorbRecord (l : List Record) (r : Record) :
    ∃ x ∈ absorbRecord serde l r, comparisonJson serde x = comparisonJson serde r := by
  unfold absorbRecord
  split_ifs with h
  · obtain ⟨x, hfind, hx⟩ := (Option.any_eq_true _ _).1 h
    exact ⟨x, List.mem_of_find?_eq_some hfind, by simpa using hx⟩
  · exact ⟨r, by simp, rfl⟩

theorem recordsOf_concat (entries : List Fed) (e : Fed) :
    recordsOf serde (entries ++ [e]) =
      e.decoded.parts.record.elim (recordsOf serde entries)
        (absorbRecord serde (recordsOf serde entries)) := by
  rw [recordsOf, List.foldl_append]
  rfl

/-- No record is made up: an entry carries it. -/
theorem exists_of_mem_recordsOf {entries : List Fed} {r : Record}
    (h : r ∈ recordsOf serde entries) : ∃ e ∈ entries, e.decoded.parts.record = some r := by
  induction entries using List.reverseRecOn with
  | nil => cases h
  | append_singleton entries e ih =>
    have hlift : (∃ e' ∈ entries, e'.decoded.parts.record = some r) →
        ∃ e' ∈ entries ++ [e], e'.decoded.parts.record = some r := by
      rintro ⟨e', he', hr⟩
      exact ⟨e', List.mem_append_left _ he', hr⟩
    rw [recordsOf_concat] at h
    cases he : e.decoded.parts.record with
    | none =>
      rw [he] at h
      exact hlift (ih h)
    | some x =>
      rw [he] at h
      rcases mem_of_mem_absorbRecord h with h | rfl
      · exact hlift (ih h)
      · exact ⟨e, by simp, he⟩

/-- **No record is lost**: what an entry carries is there, on the wire. -/
theorem exists_mem_recordsOf {entries : List Fed} {r : Record}
    (h : ∃ e ∈ entries, e.decoded.parts.record = some r) :
    ∃ x ∈ recordsOf serde entries, comparisonJson serde x = comparisonJson serde r := by
  induction entries using List.reverseRecOn with
  | nil =>
    obtain ⟨e, he, -⟩ := h
    cases he
  | append_singleton entries e ih =>
    rw [recordsOf_concat]
    obtain ⟨e', he', hr⟩ := h
    rcases List.mem_append.1 he' with he' | he'
    · obtain ⟨x, hx, heq⟩ := ih ⟨e', he', hr⟩
      cases e.decoded.parts.record with
      | none => exact ⟨x, hx, heq⟩
      | some y => exact ⟨x, mem_absorbRecord_of_mem hx y, heq⟩
    · obtain rfl := List.mem_singleton.1 he'
      rw [hr]
      exact exists_mem_absorbRecord _ r

end

section
variable {serde : SerdeJson} {files : List InputFile} {saved : SavedJournal} {log : List Fed}
  {builders : List RunBuilder} (h : Loaded serde files saved log builders)
include h

/-- The log has the lines that are read as entries. -/
theorem Loaded.mem_log_iff (d : DecodedLine) :
    (∃ e ∈ log, e.decoded = d) ↔ ∃ line ∈ inputLines files, classify serde line.raw = .entry d := by
  have hmap : (∃ e ∈ log, e.decoded = d) ↔
      ∃ source, (source, d) ∈ log.map fun e => (e.source, e.decoded) := by
    simp only [List.mem_map, Prod.mk.injEq]
    constructor
    · rintro ⟨e, he, rfl⟩
      exact ⟨e.source, e, he, rfl, rfl⟩
    · rintro ⟨source, e, he, -, hd⟩
      exact ⟨e, he, hd⟩
  rw [hmap, h.entries]
  simp only [List.mem_filterMap]
  constructor
  · rintro ⟨source, line, hline, hentry⟩
    refine ⟨line, hline, ?_⟩
    unfold InputLine.entry at hentry
    split at hentry
    · rename_i hc
      rw [hc, (Prod.mk.inj (Option.some.inj hentry)).2]
    · cases hentry
  · rintro ⟨line, hline, hc⟩
    exact ⟨line.source, line, hline, by rw [InputLine.entry, hc]⟩

/-- The records of a loaded run are what its entries make. -/
theorem Loaded.records (hs : serde.Lawful) {i : ℕ} {run : SavedRun}
    (hrun : saved.runs[i]? = some run) : run.records = recordsOf serde (Loader.fedTo i log) := by
  obtain ⟨saved', log', hload, htrace, hcomplete⟩ := load_complete hs files
  obtain rfl := Except.ok.inj (h.load.symm.trans hload)
  obtain rfl := Except.ok.inj (h.trace.symm.trans htrace)
  exact (hcomplete i run hrun).retainedRecords

/-- **A load has the record** of every line that is read as one. -/
theorem Loaded.has_record (hs : serde.Lawful) {line : InputLine} (hline : line ∈ inputLines files)
    {runId : String} {r : Record} {s : Option Scope}
    (hc : classify serde line.raw = .entry ⟨some runId, ⟨some (r.reread serde), s⟩⟩) :
    saved.Has serde runId r := by
  obtain ⟨e, he, hd⟩ := (h.mem_log_iff _).2 ⟨line, hline, hc⟩
  have hindex := h.mem e he
  rw [← h.run_ids, List.getElem?_map, Option.map_eq_some_iff, hd] at hindex
  obtain ⟨run, hrun, hid⟩ := hindex
  have hfed : e ∈ Loader.fedTo e.index log := List.mem_filter.2 ⟨he, by simp⟩
  obtain ⟨x, hx, hwire⟩ : ∃ x ∈ recordsOf serde (Loader.fedTo e.index log),
      comparisonJson serde x = comparisonJson serde (r.reread serde) :=
    exists_mem_recordsOf ⟨e, hfed, by rw [hd]⟩
  refine ⟨run, List.mem_of_getElem? hrun, hid, x, ?_, hwire, ?_⟩
  · rw [h.records hs hrun]
    exact hx
  · -- records that are read can be exported, so without doubles the wire form is enough
    intro hfree
    have hpaired : ∀ e ∈ log, ∀ y, e.decoded.parts.record = some y → y.Paired none := by
      intro e' he' y hy
      obtain ⟨line', -, hc'⟩ := (h.mem_log_iff _).1 ⟨e', he', rfl⟩
      exact (decodeLine_paired (classify_entry hc') hy).alone
    obtain ⟨e₀, he₀, hx₀⟩ := exists_of_mem_recordsOf hx
    have hread := hpaired e he _ (by rw [hd])
    rw [Record.reread_of_doubleFree serde hfree] at hread hwire
    exact RunBuilder.eq_of_wire_eq hs (hpaired e₀ (List.mem_of_mem_filter he₀) x hx₀) hread hfree
      hwire

end

theorem mem_inputLines {files : List InputFile} {f : InputFile} (hf : f ∈ files) {raw : Bytes}
    (hraw : raw ∈ rawLines f.bytes) : ∃ line ∈ inputLines files, line.raw = raw := by
  have hm : (f.source, raw) ∈ (inputLines files).map fun line => (line.source, line.raw) := by
    rw [map_inputLines]
    exact List.mem_flatMap.2 ⟨f, hf, List.mem_map.2 ⟨raw, hraw, rfl⟩⟩
  obtain ⟨line, hline, heq⟩ := List.mem_map.1 hm
  exact ⟨line, hline, (Prod.mk.inj heq).2⟩

end Eventline
