/-
  Loading what the journals of a process have saved.

  A process makes any number of journals.  Each is exported, or writes to a file,
  at any moments, and what is saved of them comes to the loader in any order and
  number, and among anything else.

  * `nthRunId_injective`: the journals have run ids of their own.
  * `saved_journals_recovered`: each journal is loaded once, from its own lines
    and truthfully, and whatever it showed in an export that is there is loaded.
-/
import Eventline.Views

namespace Eventline

open Text Checked

/-! ## Run ids -/

/-- The value of a hexadecimal digit. -/
def hexValue (c : Char) : ℕ := if c.toNat < 58 then c.toNat - 48 else c.toNat - 87

theorem hexValue_digitChar : ∀ d < 16, hexValue (Nat.digitChar d) = d := by decide

/-- The digits of a number in base 16 can be read back. -/
theorem foldl_hexValue_toDigits (n : ℕ) :
    (Nat.toDigits 16 n).foldl (fun acc c => acc * 16 + hexValue c) 0 = n := by
  induction n using Nat.base_induction 16 (by decide) with
  | single m hm =>
    rw [Nat.toDigits_of_lt_base hm]
    simp [hexValue_digitChar m hm]
  | digit m d hd hm ih =>
    rw [← Nat.toDigits_append_toDigits (by decide) hm hd, List.foldl_append, ih,
      Nat.toDigits_of_lt_base hd]
    simp [hexValue_digitChar d hd, Nat.mul_comm]

theorem hexDigits_injective : Function.Injective hexDigits := by
  intro a b hab
  have ha := foldl_hexValue_toDigits a.toNat
  have hb := foldl_hexValue_toDigits b.toNat
  unfold hexDigits at hab
  rw [hab, hb] at ha
  exact UInt64.toNat_inj.1 ha.symm

theorem newRunId_injective (process : UInt64 × UInt64) : Function.Injective (newRunId process) := by
  intro a b hab
  have hlist := congrArg String.toList hab
  simp only [newRunId, String.toList_append, String.toList_ofList] at hlist
  exact hexDigits_injective (List.append_cancel_left hlist)

/-- The run id of a journal, by the number of journals that the process has made
    before it. -/
def nthRunId (process : UInt64 × UInt64) (next : UInt64) (i : ℕ) : String :=
  newRunId process (next + UInt64.ofNat i)

theorem nthRunId_injective (process : UInt64 × UInt64) (next : UInt64) {k : ℕ} (hk : k ≤ 2 ^ 64) :
    Function.Injective fun i : Fin k => nthRunId process next i := by
  intro i j hij
  have hsum : next + UInt64.ofNat i = next + UInt64.ofNat j := newRunId_injective process hij
  have hnat : UInt64.ofNat i = UInt64.ofNat j := add_left_cancel hsum
  have hval := congrArg UInt64.toNat hnat
  rw [UInt64.toNat_ofNat_of_lt' (i.isLt.trans_le hk), UInt64.toNat_ofNat_of_lt' (j.isLt.trans_le hk)]
    at hval
  exact Fin.ext hval

/-! ## Lines of a journal -/

/-- The calls lead to `s`, and no counter has wrapped. -/
structure JournalRun.After (runId : String) (calls : List JournalCall) (s : JournalRun) : Prop where
  run : Machine.run JournalRun.step (.new runId) calls = some s
  allowed : Machine.Meets JournalRun.step JournalRun.Allowed (.new runId) calls
  entered : s.entered.length ≤ 2 ^ 64
  taken : s.taken.length ≤ 2 ^ 64

/-- The line is there, ended or not. -/
def InputLine.IsText (line : InputLine) (text : Bytes) : Prop :=
  line.raw = text ∨ line.raw = text ++ [newline]

section
variable {serde : SerdeJson} (hs : serde.Lawful) {runId : String} (hne : runId ≠ "")
include hs hne

theorem InputLine.IsText.classify_eq {line : InputLine} {text : Bytes} (h : line.IsText text)
    {p : Parts} (hp : Rendered serde runId text p) :
    classify serde line.raw = .entry ⟨some runId, p⟩ := by
  rcases h with h | h
  · simpa [h] using hp.classify_line hs hne (List.forall_mem_nil _) (List.forall_mem_nil _)
  · have hpost : ∀ b ∈ [newline], isAsciiWhitespace b = true := by simp [newline]; rfl
    simpa [h] using hp.classify_line hs hne (List.forall_mem_nil _) hpost

/-- A rendered line of the input is one of its run. -/
theorem mem_linesOf {files : List InputFile} {line : InputLine} (hline : line ∈ inputLines files)
    {text : Bytes} (h : line.IsText text) {p : Parts} (hp : Rendered serde runId text p) :
    ∃ rl ∈ linesOf serde runId files, rl.parts = p := by
  have hof : line.ofRun serde runId = some ⟨line.source, line.number, p⟩ :=
    InputLine.ofRun_eq_some.2 ⟨h.classify_eq hs hne hp, rfl⟩
  exact ⟨_, List.mem_filterMap.2 ⟨line, hline, hof⟩, rfl⟩

end

/-- What the input has of a run was saved by its journal. -/
def SavedBy (serde : SerdeJson) (runId : String) (calls : List JournalCall)
    (files : List InputFile) : Prop :=
  ∀ line ∈ inputLines files, belongs serde runId line.raw = true →
    ∃ text, SavedDuring serde runId calls text ∧ line.IsText text

/-- The lines of a run are views of it. -/
theorem SavedBy.view {serde : SerdeJson} (hs : serde.Lawful) {runId : String} (hne : runId ≠ "")
    {calls : List JournalCall} {s : JournalRun} (h : JournalRun.After runId calls s)
    {files : List InputFile} (hsaved : SavedBy serde runId calls files) :
    ∀ rl ∈ linesOf serde runId files,
      ∃ p : Parts, JournalRun.View runId calls p ∧ rl.parts = p.reread serde := by
  intro rl hrl
  obtain ⟨line, hline, hof⟩ := List.mem_filterMap.1 hrl
  have hc := (InputLine.ofRun_eq_some.1 hof).1
  have hbelongs : belongs serde runId line.raw = true := by
    rw [belongs, hc]
    exact decide_eq_true rfl
  obtain ⟨text, hduring, htext⟩ := hsaved line hline hbelongs
  obtain ⟨p, hrendered, hview⟩ := run_saved h.run h.allowed h.entered h.taken hduring
  have hentry := LineClass.entry.inj (hc.symm.trans (htext.classify_eq hs hne hrendered))
  exact ⟨p, hview, (DecodedLine.mk.inj hentry).2⟩

/-! ## Loading -/

/-- All that the journal holds is loaded: its records, as they are read, and its
    scopes with their exits. -/
structure SavedRun.Covers (run : SavedRun) (serde : SerdeJson) (j : Journal) : Prop where
  records : ∀ r ∈ j.records, r.reread serde ∈ run.records
  scopes : ∀ x ∈ j.scopes, ∃ y ∈ run.scopes, y.id = x.id ∧ y.parent = x.parent ∧
    y.enteredAt = x.enteredAt ∧ y.name = x.name ∧ (x.exitedAt ≠ none → y.exitedAt = x.exitedAt)

/-- A loaded run retells the run of a journal: its scopes are what its lines make
    of the lives that the journal has shown, its records were pushed, and every
    export that the input has in full is covered. -/
structure SavedRun.Retells (run : SavedRun) (serde : SerdeJson) (files : List InputFile)
    (runId : String) (calls : List JournalCall) (s : JournalRun) (lives : List Life) : Prop where
  ids : lives.map (·.scope.id) = s.entered
  shown : ∀ p, JournalRun.View runId calls p → Told lives s.pushed p
  recovered : Recovered lives (linesOf serde runId files) run
  pushed : ∀ r ∈ run.records, r ∈ s.pushed.map (Record.reread serde)
  covers : ∀ before t, before <+: calls →
    Machine.run JournalRun.step (.new runId) before = some t →
    (∀ text ∈ t.journal.recordsJsonl serde, ∃ line ∈ inputLines files, line.IsText text) →
    run.Covers serde t.journal

section
variable {serde : SerdeJson} (hs : serde.Lawful) {runId : String} (hne : runId ≠ "")
  {calls : List JournalCall} {s : JournalRun} (h : JournalRun.After runId calls s)
  {lives : List Life} (hv : JournalRun.Viewed runId calls s lives) {files : List InputFile}
  {run : SavedRun} (hr : Recovered lives (linesOf serde runId files) run)
include hs hne hv hr

/-- A copy of a scope among the lines is loaded. -/
theorem Recovered.covers_scope {line : InputLine} (hline : line ∈ inputLines files) {x : Scope}
    (hx : JournalRun.View runId calls ⟨none, some x⟩)
    (htext : line.IsText (renderScopeJsonl serde x runId)) :
    ∃ y ∈ run.scopes, y.id = x.id ∧ y.parent = x.parent ∧ y.enteredAt = x.enteredAt ∧
      y.name = x.name ∧ (x.exitedAt ≠ none → y.exitedAt = x.exitedAt) := by
  obtain ⟨rl, hrl, hparts⟩ := mem_linesOf hs hne hline htext (.scope x)
  have hmem : x ∈ scopesIn (linesOf serde runId files) :=
    List.mem_filterMap.2 ⟨rl, hrl, by rw [hparts]⟩
  have hid : x.id ∈ (scopesIn (linesOf serde runId files)).map (·.id) := List.mem_map_of_mem hmem
  obtain ⟨y, hy, hyx⟩ : ∃ y ∈ run.scopes, y.id = x.id := by
    refine List.mem_map.1 ?_
    rw [hr.ids]
    exact List.mem_append_left _ (List.mem_eraseDups.2 hid)
  have hthere : y.id ∉ run.missingScopeMetadata :=
    fun hmissing => ((hr.missing y.id).1 hmissing).1 (hyx ▸ hid)
  -- both are copies of one life
  obtain ⟨l, hl, hlx⟩ := (hv.told hx).scope x rfl
  obtain ⟨l', hl', hly⟩ := hr.shows y hy hthere
  obtain rfl := hv.tracked.life_unique hl' hl (hly.id.symm.trans (hyx.trans hlx.id))
  refine ⟨y, hy, hyx, hly.parent.trans hlx.parent.symm, hly.enteredAt.trans hlx.enteredAt.symm,
    hly.name.trans hlx.name.symm, ?_⟩
  intro hexited
  obtain ⟨t, ht⟩ := Option.ne_none_iff_exists'.1 hexited
  obtain ⟨u, hu⟩ := Option.ne_none_iff_exists'.1 ((hr.closed y hy).2 ⟨x, hmem, hyx.symm, hexited⟩)
  obtain ⟨e, he, het⟩ := hlx.exitedAt t ht
  obtain ⟨e', he', heu⟩ := hly.exitedAt u hu
  obtain rfl := Option.some.inj (he.symm.trans he')
  rw [ht, hu, ← het, heu]

include h

/-- **An export that is there in full** is covered. -/
theorem Recovered.covers_export {before : List JournalCall} {t : JournalRun}
    (hbefore : before <+: calls) (ht : Machine.run JournalRun.step (.new runId) before = some t)
    (hall : ∀ text ∈ t.journal.recordsJsonl serde, ∃ line ∈ inputLines files, line.IsText text) :
    run.Covers serde t.journal := by
  obtain ⟨after, rfl⟩ := hbefore
  obtain ⟨u, hu, hrest⟩ := Machine.run_append_eq_some.1 h.run
  obtain rfl := Option.some.inj (ht.symm.trans hu)
  have hle := JournalRun.run_counts hrest
  obtain ⟨lives', hv'⟩ := JournalRun.run_viewed ht (Machine.meets_append.1 h.allowed).1
    (hle.1.trans h.entered) (hle.2.trans h.taken)
  constructor
  · intro r hmem
    obtain ⟨hrendered, -⟩ := hv'.rendered_record serde hmem
    obtain ⟨line, hline, htext⟩ := hall _ (List.mem_append_right _ (List.mem_map_of_mem hmem))
    obtain ⟨rl, hrl, hparts⟩ := mem_linesOf hs hne hline htext hrendered
    exact hr.mem_records.2 (List.mem_filterMap.2 ⟨rl, hrl, by rw [hparts]⟩)
  · intro x hx
    obtain ⟨line, hline, htext⟩ := hall _ (List.mem_append_left _ (List.mem_map_of_mem hx))
    rw [hv'.named] at htext
    exact hr.covers_scope hs hne hv hline
      ⟨before, t, List.prefix_append _ _, ht, Journal.holds_scope hx⟩ htext

end

/-- **What journals save is recovered.**  For any number of journals of a process
    and any calls on them, and for any input whose lines of their runs were exported
    or written by them at some moments: the load reports no contradiction at any of
    these lines, and has each journal that has a line there as one run, which
    retells it. -/
theorem saved_journals_recovered {serde : SerdeJson} (hs : serde.Lawful)
    (process : UInt64 × UInt64) (next : UInt64) {k : ℕ} (hk : k ≤ 2 ^ 64)
    (calls : Fin k → List JournalCall) (s : Fin k → JournalRun) (files : List InputFile)
    (hruns : ∀ i : Fin k, JournalRun.After (nthRunId process next i) (calls i) (s i))
    (hsaved : ∀ i : Fin k, SavedBy serde (nthRunId process next i) (calls i) files) :
    ∃ saved, load serde files = .ok saved ∧
      saved.QuietAbout serde (Set.range fun i : Fin k => nthRunId process next i) files ∧
      ∀ i : Fin k, linesOf serde (nthRunId process next i) files ≠ [] → ∃ run lives,
        saved.runs.filter (fun run => run.runId = some (nthRunId process next i)) = [run] ∧
        run.Retells serde files (nthRunId process next i) (calls i) (s i) lives := by
  have hne : ∀ i : Fin k, nthRunId process next i ≠ "" := fun i => newRunId_ne _ _
  have hinj := nthRunId_injective process next hk
  choose lives hv using fun i => JournalRun.run_viewed (hruns i).run (hruns i).allowed
    (hruns i).entered (hruns i).taken
  have hfinal := fun i => JournalRun.run_final (hruns i).run (hruns i).entered (hruns i).taken
  -- the lives and the records of each run id
  have hlives : ∀ i : Fin k, Function.extend (fun i : Fin k => nthRunId process next i) lives
      (fun _ => []) (nthRunId process next i) = lives i := fun i => hinj.extend_apply _ _ i
  have hpool : ∀ i : Fin k, Function.extend (fun i : Fin k => nthRunId process next i)
      (fun i => (s i).pushed.map (Record.reread serde)) (fun _ => []) (nthRunId process next i) =
        (s i).pushed.map (Record.reread serde) := fun i => hinj.extend_apply _ _ i
  have htold : ∀ i, AllTold (lives i) ((s i).pushed.map (Record.reread serde))
      (linesOf serde (nthRunId process next i) files) := by
    intro i rl hrl
    obtain ⟨p, hview, hparts⟩ := (hsaved i).view hs (hne i) (hruns i) rl hrl
    rw [hparts]
    exact ((hv i).told hview).reread serde
  obtain ⟨saved, hload, hquiet, hloaded⟩ := load_told_runs hs
    (Set.range fun i : Fin k => nthRunId process next i)
    (Function.extend (fun i : Fin k => nthRunId process next i) lives fun _ => [])
    (Function.extend (fun i : Fin k => nthRunId process next i)
      (fun i => (s i).pushed.map (Record.reread serde)) fun _ => [])
    (by rintro - ⟨i, rfl⟩; rw [hlives]; exact (hv i).tracked.ids)
    (by rintro - ⟨i, rfl⟩; rw [hlives]; exact fun l hl p hp => ((hv i).tracked.parents l hl p hp).1)
    (by rintro - ⟨i, rfl⟩; rw [hpool]; exact (hfinal i).oneEach serde)
    (by rintro - ⟨i, rfl⟩; rw [hlives, hpool]; exact htold i)
  refine ⟨saved, hload, hquiet, ?_⟩
  intro i hsome
  obtain ⟨run, hone, hrecovered⟩ := hloaded _ ⟨i, rfl⟩ hsome
  rw [hlives] at hrecovered
  refine ⟨run, lives i, hone, (hv i).ids, fun p hp => (hv i).told hp, hrecovered, ?_, ?_⟩
  · intro r hr
    exact (htold i).recordsIn (hrecovered.mem_records.1 hr)
  · intro before t hbefore ht hall
    exact hrecovered.covers_export hs (hne i) (hruns i) (hv i) hbefore ht hall

/-! ## Two journals and one file -/

/-- Input of nothing but lines that the journals have saved. -/
theorem savedBy_of_all {serde : SerdeJson} (hs : serde.Lawful) {process : UInt64 × UInt64}
    {next : UInt64} {k : ℕ} (hk : k ≤ 2 ^ 64) {calls : Fin k → List JournalCall}
    {s : Fin k → JournalRun} {files : List InputFile}
    (hruns : ∀ i : Fin k, JournalRun.After (nthRunId process next i) (calls i) (s i))
    (hall : ∀ line ∈ inputLines files, ∃ (i : Fin k) (text : Bytes),
      SavedDuring serde (nthRunId process next i) (calls i) text ∧ line.IsText text) (i : Fin k) :
    SavedBy serde (nthRunId process next i) (calls i) files := by
  intro line hline hbelongs
  obtain ⟨j, text, hduring, htext⟩ := hall line hline
  obtain ⟨p, hrendered, -⟩ := run_saved (hruns j).run (hruns j).allowed (hruns j).entered
    (hruns j).taken hduring
  rw [belongs, htext.classify_eq hs (newRunId_ne _ _) hrendered] at hbelongs
  obtain rfl := nthRunId_injective process next hk (Option.some.inj (of_decide_eq_true hbelongs))
  exact ⟨text, hduring, htext⟩

/-- The lines of a file with all of its lines ended. -/
theorem inputLines_unlines {lines : List Bytes} (h : ∀ line ∈ lines, newline ∉ line)
    (source : Option String) : (inputLines [⟨source, unlines lines⟩]).map (·.raw) =
      lines.map fun line => line ++ [newline] := by
  have hraw := rawLines_unlines h []
  rw [List.append_nil, rawLines_nil, List.append_nil] at hraw
  have hmap := congrArg (List.map Prod.snd) (map_inputLines [⟨source, unlines lines⟩])
  simpa [Function.comp_def, hraw] using hmap

/-- A journal that is exported, and one with a writer. -/
def twoJournals : Fin 2 → List JournalCall
  | 0 => [.op (.enterScope "load" 0 1000), .op (.record .info "started" .new 2000)]
  | 1 => [.setWriter ⟨true, []⟩, .op (.enterScope "request" 0 1000),
    .op (.exitScope ⟨0⟩ .success 9 2000 3000)]

theorem twoJournals_allowed (i : Fin 2) : ∀ c ∈ twoJournals i, ∀ s, JournalRun.Allowed s c := by
  intro c hc s
  fin_cases i
  · simp only [twoJournals, List.mem_cons, List.not_mem_nil, or_false] at hc
    rcases hc with rfl | rfl
    · exact ⟨by rintro p ⟨⟩, by rintro w ⟨⟩⟩
    · exact ⟨by rintro p ⟨⟩, by rintro w ⟨⟩⟩
  · simp only [twoJournals, List.mem_cons, List.not_mem_nil, or_false] at hc
    rcases hc with rfl | rfl | rfl
    · exact ⟨by rintro p ⟨⟩, by rintro w ⟨⟩; rfl⟩
    · exact ⟨by rintro p ⟨⟩, by rintro w ⟨⟩⟩
    · exact ⟨by rintro p ⟨⟩, by rintro w ⟨⟩⟩

theorem twoJournals_after (i : Fin 2) :
    ∃ s, JournalRun.After (nthRunId (1, 2) 0 i) (twoJournals i) s ∧ s.journal.records.length = 1 := by
  have hallowed := twoJournals_allowed i
  fin_cases i
  · exact ⟨_, ⟨rfl, Machine.meets_of_forall hallowed, by decide, by decide⟩, rfl⟩
  · exact ⟨_, ⟨rfl, Machine.meets_of_forall hallowed, by decide, by decide⟩, rfl⟩

theorem saved_journals_recovered_two : ∃ (s : Fin 2 → JournalRun) (file : InputFile)
    (saved : SavedJournal), (∀ i : Fin 2,
      JournalRun.After (nthRunId (1, 2) 0 i) (twoJournals i) (s i)) ∧
    load compactSerde [file] = .ok saved ∧ ∀ i : Fin 2, ∃ run,
      saved.runs.filter (fun run => run.runId = some (nthRunId (1, 2) 0 i)) = [run] ∧
      run.Covers compactSerde (s i).journal ∧ (s i).journal.records.length = 1 := by
  have hs := compactSerde_lawful
  choose s hruns hlength using twoJournals_after
  -- what they have saved in the end
  obtain ⟨lines, hlines⟩ : ∃ lines : List Bytes, ∀ text, text ∈ lines ↔
      ∃ i : Fin 2, text ∈ (s i).journal.savedLines compactSerde :=
    ⟨(s 0).journal.savedLines compactSerde ++ (s 1).journal.savedLines compactSerde, by
      simp [Fin.exists_fin_two]⟩
  have hduring : ∀ i, ∀ text ∈ (s i).journal.savedLines compactSerde,
      SavedDuring compactSerde (nthRunId (1, 2) 0 i) (twoJournals i) text :=
    fun i text htext => ⟨_, s i, List.prefix_refl _, (hruns i).run, htext⟩
  have hrendered : ∀ i, ∀ text ∈ (s i).journal.savedLines compactSerde,
      ∃ p, Rendered compactSerde (nthRunId (1, 2) 0 i) text p := by
    intro i text htext
    obtain ⟨p, hp, -⟩ := run_saved (hruns i).run (hruns i).allowed (hruns i).entered
      (hruns i).taken (hduring i text htext)
    exact ⟨_, hp⟩
  have hnewline : ∀ text ∈ lines, newline ∉ text := by
    intro text htext
    obtain ⟨i, hi⟩ := (hlines text).1 htext
    obtain ⟨p, hp⟩ := hrendered i text hi
    exact hp.newline_notMem hs
  have hraw := inputLines_unlines hnewline none
  have hall : ∀ line ∈ inputLines [⟨none, unlines lines⟩], ∃ (i : Fin 2) (text : Bytes),
      SavedDuring compactSerde (nthRunId (1, 2) 0 i) (twoJournals i) text ∧ line.IsText text := by
    intro line hline
    have hmem : line.raw ∈ (inputLines [⟨none, unlines lines⟩]).map (·.raw) :=
      List.mem_map_of_mem hline
    rw [hraw] at hmem
    obtain ⟨text, htext, heq⟩ := List.mem_map.1 hmem
    obtain ⟨i, hi⟩ := (hlines text).1 htext
    exact ⟨i, text, hduring i text hi, .inr heq.symm⟩
  have hthere : ∀ i, ∀ text ∈ (s i).journal.recordsJsonl compactSerde,
      ∃ line ∈ inputLines [⟨none, unlines lines⟩], line.IsText text := by
    intro i text htext
    have hmem : text ++ [newline] ∈ (inputLines [⟨none, unlines lines⟩]).map (·.raw) := by
      rw [hraw]
      exact List.mem_map.2 ⟨text, (hlines text).2 ⟨i, List.mem_append_left _ htext⟩, rfl⟩
    obtain ⟨line, hline, heq⟩ := List.mem_map.1 hmem
    exact ⟨line, hline, .inr heq⟩
  obtain ⟨saved, hload, -, hloaded⟩ := saved_journals_recovered hs (1, 2) 0 (by decide) twoJournals
    s _ hruns (savedBy_of_all hs (by decide) hruns hall)
  refine ⟨s, _, saved, hruns, hload, ?_⟩
  intro i
  have hsome : linesOf compactSerde (nthRunId (1, 2) 0 i) [⟨none, unlines lines⟩] ≠ [] := by
    obtain ⟨r, hr⟩ := List.exists_mem_of_length_pos (Nat.lt_of_lt_of_eq Nat.one_pos (hlength i).symm)
    have htext : renderJsonlInRun compactSerde r (r.scope.bind (indexScopes (s i).journal.scopes))
        (s i).journal.runId ∈ (s i).journal.recordsJsonl compactSerde :=
      List.mem_append_right _ (List.mem_map_of_mem hr)
    obtain ⟨line, hline, hline'⟩ := hthere i _ htext
    obtain ⟨p, hp⟩ := hrendered i _ (List.mem_append_left _ htext)
    obtain ⟨rl, hrl, -⟩ := mem_linesOf hs (newRunId_ne _ _) hline hline' hp
    exact List.ne_nil_of_mem hrl
  obtain ⟨run, lives, hone, hretells⟩ := hloaded i hsome
  exact ⟨run, hone, hretells.covers _ (s i) (List.prefix_refl _) (hruns i).run (hthere i), hlength i⟩

end Eventline
