/-
  Loads that report nothing about some runs.

  * `Peaceful`: gathering the lines of a run raises no issue.
  * `load_quiet`: if this holds of some runs, apart from the completion of runs
    all that is reported are lines of no such run.
  * `load_peaceful`: each of these runs is loaded once, as gathered.
-/
import Eventline.Replay.Isolation
import Eventline.Replay.Report

namespace Eventline

open Text Checked Slots

section
variable {serde : SerdeJson} {runId : String}

theorem InputLine.ofRun_eq_some {line : InputLine} {rl : RunLine} :
    line.ofRun serde runId = some rl ↔ classify serde line.raw = .entry ⟨some runId, rl.parts⟩ ∧
      rl = ⟨line.source, line.number, rl.parts⟩ := by
  unfold InputLine.ofRun
  constructor
  · intro h
    split at h
    · rename_i d hd
      obtain ⟨hid, hrl⟩ := Option.ite_none_right_eq_some.1 h
      obtain rfl := Option.some.inj hrl
      rw [hd, ← hid]
      exact ⟨rfl, rfl⟩
    · cases h
  · rintro ⟨hc, hrl⟩
    rw [hc]
    exact (if_pos rfl).trans (congrArg some hrl.symm)

/-- An entry of another run, or none at all. -/
theorem InputLine.ofRun_eq_none {line : InputLine}
    (h : ∀ parts, classify serde line.raw ≠ .entry ⟨some runId, parts⟩) :
    line.ofRun serde runId = none := by
  rw [Option.eq_none_iff_forall_ne_some]
  intro rl hrl
  exact h rl.parts (InputLine.ofRun_eq_some.1 hrl).1

/-- The line is an entry of one of the runs. -/
def InputLine.OfRuns (serde : SerdeJson) (ids : Set String) (line : InputLine) : Prop :=
  ∃ r ∈ ids, line.ofRun serde r ≠ none

/-- The lines of the run among those passed. -/
def linesAmong (serde : SerdeJson) (runId : String) (passed : List InputLine) : List RunLine :=
  passed.filterMap (InputLine.ofRun serde runId)

/-- Gathering the lines, from the first one on, raises no issue. -/
def Peaceful (serde : SerdeJson) (runId : String) (lines : List RunLine) : Prop :=
  ∀ xs, xs <+: lines → ∀ source, ∃ b, gather serde (.new (some runId) source) xs = .ok (b, [])

/-- The issues are at lines that are not of the runs. -/
def Quiet (serde : SerdeJson) (ids : Set String) (passed : List InputLine)
    (issues : List ReplayIssue) : Prop :=
  ∀ i ∈ issues, ∃ line ∈ passed, ¬ line.OfRuns serde ids ∧ i.source = line.source ∧
    i.line = some line.number

variable {ids : Set String} {passed : List InputLine} {issues more : List ReplayIssue}

theorem Quiet.mono (h : Quiet serde ids passed issues) (line : InputLine) :
    Quiet serde ids (passed ++ [line]) issues := by
  intro i hi
  obtain ⟨old, hold, hrest⟩ := h i hi
  exact ⟨old, List.mem_append_left _ hold, hrest⟩

/-- Another line may be reported. -/
theorem Quiet.other (h : Quiet serde ids passed issues) {line : InputLine}
    (hline : ¬ line.OfRuns serde ids)
    (hmore : ∀ i ∈ more, i.source = line.source ∧ i.line = some line.number) :
    Quiet serde ids (passed ++ [line]) (issues ++ more) := by
  intro i hi
  rcases List.mem_append.1 hi with hi | hi
  · exact h.mono line i hi
  · exact ⟨line, by simp, hline, hmore i hi⟩

/-- A line that is no entry. -/
theorem InputLine.not_ofRuns {line : InputLine} (h : ∀ d, classify serde line.raw ≠ .entry d) :
    ¬ line.OfRuns serde ids := by
  rintro ⟨r, -, hr⟩
  exact hr (InputLine.ofRun_eq_none fun _ => h _)

/-- Choosing a versioned run reports nothing. -/
theorem selectRun_versioned {l l' : Loader} {source : Option String} {n i : ℕ} {d : DecodedLine}
    (hd : d.runId = some runId) (h : l.selectRun source n d = .ok (l', i)) :
    l'.issues = l.issues := by
  rw [Loader.selectRun, hd] at h
  obtain rfl : (l.versionedRun runId source).1 = l' := congrArg Prod.fst (Except.ok.inj h)
  unfold Loader.versionedRun
  cases l.byId runId <;> rfl

variable (hs : serde.Lawful)
include hs

/-- **An accepted entry** is not reported if it is of one of the runs. -/
theorem Quiet.accept {l l₁ l' : Loader} (hwf : l.WF) (hg : Gathered serde l passed)
    (h : Quiet serde ids passed l.issues) {line : InputLine} {d : DecodedLine}
    (hc : classify serde line.raw = .entry d) {i : ℕ}
    (hrun : l.selectRun line.source line.number d = .ok (l₁, i))
    (hmerge : l₁.mergeAt serde i line.source line.number d.parts = .ok l')
    (hpeace : ∀ r ∈ ids, Peaceful serde r (linesAmong serde r (passed ++ [line]))) :
    Quiet serde ids (passed ++ [line]) l'.issues := by
  obtain ⟨l₁', i', hrun', hsel⟩ := Loader.selectRun_ok hwf line.source line.number d
  obtain ⟨rfl, rfl⟩ := Prod.mk.inj (Except.ok.inj (hrun'.symm.trans hrun))
  obtain ⟨added, hadded, hat⟩ := Loader.selectRun_issues hrun
  obtain ⟨b, hb, hbid⟩ : ∃ b, l₁'.runs[i']? = some b ∧ b.run.runId = d.runId := by
    have hid := hsel.id
    rw [Loader.ids, List.getElem?_map, Option.map_eq_some_iff] at hid
    exact hid
  obtain ⟨hbwf, -⟩ := hsel.wf.runs b (List.mem_of_getElem? hb)
  obtain ⟨b', conflicts, hm, -⟩ := RunBuilder.merge_ok hs
    (hbwf.withHeaders (b.run.headers ++ l₁'.headers)) d.parts
  rw [Loader.mergeAt, index_ok hb, ok_bind, hm] at hmerge
  obtain rfl := Except.ok.inj hmerge
  show Quiet serde ids (passed ++ [line]) (l₁'.issues ++ _)
  by_cases hd : ∃ r ∈ ids, d.runId = some r
  · -- what the run has so far is gathered from its lines, and this one adds to it
    obtain ⟨r, hr, hd⟩ := hd
    have hof : line.ofRun serde r = some ⟨line.source, line.number, d.parts⟩ :=
      InputLine.ofRun_eq_some.2 ⟨by rw [hc, ← hd], rfl⟩
    have hlines : linesAmong serde r (passed ++ [line]) =
        linesAmong serde r passed ++ [⟨line.source, line.number, d.parts⟩] := by
      simp [linesAmong, hof]
    have hr := hpeace r hr
    rw [hlines] at hr
    obtain ⟨lines, raised, hgather, -, -, hof⟩ := hg.selected hsel hb
    obtain rfl : lines = linesAmong serde r passed := hof r (hbid.trans hd)
    obtain ⟨b₀, hgather₀⟩ := hr _ (List.prefix_append _ _) b.source
    rw [← hd, ← hbid] at hgather₀
    obtain ⟨rfl, rfl⟩ := Prod.mk.inj (Except.ok.inj (hgather.symm.trans hgather₀))
    obtain ⟨b₁, hgather₁⟩ := hr _ (List.prefix_refl _) b.source
    rw [← hd, ← hbid, gather_concat, hgather, ok_bind, gatherLine, merge_reheaded hm [],
      ok_bind] at hgather₁
    obtain ⟨-, hnone⟩ := Prod.mk.inj (Except.ok.inj hgather₁)
    obtain rfl : conflicts = [] := by simpa using hnone
    rw [List.map_nil, List.append_nil, selectRun_versioned hd hrun]
    exact h.mono line
  · have hother : ¬ line.OfRuns serde ids := by
      rintro ⟨r, hr, hline⟩
      refine hline (InputLine.ofRun_eq_none fun parts hparts => hd ⟨r, hr, ?_⟩)
      obtain rfl := LineClass.entry.inj (hc.symm.trans hparts)
      rfl
    rw [hadded, List.append_assoc]
    refine h.other hother fun x hx => ?_
    rcases List.mem_append.1 hx with hx | hx
    · exact hat x hx
    · obtain ⟨c, -, rfl⟩ := List.mem_map.1 hx
      exact ⟨rfl, rfl⟩

omit hs in
theorem Peaceful.of_isPrefix {xs ys : List RunLine} (h : Peaceful serde runId ys) (hxs : xs <+: ys) :
    Peaceful serde runId xs := fun zs hzs => h zs (hzs.trans hxs)

/-- **Reading the input** reports no line of the runs. -/
theorem quiet_ok (lines : List InputLine) {l : Loader} {log : List Fed} {passed : List InputLine}
    (hwf : l.WF) (hl : Loader.Logged serde l log) (hg : Gathered serde l passed)
    (h : Quiet serde ids passed l.issues)
    (hpeace : ∀ r ∈ ids, Peaceful serde r (linesAmong serde r (passed ++ lines))) :
    ∃ l', lines.foldlM (Loader.readRaw serde) l = .ok l' ∧
      Quiet serde ids (passed ++ lines) l'.issues := by
  induction lines generalizing l log passed with
  | nil => exact ⟨l, rfl, by rwa [List.append_nil]⟩
  | cons line lines ih =>
    rw [List.append_cons] at hpeace ⊢
    -- a line that is no entry
    have hskip : ∀ (l' : Loader) more, l'.runs = l.runs → l'.issues = l.issues ++ more →
        (∀ d, classify serde line.raw ≠ .entry d) →
        (∀ i ∈ more, i.source = line.source ∧ i.line = some line.number) →
        Gathered serde l' (passed ++ [line]) ∧ Quiet serde ids (passed ++ [line]) l'.issues := by
      intro l' more hruns hissues hline hmore
      constructor
      · exact hg.skip hline hruns fun x hx => hissues ▸ List.mem_append_left _ hx
      · rw [hissues]
        exact h.other (InputLine.not_ofRuns hline) hmore
    rw [List.foldlM_cons, Loader.readRaw_eq]
    cases hc : classify serde line.raw with
    | blank =>
      obtain ⟨hg', hq'⟩ := hskip l [] rfl (List.append_nil _).symm (by simp [hc]) (by simp)
      exact ih hwf hl hg' hq' hpeace
    | header text =>
      obtain ⟨hg', hq'⟩ := hskip { l with headers := l.headers ++ [text], legacy := none } [] rfl
        (List.append_nil _).symm (by simp [hc]) (by simp)
      exact ih ⟨hwf.runs, hwf.byId, hwf.distinct, by simp⟩ ⟨hl.mem, hl.fed⟩ hg' hq' hpeace
    | rejected reason =>
      obtain ⟨hg', hq'⟩ := hskip (l.issue line.source line.number reason.1 reason.2) _ rfl rfl
        (by simp [hc]) (by simp)
      exact ih ⟨hwf.runs, hwf.byId, hwf.distinct, hwf.legacy⟩ ⟨hl.mem, hl.fed⟩ hg' hq' hpeace
    | entry d =>
      obtain ⟨l₁, i, l₂, hsel, hmerge, hwf₂, hl₂, -⟩ :=
        Loader.accept_ok hs hwf hl line.source line.number d
      have hpassed : ∀ r ∈ ids, Peaceful serde r (linesAmong serde r (passed ++ [line])) := by
        intro r hr
        refine (hpeace r hr).of_isPrefix ?_
        exact (List.prefix_append _ _).filterMap _
      obtain ⟨l', hfold, hq'⟩ := ih hwf₂ hl₂ (hg.accept hs hwf hc hsel hmerge)
        (h.accept hs hwf hg hc hsel hmerge hpassed) hpeace
      refine ⟨l', ?_, hq'⟩
      simp only [Loader.accept, hsel, hmerge, ok_bind]
      exact hfold

end

/-! ## Loading -/

/-- Apart from the completion of runs, only lines that are not of the runs are
    reported. -/
def SavedJournal.QuietAbout (serde : SerdeJson) (ids : Set String) (files : List InputFile)
    (saved : SavedJournal) : Prop :=
  ∀ i ∈ saved.issues, i.kind = .missingScopeMetadata ∨ i.kind = .invalidHierarchy ∨
    ∃ line ∈ inputLines files, ¬ line.OfRuns serde ids ∧ i.source = line.source ∧
      i.line = some line.number

section
variable {serde : SerdeJson} (hs : serde.Lawful) {ids : Set String} {files : List InputFile}
  (hpeace : ∀ r ∈ ids, Peaceful serde r (linesOf serde r files))
include hs hpeace

theorem load_quiet : ∃ saved, load serde files = .ok saved ∧
    saved.QuietAbout serde ids files := by
  have hnew : Quiet serde ids [] Loader.new.issues := by
    intro i hi
    cases hi
  obtain ⟨l, hread, hquiet⟩ := quiet_ok hs (inputLines files) Loader.new_wf
    (Loader.new_logged serde) (new_gathered serde) hnew hpeace
  obtain ⟨l', hread', hwf, -⟩ := gathered_ok hs (inputLines files) Loader.new_wf
    (Loader.new_logged serde) (new_gathered serde)
  obtain rfl := Except.ok.inj (hread.symm.trans hread')
  have hall : ∀ b ∈ l.allRuns, b.WF := by
    intro b hb
    unfold Loader.allRuns at hb
    split_ifs at hb
    · exact (hwf.runs b hb).1
    · rcases List.mem_append.1 hb with hb | hb
      · exact (hwf.runs b hb).1
      · rw [List.mem_singleton.1 hb]
        exact (RunBuilder.new_wf none none).withHeaders _
  obtain ⟨runs, issues, hfin, -, hkinds⟩ := finishRuns_ok hall ⟨[], l.issues⟩
  refine ⟨⟨runs, l.issues ++ issues⟩, ?_, ?_⟩
  · rw [load, foldlM_read, hread, ok_bind, Loader.finish, hfin]
    rfl
  · intro i hi
    rcases List.mem_append.1 hi with hi | hi
    · exact .inr (.inr (hquiet i hi))
    · exact (hkinds i hi).imp_right .inl

/-- **The runs are loaded**, each once and as its lines are gathered. -/
theorem load_peaceful : ∃ saved, load serde files = .ok saved ∧ saved.QuietAbout serde ids files ∧
    ∀ r ∈ ids, linesOf serde r files ≠ [] → ∃ run source b,
      saved.runs.filter (fun run => run.runId = some r) = [run] ∧ run.runId = some r ∧
      gather serde (.new (some r) source) (linesOf serde r files) = .ok (b, []) ∧
      Finishes (b.withHeaders run.headers) run := by
  obtain ⟨saved, hload, hissues⟩ := load_quiet hs hpeace
  obtain ⟨saved', hload', hreports, hruns⟩ := load_gathers hs files
  obtain rfl := Except.ok.inj (hload.symm.trans hload')
  obtain ⟨saved', log, builders, hloaded⟩ := load_ok hs files
  obtain rfl := Except.ok.inj (hload.symm.trans hloaded.load)
  refine ⟨saved, hload, hissues, ?_⟩
  intro r hr hsome
  obtain ⟨run, hrun, hid⟩ := hruns r hsome
  obtain ⟨rl, hrl⟩ := List.exists_mem_of_ne_nil _ hsome
  obtain ⟨line, hline, hof⟩ := List.mem_filterMap.1 hrl
  have hbelongs : belongs serde r line.raw = true := by
    rw [belongs, (InputLine.ofRun_eq_some.1 hof).1]
    exact decide_eq_true rfl
  obtain ⟨-, run', hone, -⟩ := hloaded.run_of_id ⟨line, hline, hbelongs⟩
  have hsame : run = run' := by
    have hmem : run ∈ saved.runs.filter fun run => run.runId = some r :=
      List.mem_filter.2 ⟨hrun, by simpa using hid⟩
    rw [hone] at hmem
    exact List.mem_singleton.1 hmem
  subst hsame
  obtain ⟨lines, source, b, raised, hgather, hfin, -, -, hlines⟩ := hreports run hrun
  obtain rfl := hlines r hid
  obtain ⟨b', hgather'⟩ := hpeace r hr _ (List.prefix_refl _) source
  rw [hid] at hgather
  obtain ⟨rfl, rfl⟩ := Prod.mk.inj (Except.ok.inj (hgather.symm.trans hgather'))
  exact ⟨run, source, b, hone, hid, hgather, hfin⟩

end

end Eventline
