/-
  What a load reports about each run.

  The lines of a run, fed to an empty builder one by one, give the run and the
  issues that they raise (`gather`).

  * `load_gathers`: each run of a load is gathered from its lines, and the issues
    they raise are among those of the load.
  * `Faithful`: what the issues say about the lines that were gathered.
-/
import Eventline.Replay.Runs

namespace Eventline

open Text Checked Slots

/-- A line of a run: where it was read, and its parts. -/
structure RunLine where
  source : Option String
  number : ℕ
  parts : Parts

/-- The issue of a conflict at a line. -/
def RunLine.issue (line : RunLine) (conflict : ReplayIssueKind × String) : ReplayIssue :=
  ⟨line.source, some line.number, conflict.1, conflict.2⟩

/-- The line, if it is read as an entry of the versioned run. -/
def InputLine.ofRun (serde : SerdeJson) (runId : String) (line : InputLine) : Option RunLine :=
  match classify serde line.raw with
  | .entry d => if d.runId = some runId then some ⟨line.source, line.number, d.parts⟩ else none
  | _ => none

/-- The lines of a versioned run, in input order. -/
def linesOf (serde : SerdeJson) (runId : String) (files : List InputFile) : List RunLine :=
  (inputLines files).filterMap (InputLine.ofRun serde runId)

def recordsIn (lines : List RunLine) : List Record := lines.filterMap (·.parts.record)

def scopesIn (lines : List RunLine) : List Scope := lines.filterMap (·.parts.scope)

/-- A line merged into a builder, its conflicts added to the issues. -/
def gatherLine (serde : SerdeJson) (acc : RunBuilder × List ReplayIssue) (line : RunLine) :
    Checked (RunBuilder × List ReplayIssue) := do
  let (b, conflicts) ← acc.1.merge serde line.parts
  pure (b, acc.2 ++ conflicts.map line.issue)

/-- Lines merged into a builder, with the issues they raise. -/
def gather (serde : SerdeJson) (b : RunBuilder) (lines : List RunLine) :
    Checked (RunBuilder × List ReplayIssue) := lines.foldlM (gatherLine serde) (b, [])

/-- Every record of the lines can be exported. -/
def PairedLines (lines : List RunLine) : Prop := ∀ r ∈ recordsIn lines, r.Paired none

theorem gather_concat (serde : SerdeJson) (b : RunBuilder) (lines : List RunLine) (line : RunLine) :
    gather serde b (lines ++ [line]) =
      gather serde b lines >>= fun acc => gatherLine serde acc line := by
  rw [gather, List.foldlM_append, gather]
  refine congrArg _ (funext fun acc => ?_)
  rw [List.foldlM_cons]
  exact bind_pure _

/-- The headers of a builder play no part in a merge. -/
theorem merge_reheaded {serde : SerdeJson} {b b' : RunBuilder} {hs : List String} {parts : Parts}
    {conflicts : List (ReplayIssueKind × String)}
    (h : (b.withHeaders hs).merge serde parts = .ok (b', conflicts)) (hs' : List String) :
    (b.withHeaders hs').merge serde parts = .ok (b'.withHeaders hs', conflicts) := by
  rw [RunBuilder.merge_withHeaders] at h ⊢
  obtain ⟨r, hr, heq⟩ := map_eq_ok.1 h
  obtain ⟨rfl, rfl⟩ := Prod.mk.inj heq
  rw [hr]
  rfl

/-! ## The runs of a loader are gathered from the lines read -/

/-- The builder is gathered from lines, whose issues are there; if its run is
    versioned, they are its lines among the ones passed. -/
def GatheredFrom (serde : SerdeJson) (passed : List InputLine) (issues : List ReplayIssue)
    (b : RunBuilder) : Prop := ∃ lines raised,
  gather serde (.new b.run.runId b.source) lines = .ok (b.withHeaders [], raised) ∧
    (∀ x ∈ raised, x ∈ issues) ∧ PairedLines lines ∧
    ∀ r, b.run.runId = some r → lines = passed.filterMap (InputLine.ofRun serde r)

/-- Each run of the loader is gathered from the lines passed. -/
structure Gathered (serde : SerdeJson) (l : Loader) (passed : List InputLine) : Prop where
  runs : ∀ (i : ℕ) (b : RunBuilder), l.runs[i]? = some b → GatheredFrom serde passed l.issues b
  known : ∀ r, passed.filterMap (InputLine.ofRun serde r) ≠ [] → some r ∈ l.ids

section
variable {serde : SerdeJson} {l l' : Loader} {passed : List InputLine}

theorem new_gathered (serde : SerdeJson) : Gathered serde .new [] where
  runs i b h := by simp [Loader.new] at h
  known r h := absurd rfl h

/-- A line that is no entry. -/
theorem Gathered.skip (h : Gathered serde l passed) {line : InputLine}
    (hline : ∀ d, classify serde line.raw ≠ .entry d) (hruns : l'.runs = l.runs)
    (hissues : ∀ x ∈ l.issues, x ∈ l'.issues) : Gathered serde l' (passed ++ [line]) := by
  have hnone : ∀ r, InputLine.ofRun serde r line = none := by
    intro r
    unfold InputLine.ofRun
    split
    · rename_i d hd
      exact absurd hd (hline d)
    · rfl
  have hpassed : ∀ r, (passed ++ [line]).filterMap (InputLine.ofRun serde r) =
      passed.filterMap (InputLine.ofRun serde r) := by
    intro r
    rw [List.filterMap_append, List.filterMap_cons, hnone r]
    exact List.append_nil _
  constructor
  · intro i b hb
    rw [hruns] at hb
    obtain ⟨lines, issues, hgather, hmem, hpaired, hlines⟩ := h.runs i b hb
    refine ⟨lines, issues, hgather, fun x hx => hissues x (hmem x hx), hpaired, ?_⟩
    intro r hr
    rw [hpassed, hlines r hr]
  · intro r hr
    rw [hpassed] at hr
    rw [Loader.ids, hruns]
    exact h.known r hr

/-- Choosing a run can only report the line it is chosen for. -/
theorem Loader.selectRun_issues {source : Option String} {n : ℕ} {d : DecodedLine} {i : ℕ}
    (h : l.selectRun source n d = .ok (l', i)) :
    ∃ added, l'.issues = l.issues ++ added ∧ ∀ x ∈ added, x.source = source ∧ x.line = some n := by
  have hlegacy : ∀ l₁ : Loader, (l₁.legacyRun source).1.issues = l₁.issues := by
    intro l₁
    unfold Loader.legacyRun
    cases l₁.legacy <;> rfl
  unfold selectRun at h
  cases hid : d.runId with
  | some r =>
    rw [hid] at h
    obtain rfl : (l.versionedRun r source).1 = l' := congrArg Prod.fst (Except.ok.inj h)
    refine ⟨[], ?_, List.forall_mem_nil _⟩
    unfold versionedRun
    rw [List.append_nil]
    cases l.byId r <;> rfl
  | none =>
    rw [hid] at h
    obtain ⟨l₁, h₁, h⟩ := bind_eq_ok.1 h
    obtain rfl : (l₁.legacyRun source).1 = l' := congrArg Prod.fst (Except.ok.inj h)
    rw [hlegacy]
    unfold splitLegacy at h₁
    split at h₁
    · obtain ⟨b, -, h₁⟩ := bind_eq_ok.1 h₁
      obtain rfl := Except.ok.inj h₁
      split_ifs
      · exact ⟨_, rfl, by simp⟩
      · exact ⟨[], (List.append_nil _).symm, List.forall_mem_nil _⟩
    · obtain rfl := Except.ok.inj h₁
      exact ⟨[], (List.append_nil _).symm, List.forall_mem_nil _⟩

/-- A run after one was chosen for an entry: gathered as before, or just opened. -/
theorem Gathered.selected (h : Gathered serde l passed) {l₁ : Loader} {i : ℕ}
    {runId source : Option String} (hsel : Loader.Selected l l₁ i runId source) {j : ℕ}
    {b : RunBuilder} (hb : l₁.runs[j]? = some b) : GatheredFrom serde passed l.issues b := by
  have hnew : b = .new runId source → (∀ r, runId = some r → some r ∉ l.ids) →
      GatheredFrom serde passed l.issues b := by
    rintro rfl hfresh
    refine ⟨[], [], rfl, by simp, by simp [PairedLines, recordsIn], ?_⟩
    intro r hr
    by_contra hne
    exact hfresh r hr (h.known r (Ne.symm hne))
  rcases hsel.runs with hr | ⟨hr, hi⟩
  · rw [hr] at hb
    exact h.runs j b hb
  · have hids : l₁.ids = l.ids ++ [runId] := by
      rw [Loader.ids, hr, List.map_append]
      rfl
    rw [hr] at hb
    rcases Nat.lt_or_ge j l.runs.length with hlt | hge
    · rw [List.getElem?_append_left hlt] at hb
      exact h.runs j b hb
    · have hj : j = l.runs.length := by
        have := (List.getElem?_eq_some_iff.1 hb).1
        rw [List.length_append, List.length_singleton] at this
        omega
      rw [hj, List.getElem?_concat_length] at hb
      refine hnew (Option.some.inj hb).symm ?_
      rintro r rfl hmem
      obtain ⟨k, hk⟩ := List.mem_iff_getElem?.1 hmem
      have hklt := (List.getElem?_eq_some_iff.1 hk).1
      have hk' : l₁.ids[k]? = some (some r) := by
        rw [hids, List.getElem?_append_left hklt]
        exact hk
      have heq := hsel.wf.distinct k i r hk' hsel.id
      rw [heq, hi, Loader.ids, List.length_map] at hklt
      exact lt_irrefl _ hklt

/-- **An accepted entry** is gathered into its run. -/
theorem Gathered.accept (hs : serde.Lawful) (hwf : l.WF) (h : Gathered serde l passed)
    {line : InputLine} {d : DecodedLine} (hc : classify serde line.raw = .entry d) {l₁ : Loader}
    {i : ℕ} (hrun : l.selectRun line.source line.number d = .ok (l₁, i))
    (hmerge : l₁.mergeAt serde i line.source line.number d.parts = .ok l') :
    Gathered serde l' (passed ++ [line]) := by
  obtain ⟨l₁', i', hrun', hsel⟩ := Loader.selectRun_ok hwf line.source line.number d
  obtain ⟨rfl, rfl⟩ := Prod.mk.inj (Except.ok.inj (hrun'.symm.trans hrun))
  obtain ⟨added, hadded, -⟩ := Loader.selectRun_issues hrun
  have hsub : ∀ x ∈ l.issues, x ∈ l₁'.issues :=
    fun x hx => hadded ▸ List.mem_append_left _ hx
  obtain ⟨b, hb, hbid⟩ : ∃ b, l₁'.runs[i']? = some b ∧ b.run.runId = d.runId := by
    have hid := hsel.id
    rw [Loader.ids, List.getElem?_map, Option.map_eq_some_iff] at hid
    exact hid
  have hlt := (List.getElem?_eq_some_iff.1 hb).1
  obtain ⟨hbwf, -⟩ := hsel.wf.runs b (List.mem_of_getElem? hb)
  obtain ⟨b', conflicts, hm, -, hrunb, hsrcb, -⟩ := RunBuilder.merge_ok hs
    (hbwf.withHeaders (b.run.headers ++ l₁'.headers)) d.parts
  have hidb : b'.run.runId = b.run.runId := by
    rw [hrunb]
    rfl
  rw [Loader.mergeAt, index_ok hb, ok_bind, hm] at hmerge
  obtain rfl := Except.ok.inj hmerge
  have hids : (l₁'.runs.set i' b').map (·.run.runId) = l₁'.ids := Loader.ids_set hb hidb
  have hpassed : ∀ r, (passed ++ [line]).filterMap (InputLine.ofRun serde r) =
      passed.filterMap (InputLine.ofRun serde r) ++
        if d.runId = some r then [⟨line.source, line.number, d.parts⟩] else [] := by
    intro r
    rw [List.filterMap_append, List.filterMap_cons, InputLine.ofRun, hc]
    by_cases hd : d.runId = some r
    · simp [hd]
    · simp [hd]
  constructor
  · intro j x hx
    simp only at hx
    by_cases hij : i' = j
    · subst hij
      rw [List.getElem?_set_self hlt] at hx
      obtain rfl := Option.some.inj hx
      obtain ⟨lines, issues, hgather, hmem, hpaired, hlines⟩ := h.selected hsel hb
      refine ⟨lines ++ [⟨line.source, line.number, d.parts⟩],
        issues ++ conflicts.map (RunLine.issue ⟨line.source, line.number, d.parts⟩), ?_, ?_, ?_, ?_⟩
      · rw [gather_concat, hidb, hsrcb]
        show (gather serde (.new b.run.runId b.source) lines >>= _) = _
        rw [hgather, ok_bind, gatherLine, merge_reheaded hm []]
        rfl
      · intro y hy
        rcases List.mem_append.1 hy with hy | hy
        · exact List.mem_append_left _ (hsub y (hmem y hy))
        · exact List.mem_append_right _ hy
      · intro r hr
        rw [recordsIn, List.filterMap_append] at hr
        rcases List.mem_append.1 hr with hr | hr
        · exact hpaired r hr
        · obtain ⟨y, hy, hyr⟩ := List.mem_filterMap.1 hr
          rw [List.mem_singleton.1 hy] at hyr
          exact (decodeLine_paired (classify_entry hc) hyr).alone
      · intro r hr
        rw [hidb] at hr
        rw [hpassed, hlines r hr, if_pos (hbid.symm.trans hr)]
    · rw [List.getElem?_set_ne hij] at hx
      obtain ⟨lines, issues, hgather, hmem, hpaired, hlines⟩ := h.selected hsel hx
      refine ⟨lines, issues, hgather, fun y hy => List.mem_append_left _ (hsub y (hmem y hy)),
        hpaired, ?_⟩
      intro r hr
      have hne : d.runId ≠ some r := by
        intro hd
        have hxr : l₁'.ids[j]? = some (some r) := by
          rw [Loader.ids, List.getElem?_map, hx]
          exact congrArg some hr
        exact hij (hsel.wf.distinct i' j r (hd ▸ hsel.id) hxr)
      rw [hpassed, hlines r hr, if_neg hne, List.append_nil]
  · intro r hr
    rw [Loader.ids, hids]
    by_cases hd : d.runId = some r
    · exact List.mem_of_getElem? (hd ▸ hsel.id)
    · rw [hpassed, if_neg hd, List.append_nil] at hr
      have hold := h.known r hr
      rcases hsel.runs with hruns | ⟨hruns, -⟩
      · rw [Loader.ids, hruns]
        exact hold
      · rw [Loader.ids, hruns, List.map_append]
        exact List.mem_append_left _ hold

/-- **Reading lines** keeps the runs gathered. -/
theorem gathered_ok (hs : serde.Lawful) (lines : List InputLine) {log : List Fed} (hwf : l.WF)
    (hl : Loader.Logged serde l log) (h : Gathered serde l passed) :
    ∃ l', lines.foldlM (Loader.readRaw serde) l = .ok l' ∧ l'.WF ∧
      Gathered serde l' (passed ++ lines) := by
  induction lines generalizing l log passed with
  | nil => exact ⟨l, rfl, hwf, by rwa [List.append_nil]⟩
  | cons line lines ih =>
    rw [List.foldlM_cons, Loader.readRaw_eq, List.append_cons]
    cases hc : classify serde line.raw with
    | blank => exact ih hwf hl (h.skip (by simp [hc]) rfl fun _ hx => hx)
    | header text =>
      refine ih (l := { l with headers := l.headers ++ [text], legacy := none })
        ⟨hwf.runs, hwf.byId, hwf.distinct, by simp⟩ ⟨hl.mem, hl.fed⟩ ?_
      exact h.skip (by simp [hc]) rfl fun _ hx => hx
    | rejected reason =>
      refine ih (l := l.issue line.source line.number reason.1 reason.2)
        ⟨hwf.runs, hwf.byId, hwf.distinct, hwf.legacy⟩ ⟨hl.mem, hl.fed⟩ ?_
      exact h.skip (by simp [hc]) rfl fun _ hx => List.mem_append_left _ hx
    | entry d =>
      obtain ⟨l₁, i, l₂, hsel, hmerge, hwf₂, hl₂, -⟩ :=
        Loader.accept_ok hs hwf hl line.source line.number d
      obtain ⟨l', hfold, hwf', h'⟩ := ih hwf₂ hl₂ (h.accept hs hwf hc hsel hmerge)
      refine ⟨l', ?_, hwf', h'⟩
      simp only [Loader.accept, hsel, hmerge, ok_bind]
      exact hfold

end

/-! ## The runs of a load -/

/-- A loaded run is the completed builder of its lines, and the issues they
    raise are among those of the load. -/
def SavedJournal.Reports (serde : SerdeJson) (files : List InputFile) (saved : SavedJournal)
    (run : SavedRun) : Prop := ∃ lines source b raised,
  gather serde (.new run.runId source) lines = .ok (b, raised) ∧
    Finishes (b.withHeaders run.headers) run ∧ (∀ x ∈ raised, x ∈ saved.issues) ∧
    PairedLines lines ∧ ∀ r, run.runId = some r → lines = linesOf serde r files

/-- **Each run of a load** is gathered from its lines, and a run that has lines
    is loaded. -/
theorem load_gathers {serde : SerdeJson} (hs : serde.Lawful) (files : List InputFile) :
    ∃ saved, load serde files = .ok saved ∧ (∀ run ∈ saved.runs, saved.Reports serde files run) ∧
      ∀ r, linesOf serde r files ≠ [] → ∃ run ∈ saved.runs, run.runId = some r := by
  obtain ⟨l, hread, hwf, h⟩ := gathered_ok hs (inputLines files) Loader.new_wf
    (Loader.new_logged serde) (new_gathered serde)
  rw [List.nil_append] at h
  have hall : ∀ b ∈ l.allRuns, b.WF ∧ GatheredFrom serde (inputLines files) l.issues b := by
    intro b hb
    have hold : b ∈ l.runs → b.WF ∧ GatheredFrom serde (inputLines files) l.issues b := by
      intro hb
      obtain ⟨i, hi⟩ := List.mem_iff_getElem?.1 hb
      exact ⟨(hwf.runs b hb).1, h.runs i b hi⟩
    unfold Loader.allRuns at hb
    split_ifs at hb
    · exact hold hb
    · rcases List.mem_append.1 hb with hb | hb
      · exact hold hb
      · -- the run of the headers at the end
        obtain rfl := List.mem_singleton.1 hb
        refine ⟨(RunBuilder.new_wf none none).withHeaders _, [], [], rfl, by simp,
          by simp [PairedLines, recordsIn], ?_⟩
        rintro r ⟨⟩
  obtain ⟨runs, issues, hfin, hruns, -⟩ := finishRuns_ok (fun b hb => (hall b hb).1) ⟨[], l.issues⟩
  refine ⟨⟨runs, l.issues ++ issues⟩, ?_, ?_, ?_⟩
  · rw [load, foldlM_read, hread, ok_bind, Loader.finish, hfin]
    rfl
  · intro run hrun
    obtain ⟨b, hb, hf⟩ := forall₂_mem_right hruns hrun
    obtain ⟨hbwf, lines, raised, hgather, hmem, hpaired, hlines⟩ := hall b hb
    have hid := hf.runId hbwf
    refine ⟨lines, b.source, b.withHeaders [], raised, by rw [hid]; exact hgather, ?_,
      fun x hx => List.mem_append_left _ (hmem x hx), hpaired, ?_⟩
    · obtain ⟨found, hf⟩ := hf
      obtain ⟨run', found', hok, -, hheaders, -⟩ := RunBuilder.finish_ok hbwf
      obtain ⟨rfl, rfl⟩ := Prod.mk.inj (Except.ok.inj (hf.symm.trans hok))
      rw [hheaders]
      exact ⟨found, hok⟩
    · intro r hr
      exact hlines r (hid ▸ hr)
  · intro r hr
    have hmem := h.known r hr
    obtain ⟨b, hb, hbid⟩ := List.mem_map.1 hmem
    have hball : b ∈ l.allRuns := by
      unfold Loader.allRuns
      split_ifs
      · exact hb
      · exact List.mem_append_left _ hb
    obtain ⟨run, hrun, hf⟩ := forall₂_mem_right hruns.flip hball
    exact ⟨run, hrun, (Finishes.runId (hall b hball).1 hf).trans hbid⟩

end Eventline
