/-
  The headers and the issues of a load.

  * `LineClass.header?`, `LineClass.isData`: the lines that are headers, and those
    that are read as entries.
  * `ReadSoFar`: the headers of a loader, in its runs or pending, are those of
    the lines, and its issues are about lines that are read as entries.
  * `load_headers`: the same of a load.
-/
import Eventline.Replay.Report

namespace Eventline

open Text Checked

def LineClass.header? : LineClass → Option String
  | .header text => some text
  | _ => none

def LineClass.isData : LineClass → Bool
  | .rejected _ | .entry _ => true
  | _ => false

/-- An element replaced by one that gives more. -/
theorem flatMap_set_perm {α β : Type*} {f : α → List β} {l : List α} {i : ℕ} {a b : α}
    {extra : List β} (ha : l[i]? = some a) (hb : f b = f a ++ extra) :
    ((l.set i b).flatMap f).Perm (l.flatMap f ++ extra) := by
  induction l generalizing i with
  | nil => cases ha
  | cons x l ih =>
    cases i with
    | zero =>
      obtain rfl := Option.some.inj ha
      rw [List.set_cons_zero, List.flatMap_cons, List.flatMap_cons, hb, List.append_assoc,
        List.append_assoc]
      exact List.perm_append_comm.append_left _
    | succ i =>
      rw [List.set_cons_succ, List.flatMap_cons, List.flatMap_cons, List.append_assoc]
      exact (ih ha).append_left _

/-! ## Reading -/

/-- The headers of the runs, then the pending ones. -/
def Loader.allHeaders (l : Loader) : List String := l.runs.flatMap (·.run.headers) ++ l.headers

/-- The headers of lines. -/
def headersOf (serde : SerdeJson) (lines : List InputLine) : List String :=
  lines.filterMap fun line => (classify serde line.raw).header?

/-- An issue about one of the lines, which is read as an entry. -/
def ReplayIssue.AboutData (serde : SerdeJson) (lines : List InputLine) (e : ReplayIssue) : Prop :=
  ∃ line ∈ lines, e.source = line.source ∧ e.line = some line.number ∧
    (classify serde line.raw).isData

/-- What a loader has after the lines. -/
structure ReadSoFar (serde : SerdeJson) (l : Loader) (passed : List InputLine) : Prop where
  headers : l.allHeaders.Perm (headersOf serde passed)
  issues : ∀ e ∈ l.issues, e.AboutData serde passed

section
variable {serde : SerdeJson} {l l' : Loader} {passed : List InputLine}

theorem ReplayIssue.AboutData.concat {e : ReplayIssue} (h : e.AboutData serde passed)
    (line : InputLine) : e.AboutData serde (passed ++ [line]) := by
  obtain ⟨x, hx, habout⟩ := h
  exact ⟨x, List.mem_append_left _ hx, habout⟩

theorem headersOf_concat (passed : List InputLine) (line : InputLine) :
    headersOf serde (passed ++ [line]) =
      headersOf serde passed ++ (classify serde line.raw).header?.toList := by
  rw [headersOf, List.filterMap_append, List.filterMap_cons]
  cases (classify serde line.raw).header? <;> rfl

theorem new_readSoFar (serde : SerdeJson) : ReadSoFar serde .new [] where
  headers := .refl _
  issues _ he := by cases he

/-- A line that is no entry. -/
theorem ReadSoFar.skip (h : ReadSoFar serde l passed) {line : InputLine}
    (hheaders : l'.allHeaders = l.allHeaders ++ (classify serde line.raw).header?.toList)
    (hissues : ∀ e ∈ l'.issues, e ∈ l.issues ∨ e.source = line.source ∧
      e.line = some line.number ∧ (classify serde line.raw).isData) :
    ReadSoFar serde l' (passed ++ [line]) where
  headers := by
    rw [hheaders, headersOf_concat]
    exact h.headers.append_right _
  issues e he := by
    rcases hissues e he with hold | habout
    · exact (h.issues e hold).concat line
    · exact ⟨line, by simp, habout⟩

/-- **An accepted entry** takes the pending headers to its run, and is the only
    line that is reported. -/
theorem ReadSoFar.accept (hs : serde.Lawful) (hwf : l.WF) (h : ReadSoFar serde l passed)
    {line : InputLine} {d : DecodedLine} (hc : classify serde line.raw = .entry d) {l₁ : Loader}
    {i : ℕ} (hrun : l.selectRun line.source line.number d = .ok (l₁, i))
    (hmerge : l₁.mergeAt serde i line.source line.number d.parts = .ok l') :
    ReadSoFar serde l' (passed ++ [line]) := by
  obtain ⟨l₁', i', hrun', hsel⟩ := Loader.selectRun_ok hwf line.source line.number d
  obtain ⟨rfl, rfl⟩ := Prod.mk.inj (Except.ok.inj (hrun'.symm.trans hrun))
  obtain ⟨added, hadded, habout⟩ := Loader.selectRun_issues hrun
  have hselected : l₁'.allHeaders = l.allHeaders := by
    rw [Loader.allHeaders, Loader.allHeaders, hsel.headers]
    rcases hsel.runs with hruns | ⟨hruns, -⟩
    · rw [hruns]
    · -- a run just opened has no headers
      rw [hruns, List.flatMap_append]
      simp [RunBuilder.new]
  obtain ⟨b, hb⟩ : ∃ b, l₁'.runs[i']? = some b := by
    have hid := hsel.id
    rw [Loader.ids, List.getElem?_map, Option.map_eq_some_iff] at hid
    exact ⟨_, hid.choose_spec.1⟩
  obtain ⟨hbwf, -⟩ := hsel.wf.runs b (List.mem_of_getElem? hb)
  obtain ⟨b', conflicts, hm, -, hrunb, -⟩ := RunBuilder.merge_ok hs
    (hbwf.withHeaders (b.run.headers ++ l₁'.headers)) d.parts
  rw [Loader.mergeAt, index_ok hb, ok_bind, hm] at hmerge
  obtain rfl := Except.ok.inj hmerge
  constructor
  · have hset : ((l₁'.runs.set i' b').flatMap (·.run.headers)).Perm l₁'.allHeaders :=
      flatMap_set_perm (f := fun b : RunBuilder => b.run.headers) hb (by rw [hrunb]; rfl)
    rw [headersOf_concat, hc]
    show ((l₁'.runs.set i' b').flatMap (fun b : RunBuilder => b.run.headers) ++ []).Perm (headersOf serde passed ++ [])
    rw [List.append_nil, List.append_nil]
    exact hset.trans (hselected ▸ h.headers)
  · intro e he
    have hline : e.source = line.source ∧ e.line = some line.number →
        e.AboutData serde (passed ++ [line]) := by
      rintro ⟨hsource, hnumber⟩
      exact ⟨line, by simp, hsource, hnumber, by rw [hc]; rfl⟩
    rcases List.mem_append.1 he with he | he
    · rw [hadded] at he
      rcases List.mem_append.1 he with he | he
      · exact (h.issues e he).concat line
      · exact hline (habout e he)
    · obtain ⟨c, -, rfl⟩ := List.mem_map.1 he
      exact hline ⟨rfl, rfl⟩

/-- **Reading lines** loses no header, and reports only lines read as entries. -/
theorem readSoFar_ok (hs : serde.Lawful) (lines : List InputLine) {log : List Fed} (hwf : l.WF)
    (hl : Loader.Logged serde l log) (h : ReadSoFar serde l passed) :
    ∃ l', lines.foldlM (Loader.readRaw serde) l = .ok l' ∧ l'.WF ∧
      ReadSoFar serde l' (passed ++ lines) := by
  induction lines generalizing l log passed with
  | nil => exact ⟨l, rfl, hwf, by rwa [List.append_nil]⟩
  | cons line lines ih =>
    rw [List.foldlM_cons, Loader.readRaw_eq, List.append_cons]
    cases hc : classify serde line.raw with
    | blank =>
      exact ih hwf hl (h.skip (by rw [hc]; exact (List.append_nil _).symm) fun _ he => .inl he)
    | header text =>
      refine ih (l := { l with headers := l.headers ++ [text], legacy := none })
        ⟨hwf.runs, hwf.byId, hwf.distinct, by simp⟩ ⟨hl.mem, hl.fed⟩ ?_
      refine h.skip ?_ fun _ he => .inl he
      rw [hc]
      exact (List.append_assoc ..).symm
    | rejected reason =>
      refine ih (l := l.issue line.source line.number reason.1 reason.2)
        ⟨hwf.runs, hwf.byId, hwf.distinct, hwf.legacy⟩ ⟨hl.mem, hl.fed⟩ ?_
      refine h.skip (by rw [hc]; exact (List.append_nil _).symm) ?_
      intro e he
      refine (List.mem_append.1 he).imp id fun he => ?_
      rw [List.mem_singleton.1 he, hc]
      exact ⟨rfl, rfl, rfl⟩
    | entry d =>
      obtain ⟨l₁, i, l₂, hsel, hmerge, hwf₂, hl₂, -⟩ :=
        Loader.accept_ok hs hwf hl line.source line.number d
      obtain ⟨l', hfold, hwf', h'⟩ := ih hwf₂ hl₂ (h.accept hs hwf hc hsel hmerge)
      refine ⟨l', ?_, hwf', h'⟩
      simp only [Loader.accept, hsel, hmerge, ok_bind]
      exact hfold

end

/-! ## Completing the runs -/

/-- Issues that are about no line. -/
def NoLine (issues : List ReplayIssue) : Prop := ∀ e ∈ issues, e.line = none

theorem NoLine.append {xs ys : List ReplayIssue} (hx : NoLine xs) (hy : NoLine ys) :
    NoLine (xs ++ ys) := fun e he => (List.mem_append.1 he).elim (hx e) (hy e)

theorem walkStep_noLine {index : ScopeId → Option ℕ} {source : Option String}
    {done : Finset ScopeId} {w w' : Walk} (hw : NoLine w.issues)
    (h : walkStep index source done w = .ok w') : NoLine w'.issues := by
  unfold walkStep at h
  cases hid : w.current with
  | none =>
    rw [hid] at h
    exact Except.ok.inj h ▸ hw
  | some id =>
    rw [hid] at h
    dsimp only at h
    split_ifs at h
    · exact Except.ok.inj h ▸ hw
    · obtain ⟨i, -, h⟩ := bind_eq_ok.1 h
      obtain ⟨scope, -, h⟩ := bind_eq_ok.1 h
      obtain rfl := Except.ok.inj h
      split_ifs
      · exact hw.append (by simp [NoLine, RunBuilder.cycleIssue])
      · exact hw

theorem repairFrom_noLine {index : ScopeId → Option ℕ} {source : Option String} {r r' : Repair}
    {start : ScopeId} (hr : NoLine r.issues) (h : repairFrom index source r start = .ok r') :
    NoLine r'.issues := by
  obtain ⟨w, hw, h⟩ := bind_eq_ok.1 h
  obtain rfl := Except.ok.inj h
  have hstep : ∀ w w' : Walk, NoLine w.issues → w.current.isSome = true →
      walkStep index source r.done w = .ok w' → NoLine w'.issues :=
    fun _ _ hw _ => walkStep_noLine hw
  exact whileM_invariant hstep hw hr

/-- **Completing a run** reports no line. -/
theorem RunBuilder.finish_noLine {b : RunBuilder} {run : SavedRun} {issues : List ReplayIssue}
    (h : b.finish = .ok (run, issues)) : NoLine issues := by
  have hplaceholder : ∀ (needed : List ScopeId) (acc : RunBuilder × List ReplayIssue),
      NoLine acc.2 → NoLine (needed.foldl addPlaceholder acc).2 := by
    intro needed
    induction needed with
    | nil => exact fun _ hacc => hacc
    | cons id needed ih =>
      intro acc hacc
      refine ih _ ?_
      unfold addPlaceholder
      split_ifs
      · exact hacc
      · exact hacc.append (by simp [NoLine, missingIssue])
  obtain ⟨r, hr, h⟩ := bind_eq_ok.1 h
  obtain ⟨-, rfl⟩ := Prod.mk.inj (Except.ok.inj h)
  exact foldlM_invariant (fun r => NoLine r.issues) (fun _ _ _ _ => repairFrom_noLine) hr
    (hplaceholder _ (b, []) (List.forall_mem_nil _))

theorem finishRun_issues {saved saved' : SavedJournal} {b : RunBuilder} {issues : List ReplayIssue}
    (hsaved : ∀ e ∈ saved.issues, e.line = none ∨ e ∈ issues)
    (h : Loader.finishRun saved b = .ok saved') : ∀ e ∈ saved'.issues, e.line = none ∨ e ∈ issues := by
  obtain ⟨⟨run, found⟩, hf, h⟩ := bind_eq_ok.1 h
  obtain rfl := Except.ok.inj h
  exact List.forall_mem_append.2 ⟨hsaved, fun e he => .inl (RunBuilder.finish_noLine hf e he)⟩

theorem Finishes.headers {b : RunBuilder} {run : SavedRun} (h : b.WF) (hf : Finishes b run) :
    run.headers = b.run.headers := by
  obtain ⟨issues, hf⟩ := hf
  obtain ⟨run', issues', hok, -, hheaders, -⟩ := RunBuilder.finish_ok h
  obtain ⟨rfl, -⟩ := Prod.mk.inj (Except.ok.inj (hf.symm.trans hok))
  exact hheaders

theorem flatMap_headers {builders : List RunBuilder} {runs : List SavedRun}
    (h : List.Forall₂ Finishes builders runs) (hwf : ∀ b ∈ builders, b.WF) :
    runs.flatMap (·.headers) = builders.flatMap (·.run.headers) := by
  induction h with
  | nil => rfl
  | cons hf _ ih =>
    obtain ⟨hb, hwf⟩ := List.forall_mem_cons.1 hwf
    rw [List.flatMap_cons, List.flatMap_cons, hf.headers hb, ih hwf]

/-- **No header of the input is lost, and only lines that are read as entries are
    reported.** -/
theorem load_headers {serde : SerdeJson} (hs : serde.Lawful) (files : List InputFile) :
    ∃ saved, load serde files = .ok saved ∧
      (saved.runs.flatMap (·.headers)).Perm (headersOf serde (inputLines files)) ∧
      ∀ e ∈ saved.issues, e.line = none ∨ e.AboutData serde (inputLines files) := by
  obtain ⟨l, hread, hwf, h⟩ := readSoFar_ok hs (inputLines files) Loader.new_wf
    (Loader.new_logged serde) (new_readSoFar serde)
  rw [List.nil_append] at h
  have hall : l.allRuns.flatMap (·.run.headers) = l.allHeaders := by
    unfold Loader.allRuns Loader.allHeaders
    split_ifs with hnone
    · rw [List.isEmpty_iff.1 hnone, List.append_nil]
    · rw [List.flatMap_append, List.flatMap_singleton]
      rfl
  have hallwf : ∀ b ∈ l.allRuns, b.WF := by
    intro b hb
    unfold Loader.allRuns at hb
    split_ifs at hb
    · exact (hwf.runs b hb).1
    · rcases List.mem_append.1 hb with hb | hb
      · exact (hwf.runs b hb).1
      · rw [List.mem_singleton.1 hb]
        exact (RunBuilder.new_wf none none).withHeaders _
  obtain ⟨runs, issues, hfin, hruns, -⟩ := finishRuns_ok hallwf ⟨[], l.issues⟩
  refine ⟨⟨runs, l.issues ++ issues⟩, ?_, ?_, ?_⟩
  · rw [load, foldlM_read, hread, ok_bind, Loader.finish, hfin]
    rfl
  · show (runs.flatMap (·.headers)).Perm _
    rw [flatMap_headers hruns hallwf, hall]
    exact h.headers
  · have hissues := foldlM_invariant (fun saved => ∀ e ∈ saved.issues, e.line = none ∨ e ∈ l.issues)
      (fun _ _ _ _ => finishRun_issues) hfin fun e he => .inr he
    exact fun e he => (hissues e he).imp id (h.issues e)

end Eventline
