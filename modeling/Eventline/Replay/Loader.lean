/-
  Loading saved files (`Loader` of `replay/load.rs`).

  The input is a list of files, each its bytes with the path it was read from.
  Reading cannot fail here: an I/O error ends the load with an error before
  any result.

  * `load` reads every line of every file (`readRaw`) and completes the runs.
  * `Loader.WF`: the map of run ids leads to the first run with an id, versioned
    run ids are distinct, and the current legacy run is one.
  * `classify` is what a line is on its own; `readRaw_eq` is reading by class.
-/
import Eventline.Replay.Finish

namespace Eventline

open Text Checked

structure SavedJournal where
  runs : List SavedRun
  issues : List ReplayIssue

/-- An input file: its bytes, and its path if it has one. -/
structure InputFile where
  source : Option String
  bytes : Bytes

structure Loader where
  runs : List RunBuilder
  byId : String → Option ℕ
  legacy : Option ℕ
  headers : List String
  issues : List ReplayIssue

/-- A line of the input: where it was read, and its bytes. -/
structure InputLine where
  source : Option String
  number : ℕ
  raw : Bytes

/-! ## Merging an entry into a run -/

namespace RunBuilder

def withHeaders (b : RunBuilder) (headers : List String) : RunBuilder :=
  { b with run := { b.run with headers } }

def mergeScope (b : RunBuilder) :
    Option Scope → Checked (RunBuilder × List (ReplayIssueKind × String))
  | none => pure (b, [])
  | some scope => do
    let (b, message) ← b.addScope scope
    pure (b, message.toList.map fun message => (.conflictingScope, message))

def mergeRecord (serde : SerdeJson) (b : RunBuilder) :
    Option Record → Checked (RunBuilder × List (ReplayIssueKind × String))
  | none => pure (b, [])
  | some record => do
    let (b, conflict) ← b.addRecord serde record
    pure (b, conflict.toList)

/-- The end of `read_line`: the scope of an entry, then its record. -/
def merge (serde : SerdeJson) (b : RunBuilder) (parts : Parts) :
    Checked (RunBuilder × List (ReplayIssueKind × String)) := do
  let (b, scopeIssues) ← b.mergeScope parts.scope
  let (b, recordIssues) ← b.mergeRecord serde parts.record
  pure (b, scopeIssues ++ recordIssues)

end RunBuilder

namespace Loader

/-- `Loader::default()`. -/
def new : Loader := ⟨[], fun _ => none, none, [], []⟩

/-- `Loader::issue`. -/
def issue (l : Loader) (source : Option String) (line : ℕ) (kind : ReplayIssueKind)
    (message : String) : Loader :=
  { l with issues := l.issues ++ [⟨source, some line, kind, message⟩] }

/-! ## The run of an entry -/

/-- A new run at the end of the list, and its index. -/
def openRun (l : Loader) (runId : Option String) (source : Option String) : Loader × ℕ :=
  ({ l with runs := l.runs ++ [.new runId source] }, l.runs.length)

/-- The run of a versioned entry. -/
def versionedRun (l : Loader) (runId : String) (source : Option String) : Loader × ℕ :=
  match l.byId runId with
  | some i => ({ l with legacy := none }, i)
  | none =>
    let (opened, i) := l.openRun (some runId) source
    ({ opened with legacy := none, byId := Function.update l.byId runId (some i) }, i)

def repeatedLegacyMessage : String :=
  "legacy record ID repeated; inferred a new run (unversioned boundaries can be ambiguous)"

/-- A repeated legacy record id ends the current legacy run. -/
def splitLegacy (l : Loader) (source : Option String) (line : ℕ) (record : Option Record) :
    Checked Loader :=
  match l.legacy, record with
  | some i, some record => do
    let b ← index l.runs i
    pure (if (b.records record.id).isSome then
      { l.issue source line .inferredRunBoundary repeatedLegacyMessage with legacy := none } else l)
  | _, _ => pure l

/-- The current legacy run, opened if there is none. -/
def legacyRun (l : Loader) (source : Option String) : Loader × ℕ :=
  match l.legacy with
  | some i => (l, i)
  | none =>
    let (opened, i) := l.openRun none source
    ({ opened with legacy := some i }, i)

def selectRun (l : Loader) (source : Option String) (line : ℕ) (d : DecodedLine) :
    Checked (Loader × ℕ) :=
  match d.runId with
  | some runId => pure (l.versionedRun runId source)
  | none => do
    let l ← l.splitLegacy source line d.parts.record
    pure (l.legacyRun source)

/-! ## Lines -/

/-- The run at an index takes the pending headers and the parts of an entry. -/
def mergeAt (serde : SerdeJson) (l : Loader) (i : ℕ) (source : Option String) (line : ℕ)
    (parts : Parts) : Checked Loader := do
  let b ← index l.runs i
  let (b, conflicts) ← (b.withHeaders (b.run.headers ++ l.headers)).merge serde parts
  pure { l with
    runs := l.runs.set i b
    headers := []
    issues := l.issues ++ conflicts.map fun c => ⟨source, some line, c.1, c.2⟩ }

/-- The second half of `read_line`, for a line that was decoded. -/
def accept (serde : SerdeJson) (l : Loader) (source : Option String) (line : ℕ)
    (d : DecodedLine) : Checked Loader := do
  let (l, i) ← l.selectRun source line d
  l.mergeAt serde i source line d.parts

def readLine (serde : SerdeJson) (l : Loader) (bytes : Bytes) (source : Option String)
    (line : ℕ) : Checked Loader :=
  match decodeLine serde bytes with
  | .error (kind, message) => pure (l.issue source line kind message)
  | .ok d => l.accept serde source line d

end Loader

/-- The text of a decorated header: `== … ==`, if it is UTF-8. -/
def headerText (trimmed : Bytes) : Option String :=
  if [61, 61].isPrefixOf trimmed && [61, 61].isSuffixOf trimmed then fromUtf8 trimmed else none

namespace Loader

/-- One iteration of the loop of `Loader::read`, for a line that was read. -/
def readTrimmed (serde : SerdeJson) (l : Loader) (trimmed : Bytes) (source : Option String)
    (line : ℕ) : Checked Loader :=
  if trimmed.isEmpty then pure l
  else
    match headerText trimmed with
    | some header => pure { l with headers := l.headers ++ [header], legacy := none }
    | none => l.readLine serde trimmed source line

def readRaw (serde : SerdeJson) (l : Loader) (line : InputLine) : Checked Loader :=
  l.readTrimmed serde (trimAscii line.raw) line.source line.number

end Loader

/-- The lines of a file, numbered from one. -/
def InputFile.lines (f : InputFile) : List InputLine :=
  ((rawLines f.bytes).zipIdx 1).map fun l => ⟨f.source, l.2, l.1⟩

namespace Loader

/-- `Loader::read`. -/
def read (serde : SerdeJson) (l : Loader) (f : InputFile) : Checked Loader :=
  f.lines.foldlM (readRaw serde) l

/-- The runs to complete: pending headers get a run of their own. -/
def allRuns (l : Loader) : List RunBuilder :=
  if l.headers.isEmpty then l.runs
  else l.runs ++ [(RunBuilder.new none none).withHeaders l.headers]

/-- One iteration of the loop of `Loader::finish`. -/
def finishRun (saved : SavedJournal) (b : RunBuilder) : Checked SavedJournal := do
  let (run, issues) ← b.finish
  pure ⟨saved.runs ++ [run], saved.issues ++ issues⟩

/-- `Loader::finish`. -/
def finish (l : Loader) : Checked SavedJournal := l.allRuns.foldlM finishRun ⟨[], l.issues⟩

end Loader

/-- `load_jsonl_files` and `read_jsonl`, once the input can be read. -/
def load (serde : SerdeJson) (files : List InputFile) : Checked SavedJournal := do
  let l ← files.foldlM (Loader.read serde) Loader.new
  l.finish

/-! ## The input as one list of lines -/

def inputLines (files : List InputFile) : List InputLine := files.flatMap InputFile.lines

theorem foldlM_read (serde : SerdeJson) (files : List InputFile) (l : Loader) :
    files.foldlM (Loader.read serde) l = (inputLines files).foldlM (Loader.readRaw serde) l := by
  induction files generalizing l with
  | nil => rfl
  | cons f files ih =>
    rw [List.foldlM_cons, inputLines, List.flatMap_cons, List.foldlM_append]
    exact congrArg _ (funext ih)

/-- What a line is on its own. -/
inductive LineClass where
  | blank
  | header (text : String)
  | rejected (reason : Rejection)
  | entry (d : DecodedLine)

def classify (serde : SerdeJson) (raw : Bytes) : LineClass :=
  if (trimAscii raw).isEmpty then .blank
  else
    match headerText (trimAscii raw) with
    | some text => .header text
    | none =>
      match decodeLine serde (trimAscii raw) with
      | .error reason => .rejected reason
      | .ok d => .entry d

/-- Reading a line is reading it by its class. -/
theorem Loader.readRaw_eq (serde : SerdeJson) (l : Loader) (line : InputLine) :
    l.readRaw serde line =
      match classify serde line.raw with
      | .blank => pure l
      | .header text => pure { l with headers := l.headers ++ [text], legacy := none }
      | .rejected reason => pure (l.issue line.source line.number reason.1 reason.2)
      | .entry d => l.accept serde line.source line.number d := by
  unfold readRaw readTrimmed classify
  split_ifs
  · rfl
  · cases headerText (trimAscii line.raw) with
    | some text => rfl
    | none =>
      simp only [readLine]
      cases decodeLine serde (trimAscii line.raw) with
      | error reason => rfl
      | ok d => rfl

theorem classify_rejected {serde : SerdeJson} {raw : Bytes} {reason : Rejection}
    (h : classify serde raw = .rejected reason) : reason.1.isRejection = true := by
  unfold classify at h
  split_ifs at h
  split at h
  · cases h
  · split at h
    · rename_i hd
      cases h
      exact decodeLine_error hd
    · cases h

theorem classify_entry {serde : SerdeJson} {raw : Bytes} {d : DecodedLine}
    (h : classify serde raw = .entry d) : decodeLine serde (trimAscii raw) = .ok d := by
  unfold classify at h
  split_ifs at h
  split at h
  · cases h
  · split at h
    · cases h
    · rename_i hd
      cases h
      exact hd

/-! ## Merging -/

/-- The scopes and records of a run after an entry. -/
def absorbParts (serde : SerdeJson) (run : SavedRun) (parts : Parts) : SavedRun :=
  { run with
    scopes := parts.scope.elim run.scopes (absorbScope run.scopes)
    records := parts.record.elim run.records (absorbRecord serde run.records) }

namespace RunBuilder

theorem addRecord_issue {serde : SerdeJson} {b b' : RunBuilder} {record : Record}
    {issue : ReplayIssueKind × String} (h : b.addRecord serde record = .ok (b', some issue)) :
    issue.1.isRejection = false := by
  obtain ⟨check, -, h⟩ := bind_eq_ok.1 h
  cases check with
  | duplicate => cases h
  | conflicting => cases h; rfl
  | fresh =>
    have hx : b.exitConflict record = some issue := by
      have := Except.ok.inj h
      exact (Prod.mk.inj this).2
    unfold exitConflict at hx
    split at hx
    · split_ifs at hx
      cases hx
      rfl
    · cases hx

/-- **Merging an entry** into a well-formed builder. -/
theorem merge_ok {serde : SerdeJson} (hs : serde.Lawful) {b : RunBuilder} (h : b.WF)
    (parts : Parts) :
    ∃ b' issues, b.merge serde parts = .ok (b', issues) ∧ b'.WF ∧
      b'.run = absorbParts serde b.run parts ∧ b'.source = b.source ∧
      ∀ i ∈ issues, i.1.isRejection = false := by
  obtain ⟨record, scope⟩ := parts
  obtain ⟨b₁, m, h₁, hwf₁, hrun₁, hsrc₁, hm⟩ : ∃ b₁ m, b.mergeScope scope = .ok (b₁, m) ∧ b₁.WF ∧
      b₁.run = { b.run with scopes := scope.elim b.run.scopes (absorbScope b.run.scopes) } ∧
      b₁.source = b.source ∧ ∀ i ∈ m, i.1.isRejection = false := by
    cases scope with
    | none => exact ⟨b, [], rfl, h, rfl, rfl, by simp⟩
    | some s =>
      obtain ⟨b₁, h₁, hwf, hrun, hsrc, -⟩ := addScope_ok h s
      refine ⟨b₁, _, by rw [mergeScope, h₁]; rfl, hwf, hrun, hsrc, ?_⟩
      intro i hi
      obtain ⟨_, -, rfl⟩ := List.mem_map.1 hi
      rfl
  obtain ⟨b₂, m', h₂, hwf₂, hrun₂, hsrc₂, hm'⟩ : ∃ b₂ m', b₁.mergeRecord serde record = .ok (b₂, m') ∧
      b₂.WF ∧ b₂.run = { b₁.run with
        records := record.elim b₁.run.records (absorbRecord serde b₁.run.records) } ∧
      b₂.source = b₁.source ∧ ∀ i ∈ m', i.1.isRejection = false := by
    cases record with
    | none => exact ⟨b₁, [], rfl, hwf₁, rfl, rfl, by simp⟩
    | some r =>
      obtain ⟨b₂, issue, h₂, hwf, hrun, hsrc, -⟩ := addRecord_ok hs hwf₁ r
      refine ⟨b₂, issue.toList, by rw [mergeRecord, h₂]; rfl, hwf, hrun, hsrc, ?_⟩
      intro i hi
      rw [Option.mem_toList] at hi
      rw [hi] at h₂
      exact addRecord_issue h₂
  refine ⟨b₂, m ++ m', by rw [merge, h₁, ok_bind]; simp only [h₂, ok_bind]; rfl, hwf₂, ?_,
    hsrc₂.trans hsrc₁, ?_⟩
  · rw [hrun₂, hrun₁]
    rfl
  · intro i hi
    exact (List.mem_append.1 hi).elim (hm i) (hm' i)

/-! Headers pass through. -/

theorem WF.withHeaders {b : RunBuilder} (h : b.WF) (hs : List String) : (b.withHeaders hs).WF :=
  ⟨h.records, h.scopes, h.nodup⟩

theorem addScope_withHeaders (b : RunBuilder) (hs : List String) (s : Scope) :
    (b.withHeaders hs).addScope s = (fun r => (r.1.withHeaders hs, r.2)) <$> b.addScope s := by
  unfold addScope withHeaders
  cases b.scopes s.id with
  | none => rfl
  | some i =>
    dsimp only
    cases index b.run.scopes i with
    | error e => rfl
    | ok existing =>
      simp only [ok_bind]
      split_ifs <;> rfl

theorem addRecord_withHeaders (serde : SerdeJson) (b : RunBuilder) (hs : List String)
    (r : Record) : (b.withHeaders hs).addRecord serde r =
      (fun r => (r.1.withHeaders hs, r.2)) <$> b.addRecord serde r := by
  have hcheck : (b.withHeaders hs).checkRecord serde r = b.checkRecord serde r := rfl
  unfold addRecord
  rw [hcheck]
  cases b.checkRecord serde r with
  | error e => rfl
  | ok check => cases check <;> rfl

theorem merge_withHeaders (serde : SerdeJson) (b : RunBuilder) (hs : List String)
    (parts : Parts) : (b.withHeaders hs).merge serde parts =
      (fun r => (r.1.withHeaders hs, r.2)) <$> b.merge serde parts := by
  have hscope : ∀ o, (b.withHeaders hs).mergeScope o =
      (fun r => (r.1.withHeaders hs, r.2)) <$> b.mergeScope o := by
    intro o
    cases o with
    | none => rfl
    | some s =>
      rw [mergeScope, mergeScope, addScope_withHeaders]
      cases b.addScope s with
      | error e => rfl
      | ok r => rfl
  have hrecord : ∀ (b : RunBuilder) o, (b.withHeaders hs).mergeRecord serde o =
      (fun r => (r.1.withHeaders hs, r.2)) <$> b.mergeRecord serde o := by
    intro b o
    cases o with
    | none => rfl
    | some s =>
      rw [mergeRecord, mergeRecord, addRecord_withHeaders]
      cases b.addRecord serde s with
      | error e => rfl
      | ok r => rfl
  rw [merge, merge, hscope]
  cases b.mergeScope parts.scope with
  | error e => rfl
  | ok r =>
    obtain ⟨b₁, m⟩ := r
    show ((b₁.withHeaders hs).mergeRecord serde parts.record >>= _) = _
    rw [hrecord]
    cases hr : b₁.mergeRecord serde parts.record with
    | error e => simp only [ok_bind, hr]; rfl
    | ok r => simp only [ok_bind, hr]; rfl

theorem foldl_addPlaceholder_withHeaders (needed : List ScopeId) (b : RunBuilder)
    (issues : List ReplayIssue) (hs : List String) :
    needed.foldl addPlaceholder (b.withHeaders hs, issues) =
      (((needed.foldl addPlaceholder (b, issues)).1).withHeaders hs,
        (needed.foldl addPlaceholder (b, issues)).2) := by
  induction needed generalizing b issues with
  | nil => rfl
  | cons id needed ih =>
    rw [List.foldl_cons, List.foldl_cons]
    by_cases hid : (b.scopes id).isSome
    · have h₁ : addPlaceholder (b.withHeaders hs, issues) id = (b.withHeaders hs, issues) :=
        if_pos hid
      have h₂ : addPlaceholder (b, issues) id = (b, issues) := if_pos hid
      rw [h₁, h₂, ih]
    · have h₁ : addPlaceholder (b.withHeaders hs, issues) id =
          ((addPlaceholder (b, issues) id).1.withHeaders hs, (addPlaceholder (b, issues) id).2) := by
        simp only [addPlaceholder]
        rw [if_neg (show ¬ ((b.withHeaders hs).scopes id).isSome = true from hid), if_neg hid]
        rfl
      rw [h₁, ih]

/-- Completing a run does not look at its headers. -/
theorem finish_withHeaders (b : RunBuilder) (hs : List String) :
    (b.withHeaders hs).finish =
      (fun r => ({ r.1 with headers := hs }, r.2)) <$> b.finish := by
  have hneeded : neededScopes (b.withHeaders hs).run.scopes (b.withHeaders hs).run.records =
      neededScopes b.run.scopes b.run.records := rfl
  unfold finish
  rw [hneeded, foldl_addPlaceholder_withHeaders]
  generalize (neededScopes b.run.scopes b.run.records).foldl addPlaceholder (b, []) = p
  obtain ⟨b₁, issues⟩ := p
  simp only [withHeaders]
  cases (b₁.run.scopes.map (·.id)).foldlM (repairFrom b₁.scopes b₁.source)
      (⟨b₁.run.scopes, issues, ∅⟩ : Repair) with
  | error e => rfl
  | ok r => rfl

end RunBuilder

end Eventline
