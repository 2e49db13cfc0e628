/-
  The file of a live run is complete.

  * `Merged`: copies of some lives that were merged in their order.
  * `live_history_complete`: after any interleaving of live steps, the file of
    the run loads as the records pushed and the scopes entered.
  * `live_history_loses_record`: not so once the record ids have wrapped.
-/
import Eventline.Replay.Snapshot
import Eventline.Runtime.Live
import Eventline.Writer.Sink

namespace Eventline

open Text Checked Slots

/-! ## Merging copies of lives -/

/-- The scopes are merges of copies of the lives, one for each id that was seen,
    exited if a copy was. -/
structure Merged (lives : List Life) (copies scopes : List Scope) : Prop where
  nodup : (scopes.map (·.id)).Nodup
  shows : ∀ x ∈ scopes, ∃ l ∈ lives, l.Shows x
  found : ∀ y ∈ copies, ∃ x ∈ scopes, x.id = y.id ∧ (y.exitedAt.isSome → x.exitedAt.isSome)

theorem merged_nil (lives : List Life) : Merged lives [] [] where
  nodup := .nil
  shows _ h := by cases h
  found _ h := by cases h

theorem Scope.Extends.isSome {x y : Scope} (h : x.Extends y) (hy : y.exitedAt.isSome) :
    x.exitedAt.isSome := by
  obtain ⟨t, ht⟩ := Option.isSome_iff_exists.1 hy
  rw [h.2.2.2.2 t ht]
  rfl

section
variable {lives : List Life} (hids : (lives.map (·.scope.id)).Nodup) {copies scopes : List Scope}
include hids

/-- **A copy is merged** without a conflict. -/
theorem Merged.absorb (h : Merged lives copies scopes) {y : Scope} (hy : ∃ l ∈ lives, l.Shows y) :
    Merged lives (copies ++ [y]) (absorbScope scopes y) ∧
      ∀ x ∈ scopes, x.id = y.id → x.conflicts y = false := by
  obtain ⟨l, hl, hly⟩ := hy
  have hlife : ∀ x ∈ scopes, x.id = y.id → l.Shows x := by
    intro x hx hid
    obtain ⟨l', hl', hlx⟩ := h.shows x hx
    have hsame : l' = l :=
      List.inj_on_of_nodup_map hids hl' hl (hlx.id.symm.trans (hid.trans hly.id))
    exact hsame ▸ hlx
  have hagree : ∀ x ∈ scopes, x.id = y.id → x.conflicts y = false :=
    fun x hx hid => (hlife x hx hid).agrees hly
  have hnone : (scopes.any fun x => x.id = y.id && x.conflicts y) = false := by
    rw [List.any_eq_false]
    intro x hx
    by_cases hid : x.id = y.id
    · simp [hagree x hx hid]
    · simp [hid]
  refine ⟨⟨?_, ?_, ?_⟩, hagree⟩
  · unfold absorbScope
    split_ifs with hany
    · have hmap : (updateFirst (fun s => decide (s.id = y.id))
          (fun s => if s.conflicts y then s else s.merge y) scopes).map Scope.id =
          scopes.map Scope.id :=
        map_updateFirst_of_eq (fun s => by split_ifs <;> rfl) scopes
      exact hmap ▸ h.nodup
    · rw [List.map_append, List.nodup_append]
      refine ⟨h.nodup, List.nodup_singleton _, ?_⟩
      rintro a ha b hb rfl
      obtain ⟨x, hx, rfl⟩ := List.mem_map.1 ha
      have hno : ∀ x ∈ scopes, x.id ≠ y.id := by simpa using hany
      exact hno x hx (List.mem_singleton.1 hb)
  · intro z hz
    unfold absorbScope at hz
    split_ifs at hz with hany
    · rcases mem_updateFirst hz with hz | ⟨x, hx, hid, rfl⟩
      · exact h.shows z hz
      · have hid' : x.id = y.id := by simpa using hid
        rw [if_neg (by rw [hagree x hx hid']; nofun)]
        exact ⟨l, hl, (hlife x hx hid').merge hly⟩
    · rcases List.mem_append.1 hz with hz | hz
      · exact h.shows z hz
      · rw [List.mem_singleton.1 hz]
        exact ⟨l, hl, hly⟩
  · intro z hz
    rcases List.mem_append.1 hz with hz | hz
    · obtain ⟨x, hx, hid, hclosed⟩ := h.found z hz
      obtain ⟨x', hx', hext⟩ := absorbScope_keeps hx y
      exact ⟨x', hx', hext.1.trans hid, fun hzc => hext.isSome (hclosed hzc)⟩
    · rw [List.mem_singleton.1 hz]
      obtain ⟨x', hx', hext⟩ := absorbScope_adds hnone
      exact ⟨x', hx', hext.1, hext.isSome⟩

/-- **Entries that show lives agree**, whatever their order, if their records are
    distinct and exit a scope at most once. -/
theorem agreeAll_of_shows (serde : SerdeJson) (ps : List Parts)
    (hshows : ∀ p ∈ ps, ∀ x, p.scope = some x → ∃ l ∈ lives, l.Shows x) (run : SavedRun)
    (h : Merged lives copies run.scopes)
    (hdistinct : (run.records ++ ps.filterMap (·.record)).Pairwise fun x y => x.id ≠ y.id)
    (hexits : (run.records ++ ps.filterMap (·.record)).Pairwise fun x y => ∀ id o o',
      Journal.exitOf x = some (id, o) → Journal.exitOf y ≠ some (id, o')) :
    ∃ scopes, AgreeAll serde run ps
        { run with scopes, records := run.records ++ ps.filterMap (·.record) } ∧
      Merged lives (copies ++ ps.filterMap (·.scope)) scopes := by
  induction ps generalizing run copies with
  | nil =>
    refine ⟨run.scopes, ?_, by simpa using h⟩
    rw [List.filterMap_nil, List.append_nil]
    exact .nil run
  | cons p ps ih =>
    obtain ⟨hp, hps⟩ := List.forall_mem_cons.1 hshows
    obtain ⟨record, scope⟩ := p
    have hagrees : Agrees run.scopes run.records ⟨record, scope⟩ := by
      refine ⟨?_, ?_, ?_⟩
      · intro y hy
        exact (h.absorb hids (hp y hy)).2
      · rintro x rfl y hy
        exact (List.pairwise_append.1 hdistinct).2.2 y hy x (by simp)
      · rintro x rfl id o hxo y hy o' hyo
        exact (List.pairwise_append.1 hexits).2.2 y hy x (by simp) id o' o hyo hxo
    have hfresh : ∀ x, record = some x → absorbRecord serde run.records x = run.records ++ [x] :=
      fun x hx => absorbRecord_fresh (hagrees.record x hx)
    have hrecords : (absorbParts serde run ⟨record, scope⟩).records ++ ps.filterMap (·.record) =
        run.records ++ (⟨record, scope⟩ :: ps).filterMap (·.record) := by
      cases record with
      | none => rfl
      | some x => simp [absorbParts, hfresh x rfl]
    have hmerged : Merged lives (copies ++ scope.toList)
        (absorbParts serde run ⟨record, scope⟩).scopes := by
      cases scope with
      | none =>
        rw [Option.toList_none, List.append_nil]
        exact h
      | some y => exact (h.absorb hids (hp y rfl)).1
    obtain ⟨scopes, hall, hfinal⟩ := ih hps (absorbParts serde run ⟨record, scope⟩) hmerged
      (hrecords ▸ hdistinct) (hrecords ▸ hexits)
    refine ⟨scopes, .cons hagrees ?_, ?_⟩
    · rw [hrecords] at hall
      exact hall
    · have hcopies : copies ++ scope.toList ++ ps.filterMap (·.scope) =
          copies ++ (⟨record, scope⟩ :: ps).filterMap (·.scope) := by
        cases scope <;> simp
      rw [← hcopies]
      exact hfinal

/-- **All lives are restored** from the merge of their copies, if each exit was
    among them. -/
theorem Merged.restored (h : Merged lives copies scopes)
    (hentered : ∀ l ∈ lives, ∃ y ∈ copies, y.id = l.scope.id)
    (hclosed : ∀ l ∈ lives, l.exited.isSome → ∃ y ∈ copies, y.id = l.scope.id ∧ y.exitedAt.isSome) :
    ∃ ls : List Life, ls.Perm lives ∧ List.Forall₂ Life.Restored ls scopes := by
  have hrestored : ∀ x ∈ scopes, ∃ l ∈ lives, l.Restored x := by
    intro x hx
    obtain ⟨l, hl, hshows⟩ := h.shows x hx
    refine ⟨l, hl, hshows.restored fun hexited => ?_⟩
    obtain ⟨y, hy, hid, hyc⟩ := hclosed l hl hexited
    obtain ⟨x', hx', hid', hx'c⟩ := h.found y hy
    have hsame : x' = x :=
      List.inj_on_of_nodup_map h.nodup hx' hx (hid'.trans (hid.trans hshows.id.symm))
    exact hsame ▸ hx'c hyc
  obtain ⟨ls, hls⟩ : ∃ ls : List Life,
      List.Forall₂ (fun l x => l ∈ lives ∧ l.Restored x) ls scopes := by
    clear h hentered hclosed
    induction scopes with
    | nil => exact ⟨[], .nil⟩
    | cons x scopes ih =>
      obtain ⟨hx, hrest⟩ := List.forall_mem_cons.1 hrestored
      obtain ⟨l, hl, hlx⟩ := hx
      obtain ⟨ls, hls⟩ := ih hrest
      exact ⟨l :: ls, .cons ⟨hl, hlx⟩ hls⟩
  have hmap : ls.map (·.scope.id) = scopes.map (·.id) := by
    clear hrestored h
    induction hls with
    | nil => rfl
    | cons hlx _ ih => rw [List.map_cons, List.map_cons, ih, hlx.2.id]
  refine ⟨ls, ?_, hls.imp fun _ _ hlx => hlx.2⟩
  have hlsIds : (ls.map (·.scope.id)).Nodup := hmap ▸ h.nodup
  refine (List.perm_ext_iff_of_nodup (List.Nodup.of_map _ hlsIds) (List.Nodup.of_map _ hids)).2
    fun l => ⟨?_, fun hl => ?_⟩
  · intro hl
    obtain ⟨x, -, hlx⟩ := forall₂_mem_right hls.flip hl
    exact hlx.1
  · obtain ⟨y, hy, hid⟩ := hentered l hl
    obtain ⟨x, hx, hxid, -⟩ := h.found y hy
    obtain ⟨l', hl', hl'x⟩ := forall₂_mem_right hls hx
    have hsame : l' = l :=
      List.inj_on_of_nodup_map hids hl'x.1 hl (hl'x.2.id.symm.trans (hxid.trans hid))
    exact hsame ▸ hl'

end

/-! ## The file of a run -/

/-- The loaded run has the given records and the scopes that were entered. -/
structure SavedRun.Restores (run : SavedRun) (runId : String) (records : List Record)
    (r : Runtime) : Prop where
  runId : run.runId = some runId
  records : run.records.Perm records
  scopes : ∃ lives : List Life, lives.Perm r.lives ∧ List.Forall₂ Life.Restored lives run.scopes

/-- The load has no issue, and one run if anything was written; it has the whole
    history, with the given records. -/
structure SavedJournal.Restores (saved : SavedJournal) (runId : String) (records : List Record)
    (r : Runtime) : Prop where
  issues : saved.issues = []
  nothing : r.writer.calls = [] → saved.runs = [] ∧ r.pushed = [] ∧ r.lives = []
  run : r.writer.calls ≠ [] → ∃ run, saved.runs = [run] ∧ run.Restores runId records r

namespace Runtime

/-- The parts that the entries written are read as. -/
def asRead (serde : SerdeJson) (r : Runtime) : List Parts := r.written.map (Parts.reread serde)

theorem asRead_scopes (serde : SerdeJson) (r : Runtime) :
    (r.asRead serde).filterMap (·.scope) = r.written.filterMap (·.scope) := by
  rw [asRead, List.filterMap_map]
  rfl

theorem asRead_records (serde : SerdeJson) (r : Runtime) :
    (r.asRead serde).filterMap (·.record) = r.writtenRecords.map (Record.reread serde) := by
  rw [asRead, List.filterMap_map, writtenRecords, List.map_filterMap]
  rfl

end Runtime

section
variable {s : Process}

/-- With all threads in user code, what was taken is written. -/
theorem written_of_taken (hidle : ∀ t, (s.threads t).pc = .user) {p : Parts}
    (hp : Taken s.runtime s.threads p) : p ∈ s.runtime.written := by
  rcases hp with hp | ⟨t, ht⟩
  · exact hp
  · rw [(Thread.inHand_of_user (hidle t)).1] at ht
    cases ht

/-- The line of a call is read as its parts. -/
theorem Chronicle.rendered_call (h : Chronicle s) (serde : SerdeJson) (runId : String)
    {c : WriterCall} (hc : c ∈ s.runtime.writer.calls) :
    Rendered serde runId (c.line serde runId) (c.parts.reread serde) := by
  cases c with
  | scope x => exact .scope x
  | record r x =>
    exact .record (h.handed.paired ⟨some r, x⟩ r (.inl (List.mem_map.2 ⟨_, hc, rfl⟩)) rfl)

/-- The lines written are those of the entries. -/
theorem Chronicle.rendered (h : Chronicle s) (serde : SerdeJson) (runId : String) :
    List.Forall₂ (Rendered serde runId) (s.runtime.writer.calls.map (WriterCall.line serde runId))
      (s.runtime.asRead serde) := by
  rw [Runtime.asRead, Runtime.written, List.map_map, List.forall₂_map_left_iff,
    List.forall₂_map_right_iff]
  exact List.forall₂_same.2 fun c hc => h.rendered_call serde runId hc

/-- Records that have distinct ids, and exit each scope once, do so as they are
    read. -/
theorem pairwise_reread (serde : SerdeJson) {records : List Record}
    (hids : records.Pairwise fun x y => x.id ≠ y.id)
    (hexits : records.Pairwise fun x y => ∀ id o o',
      Journal.exitOf x = some (id, o) → Journal.exitOf y ≠ some (id, o')) :
    (records.map (Record.reread serde)).Pairwise (fun x y => x.id ≠ y.id) ∧
      (records.map (Record.reread serde)).Pairwise fun x y => ∀ id o o',
        Journal.exitOf x = some (id, o) → Journal.exitOf y ≠ some (id, o') := by
  have hexit : ∀ x : Record, Journal.exitOf (x.reread serde) = Journal.exitOf x :=
    RunBuilder.exitOf_mapDoubles serde.reread
  simp only [List.pairwise_map, Record.reread_id, hexit]
  exact ⟨hids, hexits⟩

variable (h : Chronicle s) (hidle : ∀ t, (s.threads t).pc = .user)
include h hidle

theorem Chronicle.records_perm : s.runtime.writtenRecords.Perm s.runtime.pushed :=
  h.handed.records.perm fun t => by rw [(Thread.inHand_of_user (hidle t)).1]; rfl

theorem Chronicle.entered_written {l : Life} (hl : l ∈ s.runtime.lives) :
    ∃ y ∈ s.runtime.written.filterMap (·.scope), y.id = l.scope.id := by
  rcases h.handed.entered l hl with ⟨p, hp, y, hy, hid⟩ | ⟨t, ht⟩
  · exact ⟨y, List.mem_filterMap.2 ⟨p, hp, hy⟩, hid⟩
  · rw [(Thread.inHand_of_user (hidle t)).2] at ht
    cases ht

theorem Chronicle.closed_written {l : Life} (hl : l ∈ s.runtime.lives) (hexited : l.exited.isSome) :
    ∃ y ∈ s.runtime.written.filterMap (·.scope), y.id = l.scope.id ∧ y.exitedAt.isSome := by
  obtain ⟨p, y, hp, hy, hid⟩ := h.handed.closed l hl hexited
  exact ⟨y, List.mem_filterMap.2 ⟨p, written_of_taken hidle hp, hy⟩, hid⟩

/-- **The load of what was written** has all of it, as it is read. -/
theorem Chronicle.restored {serde : SerdeJson} (hs : serde.Lawful) {runId : String} (hne : runId ≠ "")
    (source : Option String) {bytes : Bytes}
    (hbytes : bytes = unlines (s.runtime.writer.calls.map (WriterCall.line serde runId))) :
    ∃ saved, load serde [⟨source, bytes⟩] = .ok saved ∧
      saved.Restores runId (s.runtime.pushed.map (Record.reread serde)) s.runtime := by
  have hclass := classify_rendered hs hne (h.rendered serde runId) (.inl hbytes)
  have hperm := h.records_perm hidle
  have hread : ((s.runtime.asRead serde).filterMap (·.record)).Perm
      (s.runtime.pushed.map (Record.reread serde)) := by
    rw [Runtime.asRead_records]
    exact hperm.map _
  by_cases hempty : s.runtime.writer.calls = []
  · have hraw : rawLines bytes = [] := by
      rw [Runtime.asRead, Runtime.written, hempty] at hclass
      exact List.map_eq_nil_iff.1 hclass
    have hlines : inputLines [⟨source, bytes⟩] = [] := by
      simp [inputLines, InputFile.lines, hraw]
    refine ⟨⟨[], []⟩, by rw [load, foldlM_read, hlines]; rfl, rfl, fun _ => ⟨rfl, ?_, ?_⟩,
      fun hcalls => absurd hempty hcalls⟩
    · rw [Runtime.writtenRecords, Runtime.written, hempty] at hperm
      exact List.perm_nil.1 hperm.symm
    · rw [List.eq_nil_iff_forall_not_mem]
      intro l hl
      obtain ⟨y, hy, -⟩ := h.entered_written hidle hl
      rw [Runtime.written, hempty] at hy
      cases hy
  · have hps : s.runtime.asRead serde ≠ [] := fun hnil =>
      hempty (List.map_eq_nil_iff.1 (List.map_eq_nil_iff.1 hnil))
    obtain ⟨hdistinct, honce⟩ := pairwise_reread serde h.numbered.distinct h.numbered.exitsOnce
    obtain ⟨scopes, hagree, hmerged⟩ := agreeAll_of_shows h.tracked.ids serde
      (s.runtime.asRead serde)
      (fun p hp x hx => by
        obtain ⟨q, hq, rfl⟩ := List.mem_map.1 hp
        obtain ⟨l, hl, hshows, -⟩ := h.handed.backed q x (.inl hq) hx
        exact ⟨l, hl, hshows⟩)
      (RunBuilder.new (some runId) source).run (merged_nil _)
      ((hread.pairwise_iff fun hxy => Ne.symm hxy).2 hdistinct)
      ((hread.pairwise_iff fun hxy id o o' hy hx => hxy id o' o hx hy).2 honce)
    obtain ⟨b, hwf, hrun, hsource, hload⟩ := load_entries hs hclass hps hagree
    rw [List.nil_append, Runtime.asRead_scopes] at hmerged
    have hknown : ∀ id, s.runtime.Known id → id ∈ scopes.map (·.id) := by
      rintro id ⟨l, hl, rfl⟩
      obtain ⟨y, hy, hid⟩ := h.entered_written hidle hl
      obtain ⟨x, hx, hxid, -⟩ := hmerged.found y hy
      exact List.mem_map.2 ⟨x, hx, hxid.trans hid⟩
    have hbelow : ParentsBelow b.run.scopes := by
      rw [hrun]
      intro x hx p hp
      obtain ⟨l, hl, hshows⟩ := hmerged.shows x hx
      rw [hshows.id]
      exact (h.tracked.parents l hl p (hshows.parent ▸ hp)).1
    have hmissing : b.missing = [] := by
      rw [List.eq_nil_iff_forall_not_mem]
      intro id hid
      rw [RunBuilder.missing, hrun] at hid
      obtain ⟨hneeded, hno⟩ := mem_missingOf.1 hid
      refine hno (hknown id ?_)
      rcases List.mem_append.1 hneeded with hp | hr
      · obtain ⟨x, hx, hxp⟩ := List.mem_filterMap.1 hp
        obtain ⟨l, hl, hshows⟩ := hmerged.shows x hx
        exact (h.tracked.parents l hl id (hshows.parent ▸ hxp)).2
      · obtain ⟨x, hx, hxs⟩ := List.mem_filterMap.1 hr
        obtain ⟨r, hr, rfl⟩ := List.mem_map.1 (hread.subset hx)
        exact h.numbered.named r hr id hxs
    have hcompleted : completed b.run = RunBuilder.withPlaceholders b.run [] := by
      rw [completed, show missingOf _ _ = [] from hmissing]
    rw [finish_below hwf hbelow, hmissing, hcompleted] at hload
    refine ⟨_, hload, rfl, fun hcalls => absurd hcalls hempty, fun _ => ⟨_, rfl, ?_, ?_, ?_⟩⟩
    · rw [RunBuilder.withPlaceholders, hrun]
      rfl
    · rw [RunBuilder.withPlaceholders, hrun]
      exact hread
    · rw [RunBuilder.withPlaceholders, hrun, List.map_nil, List.append_nil]
      exact hmerged.restored h.tracked.ids (fun l hl => h.entered_written hidle hl)
        fun l hl => h.closed_written hidle hl

end

/-! ## Runs of some threads -/

namespace Process

/-- What holds of all threads of a run in which only some have made calls. -/
theorem forall_threads {runId : String} {max : ℕ} {ts : List ThreadId} {actions : List Action}
    {s : Process} (h : Machine.run step (.new runId true max) actions = some s)
    (hcalls : ∀ a ∈ actions, ∃ t ∈ ts, ∃ b, a = .call t b) {P : Thread → Prop}
    (hnew : P ⟨.user, [], [], false⟩) (hts : ∀ t ∈ ts, P (s.threads t)) (u : ThreadId) :
    P (s.threads u) := by
  by_cases hu : u ∈ ts
  · exact hts u hu
  · have hsame : s.threads u = ⟨.user, [], [], false⟩ := by
      refine Machine.run_invariant_of_meets (I := fun s => s.threads u = ⟨.user, [], [], false⟩) ?_ h
        (Machine.meets_of_forall fun a ha _ => hcalls a ha) rfl
      rintro s₁ a s₂ hs₁ ⟨t, ht, b, rfl⟩ hs
      obtain ⟨r, th, -, -, hthreads, -⟩ := call_inv hs
      have hne : u ≠ t := by
        rintro rfl
        exact hu ht
      rw [hthreads, Function.update_of_ne hne, hs₁]
    rw [hsame]
    exact hnew

end Process

/-- A call that emits a record. -/
def emitTick : Act := .emit .info "tick" .new 2000

def exitRequest : Act := .exitScope ⟨0⟩ .success 20 2000 2000

/-- A thread emits a record while another enters a scope. -/
def tickBesideEnter : List Action :=
  [.call 0 emitTick, .call 1 (.enterScope "request" 10 1000), .call 0 .next, .call 1 .next,
    .call 0 .next, .call 1 .next, .call 0 .next]

/-- The other thread exits the scope before the record is written. -/
def tickBesideExit : List Action :=
  tickBesideEnter ++ [.call 1 exitRequest, .call 0 .next, .call 1 .next]

theorem tickBesideExit_calls : ∀ a ∈ tickBesideExit, ∃ t ∈ [0, 1], ∃ b, a = .call t b := by
  simp [tickBesideExit, tickBesideEnter]

theorem tickBesideExit_live : Machine.Meets Process.step Process.Live
    (.new (newRunId (1, 2) 0) true 500) tickBesideExit := by
  refine Machine.meets_append.2 ⟨Machine.meets_of_forall fun a ha s => ?_, fun s hs => ?_⟩
  · simp only [tickBesideEnter, emitTick, List.mem_cons, List.not_mem_nil, or_false] at ha
    rcases ha with rfl | rfl | rfl | rfl | rfl | rfl | rfl <;> trivial
  · have hcalls : ∀ a ∈ tickBesideEnter, ∃ t ∈ [0, 1], ∃ b, a = .call t b := by
      simp [tickBesideEnter]
    have hpending : ∀ t, (s.threads t).pending = none := by
      refine Process.forall_threads (P := fun th => th.pending = none) hs hcalls rfl ?_
      obtain rfl := Option.some.inj hs
      simp only [List.forall_mem_cons, List.not_mem_nil, false_implies, implies_true, and_true]
      exact ⟨rfl, rfl⟩
    obtain rfl := Option.some.inj hs
    refine ⟨⟨⟨_, .head _, rfl⟩, fun t => by rw [hpending t]; simp⟩, fun s₁ _ => ?_⟩
    exact ⟨trivial, fun s₂ _ => ⟨trivial, fun _ _ => trivial⟩⟩

/-- The writer gets the scope, the record and the exit. -/
theorem tickBesideExit_run : ∃ s tick entered exit exited,
    Machine.run Process.step (.new (newRunId (1, 2) 0) true 500) tickBesideExit = some s ∧
    (∀ t, (s.threads t).pc = .user) ∧ s.runtime.lives.length = 1 ∧ s.runtime.recordIds = 2 ∧
    s.runtime.pushed.length = 2 ∧
    s.runtime.writer.calls = [.scope entered, .record tick none, .record exit (some exited)] := by
  obtain ⟨s, hs, hzero, hone, hlives, hids, hpushed, hcalls⟩ : ∃ s,
      Machine.run Process.step (.new (newRunId (1, 2) 0) true 500) tickBesideExit = some s ∧
      (s.threads 0).pc = .user ∧ (s.threads 1).pc = .user ∧ s.runtime.lives.length = 1 ∧
      s.runtime.recordIds = 2 ∧ s.runtime.pushed.length = 2 ∧
      ∃ tick entered exit exited, s.runtime.writer.calls =
        [.scope entered, .record tick none, .record exit (some exited)] :=
    ⟨_, rfl, rfl, rfl, rfl, rfl, rfl, _, _, _, _, rfl⟩
  obtain ⟨tick, entered, exit, exited, hcalls⟩ := hcalls
  have hidle : ∀ t, (s.threads t).pc = .user :=
    Process.forall_threads (P := fun th => th.pc = .user) hs tickBesideExit_calls rfl
      (by simp [hzero, hone])
  exact ⟨s, tick, entered, exit, exited, hs, hidle, hlives, hids, hpushed, hcalls⟩

/-! ## The file of a live run -/

/-- **Live history is complete.**  For every interleaving of the sections of live
    steps, by any number of threads: once all calls have returned and the sink
    is flushed, its file loads without an issue as one run, with the records
    pushed and the scopes entered, as long as at most 2⁶⁴ ids of each kind were
    given out and the text of a double is read as that double. -/
theorem live_history_complete {serde : SerdeJson} (hs : serde.Lawful) (hexact : serde.Exact)
    (process : UInt64 × UInt64) (next : UInt64) (max : ℕ) (actions : List Action) (s : Process) (source : Option String)
    (bytes : Bytes)
    (hrun : Machine.run Process.step (.new (newRunId process next) true max) actions = some s)
    (hlive : Machine.Meets Process.step Process.Live (.new (newRunId process next) true max) actions)
    (hreturned : ∀ t, (s.threads t).pc = .user)
    (hflushed : FlushedTo serde (newRunId process next) s.runtime.writer.calls bytes)
    (hscopes : s.runtime.lives.length ≤ 2 ^ 64) (hrecords : s.runtime.recordIds ≤ 2 ^ 64) :
    ∃ saved, load serde [⟨source, bytes⟩] = .ok saved ∧
      saved.Restores (newRunId process next) s.runtime.pushed s.runtime := by
  have h := (Chronicle.of_run hrun hlive hscopes hrecords).restored hreturned hs
    (newRunId_ne process next) source hflushed.bytes_eq
  rwa [map_reread_of_exact hexact] at h

theorem live_history_complete_small : ∃ s bytes saved,
    Machine.run Process.step (.new (newRunId (1, 2) 0) true 500) tickBesideExit = some s ∧
    load compactSerde [⟨none, bytes⟩] = .ok saved ∧
    saved.Restores (newRunId (1, 2) 0) s.runtime.pushed s.runtime ∧ s.runtime.pushed.length = 2 := by
  obtain ⟨s, tick, entered, exit, exited, hs, hidle, hlives, hids, hpushed, -⟩ := tickBesideExit_run
  obtain ⟨saved, hload, hrestores⟩ := live_history_complete compactSerde_lawful compactSerde_exact
    (1, 2) 0 500 _ s none _ hs tickBesideExit_live hidle (flushedTo_unlines _ _ _)
    (by rw [hlives]; decide) (by rw [hids]; decide)
  exact ⟨s, _, saved, hs, hload, hrestores, hpushed⟩

/-! ## Record ids that have wrapped -/

/-- An exit of a scope that has exited uses up a record id, and nothing else. -/
theorem act_exitRequest {r : Runtime} {th : Thread} (hpc : th.pc = .user) (hstack : th.stack = [])
    (hclosed : r.journal.buffer.scopes.finalizeScopeExitAt ⟨0⟩ 2000 20 =
      .ok (r.journal.buffer.scopes, none)) :
    r.act th exitRequest =
      some ({ r with
        journal := { r.journal with nextRecordId := r.journal.nextRecordId + 1 }
        recordIds := r.recordIds + 1 }, th) := by
  obtain ⟨pc, stack, frames, panicked⟩ := th
  obtain rfl : pc = .user := hpc
  obtain rfl : stack = [] := hstack
  show r.exitScope _ _ _ _ _ _ = _
  rw [Runtime.exitScope, Journal.exitScopeNoWrite, hclosed]
  rfl

theorem run_exitRequests {s : Process} (hreturned : s.Returned ⟨0⟩) (hpc : (s.threads 0).pc = .user)
    (hstack : (s.threads 0).stack = [])
    (hclosed : s.runtime.journal.buffer.scopes.finalizeScopeExitAt ⟨0⟩ 2000 20 =
      .ok (s.runtime.journal.buffer.scopes, none)) (k : ℕ) :
    ∃ contexts, Machine.run Process.step s ((List.replicate k exitRequest).map (.call 0)) =
      some { s with
        runtime := { s.runtime with
          journal := { s.runtime.journal with
            nextRecordId := s.runtime.journal.nextRecordId + UInt64.ofNat k }
          recordIds := s.runtime.recordIds + k }
        contexts } ∧
      Machine.Meets Process.step Process.Live s ((List.replicate k exitRequest).map (.call 0)) := by
  induction k generalizing s with
  | zero => exact ⟨s.contexts, by simp, trivial⟩
  | succ k ih =>
    obtain ⟨contexts, hs⟩ : ∃ contexts, s.step (.call 0 exitRequest) = some { s with
        runtime := { s.runtime with
          journal := { s.runtime.journal with nextRecordId := s.runtime.journal.nextRecordId + 1 }
          recordIds := s.runtime.recordIds + 1 }
        contexts } := by
      simp only [Process.step, Process.call, act_exitRequest hpc hstack hclosed]
      exact ⟨_, by rw [Option.bind_eq_bind, Option.bind_some, Function.update_eq_self]⟩
    obtain ⟨contexts', hrun, hmeets⟩ := ih (s := { s with
        runtime := { s.runtime with
          journal := { s.runtime.journal with nextRecordId := s.runtime.journal.nextRecordId + 1 }
          recordIds := s.runtime.recordIds + 1 }
        contexts }) hreturned hpc hstack hclosed
    refine ⟨contexts', ?_, hreturned, fun s' hs' => ?_⟩
    · have hnext : s.runtime.journal.nextRecordId + 1 + UInt64.ofNat k =
          s.runtime.journal.nextRecordId + UInt64.ofNat (k + 1) := by
        rw [UInt64.ofNat_add, UInt64.add_assoc, UInt64.add_comm (UInt64.ofNat k)]
        rfl
      have hids : s.runtime.recordIds + 1 + k = s.runtime.recordIds + (k + 1) := by omega
      rw [List.replicate_succ, List.map_cons, Machine.run_cons_eq_some]
      refine ⟨_, hs, ?_⟩
      rw [hrun]
      simp only [hnext, hids]
    · obtain rfl := Option.some.inj (hs.symm.trans hs')
      exact hmeets

/-- After 2⁶⁴ record ids a thread can emit the same record again; then the file
    does not hold the history. -/
theorem live_history_loses_record : ∃ (actions : List Action) (s : Process) (bytes : Bytes),
    Machine.run Process.step (.new (newRunId (1, 2) 0) true 500) actions = some s ∧
    Machine.Meets Process.step Process.Live (.new (newRunId (1, 2) 0) true 500) actions ∧
    (∀ t, (s.threads t).pc = .user) ∧
    FlushedTo compactSerde (newRunId (1, 2) 0) s.runtime.writer.calls bytes ∧
    ∀ saved, load compactSerde [⟨none, bytes⟩] = .ok saved →
      ¬ saved.Restores (newRunId (1, 2) 0) s.runtime.pushed s.runtime := by
  obtain ⟨s₁, hs₁, hzero, hone, hknown, hstack, hclosed, hnext, hagain⟩ : ∃ s,
      Machine.run Process.step (.new (newRunId (1, 2) 0) true 500) tickBesideExit = some s ∧
      (s.threads 0).pc = .user ∧ (s.threads 1).pc = .user ∧ s.runtime.Known ⟨0⟩ ∧
      (s.threads 0).stack = [] ∧
      s.runtime.journal.buffer.scopes.finalizeScopeExitAt ⟨0⟩ 2000 20 =
        .ok (s.runtime.journal.buffer.scopes, none) ∧
      s.runtime.journal.nextRecordId + UInt64.ofNat (2 ^ 64 - 2) = 0 ∧
      ∀ ids contexts, ∃ s' entered exited exit, Machine.run Process.step { s with
          runtime := { s.runtime with
            journal := { s.runtime.journal with nextRecordId := 0 }
            recordIds := ids }
          contexts } ([emitTick, .next, .next].map (.call 0)) = some s' ∧
        (s'.threads 0).pc = .user ∧ (s'.threads 1).pc = .user ∧ exited.id = ⟨0⟩ ∧
        s'.runtime.pushed = [⟨⟨0⟩, none, 2000, .event .info "tick" .new⟩,
          ⟨⟨1⟩, some ⟨0⟩, 2000, exit⟩, ⟨⟨0⟩, none, 2000, .event .info "tick" .new⟩] ∧
        s'.runtime.writer.calls = [.scope entered,
          .record ⟨⟨0⟩, none, 2000, .event .info "tick" .new⟩ none,
          .record ⟨⟨1⟩, some ⟨0⟩, 2000, exit⟩ (some exited),
          .record ⟨⟨0⟩, none, 2000, .event .info "tick" .new⟩ none] :=
    ⟨_, rfl, rfl, rfl, ⟨_, .head _, rfl⟩, rfl, rfl, rfl,
      fun _ _ => ⟨_, _, _, _, rfl, rfl, rfl, by rfl, rfl, rfl⟩⟩
  have hidle : ∀ t, (s₁.threads t).pc = .user :=
    Process.forall_threads (P := fun th => th.pc = .user) hs₁ tickBesideExit_calls rfl
      (by simp [hzero, hone])
  have hreturned : s₁.Returned ⟨0⟩ := by
    refine ⟨hknown, fun t => ?_⟩
    rw [(Thread.inHand_of_user (hidle t)).2]
    simp
  obtain ⟨contexts, hs₂, hlive⟩ := run_exitRequests hreturned hzero hstack hclosed (2 ^ 64 - 2)
  rw [hnext] at hs₂
  obtain ⟨s₃, entered, exited, exit, hs₃, hzero₃, hone₃, hid, hpushed, hcalls⟩ :=
    hagain (s₁.runtime.recordIds + (2 ^ 64 - 2)) contexts
  have hrun₂ := Machine.run_append_eq_some.2 ⟨s₁, hs₁, hs₂⟩
  have hrun := Machine.run_append_eq_some.2 ⟨_, hrun₂, hs₃⟩
  refine ⟨_, s₃, _, hrun, ?_, ?_, flushedTo_unlines _ _ _, fun saved hload hrestores => ?_⟩
  · refine Machine.meets_append.2 ⟨Machine.meets_append.2 ⟨tickBesideExit_live, fun s hs => ?_⟩,
      fun _ _ => ?_⟩
    · obtain rfl := Option.some.inj (hs₁.symm.trans hs)
      exact hlive
    · exact ⟨trivial, fun _ _ => ⟨trivial, fun _ _ => ⟨trivial, fun _ _ => trivial⟩⟩⟩
  · refine Process.forall_threads (P := fun th => th.pc = .user) hrun
      (show ∀ a ∈ _, ∃ t ∈ [0, 1], ∃ b, a = Action.call t b from fun a ha => ?_) rfl
      (by simp [hzero₃, hone₃])
    rcases List.mem_append.1 ha with ha | ha
    · rcases List.mem_append.1 ha with ha | ha
      · exact tickBesideExit_calls a ha
      · obtain ⟨b, -, rfl⟩ := List.mem_map.1 ha
        exact ⟨0, .head _, b, rfl⟩
    · obtain ⟨b, -, rfl⟩ := List.mem_map.1 ha
      exact ⟨0, .head _, b, rfl⟩
  · rw [hcalls] at hload
    obtain ⟨run, hruns, hrestored⟩ := hrestores.run (by simp [hcalls])
    have htick : Record.Paired ⟨⟨0⟩, none, 2000, .event .info "tick" .new⟩ none :=
      ⟨by simp, by simp⟩
    have hexit : Record.Paired ⟨⟨1⟩, some ⟨0⟩, 2000, exit⟩ (some exited) :=
      ⟨by simp, by simp [hid]⟩
    have hnodup := load_nodup compactSerde_lawful (newRunId_ne (1, 2) 0)
      (.cons (.scope entered) (.cons (.record htick) (.cons (.record hexit)
        (.cons (.record htick) .nil)))) (by simp) hload run (by rw [hruns]; exact .head _)
    have htwice := hrestored.records.nodup_iff.1 hnodup
    rw [hpushed] at htwice
    exact (List.nodup_cons.1 htwice).1 (by simp)

end Eventline
