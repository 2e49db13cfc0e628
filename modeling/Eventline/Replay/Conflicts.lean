/-
  Overlaps and contradictions in a saved run.

  A record is compared with the first one of its id, a snapshot of a scope with
  what was merged from the earlier ones, and an exit with the first one of its
  scope.

  * `retainedOf`: the records kept of those decoded; `FirstCopies` says when no
    two of them are the same on the wire (`overlaps_deduplicated`).
  * `Faithful`: the invariant of the comparisons; without issues, all that was
    decoded agrees with the first.
  * `contradictions_reported`: no record is lost, and every contradiction of two
    entries is reported.
  * `conflicting_copies_kept`: copies of a conflicting record are all kept.
-/
import Eventline.Replay.Report
import Eventline.Replay.Isolation

namespace Eventline

open Text Checked Slots

/-! ## The records that are kept -/

section
variable (serde : SerdeJson)

/-- The records kept of a list of decoded ones. -/
def retainedOf (ds : List Record) : List Record := ds.foldl (absorbRecord serde) []

/-- Only copies of the first record of an id come again: a record that is the
    same on the wire as an earlier one is the same as the first of its id. -/
def FirstCopies (ds : List Record) : Prop :=
  ds.Pairwise fun d e => comparisonJson serde d = comparisonJson serde e →
    ∃ first, (ds.find? fun r => r.id = e.id) = some first ∧
      comparisonJson serde first = comparisonJson serde e

/-- No two records are the same on the wire, embedded scopes apart. -/
def WireDistinct (rs : List Record) : Prop :=
  rs.Pairwise fun r r' => comparisonJson serde r ≠ comparisonJson serde r'

end

section
variable {serde : SerdeJson} {ds : List Record}

theorem retainedOf_concat (ds : List Record) (d : Record) :
    retainedOf serde (ds ++ [d]) = absorbRecord serde (retainedOf serde ds) d := by
  rw [retainedOf, List.foldl_append]
  rfl

/-- Records are kept in input order. -/
theorem retainedOf_sublist : (retainedOf serde ds).Sublist ds := by
  induction ds using List.reverseRecOn with
  | nil => exact .slnil
  | append_singleton ds d ih =>
    rw [retainedOf_concat, absorbRecord]
    split_ifs
    · exact ih.trans (List.sublist_append_left _ _)
    · exact ih.append (List.Sublist.refl _)

/-- The first record of an id is the first one decoded. -/
theorem find?_retainedOf (id : RecordId) :
    ((retainedOf serde ds).find? fun r => r.id = id) = ds.find? fun r => r.id = id := by
  induction ds using List.reverseRecOn with
  | nil => rfl
  | append_singleton ds d ih =>
    rw [retainedOf_concat, absorbRecord, List.find?_append]
    split_ifs with h
    · rw [ih]
      by_cases hid : d.id = id
      · subst hid
        obtain ⟨first, hfirst, -⟩ := (Option.any_eq_true _ _).1 h
        rw [ih] at hfirst
        rw [hfirst]
        rfl
      · have hnone : [d].find? (fun r => r.id = id) = none := by simp [hid]
        rw [hnone, Option.or_none]
    · rw [List.find?_append, ih]

/-- Every decoded record is the same on the wire as one that is kept. -/
theorem exists_retainedOf {d : Record} (h : d ∈ ds) :
    ∃ r ∈ retainedOf serde ds, comparisonJson serde r = comparisonJson serde d := by
  induction ds using List.reverseRecOn with
  | nil => cases h
  | append_singleton ds e ih =>
    rw [retainedOf_concat, absorbRecord]
    rcases List.mem_append.1 h with h | h
    · obtain ⟨r, hr, heq⟩ := ih h
      split_ifs
      · exact ⟨r, hr, heq⟩
      · exact ⟨r, List.mem_append_left _ hr, heq⟩
    · obtain rfl := List.mem_singleton.1 h
      split_ifs with hany
      · obtain ⟨first, hfirst, hsame⟩ := (Option.any_eq_true _ _).1 hany
        exact ⟨first, List.mem_of_find?_eq_some hfirst, by simpa using hsame⟩
      · exact ⟨d, List.mem_append_right _ (List.mem_singleton.2 rfl), rfl⟩

/-- **The records kept are distinct** exactly when only first records are copied. -/
theorem wireDistinct_iff
    (hid : ∀ d ∈ ds, ∀ e ∈ ds, comparisonJson serde d = comparisonJson serde e → d.id = e.id) :
    WireDistinct serde (retainedOf serde ds) ↔ FirstCopies serde ds := by
  induction ds using List.reverseRecOn with
  | nil => exact ⟨fun _ => .nil, fun _ => .nil⟩
  | append_singleton ds e ih =>
    have hold := ih fun d hd d' hd' =>
      hid d (List.mem_append_left _ hd) d' (List.mem_append_left _ hd')
    -- the first record of an id that is there stays the first
    have hstays : ∀ d ∈ ds, ((ds ++ [e]).find? fun r => r.id = d.id) =
        ds.find? fun r => r.id = d.id := by
      intro d hd
      obtain ⟨first, hfirst⟩ : ∃ first, (ds.find? fun r => r.id = d.id) = some first := by
        rw [← Option.isSome_iff_exists, List.find?_isSome]
        exact ⟨d, hd, by simp⟩
      rw [List.find?_append, hfirst]
      rfl
    have hcopies : FirstCopies serde (ds ++ [e]) ↔ FirstCopies serde ds ∧
        ∀ d ∈ ds, comparisonJson serde d = comparisonJson serde e →
          ∃ first, (ds.find? fun r => r.id = e.id) = some first ∧
            comparisonJson serde first = comparisonJson serde e := by
      unfold FirstCopies
      rw [List.pairwise_append]
      constructor
      · rintro ⟨hds, -, hlast⟩
        refine ⟨hds.imp_of_mem ?_, ?_⟩
        · intro d d' _ hd' himp heq
          rw [← hstays d' hd']
          exact himp heq
        · intro d hd heq
          have := hlast d hd e (List.mem_singleton.2 rfl) heq
          rwa [← hid d (List.mem_append_left _ hd) e (by simp) heq, hstays d hd,
            hid d (List.mem_append_left _ hd) e (by simp) heq] at this
      · rintro ⟨hds, hlast⟩
        refine ⟨hds.imp_of_mem ?_, List.pairwise_singleton _ _, ?_⟩
        · intro d d' _ hd' himp heq
          rw [hstays d' hd']
          exact himp heq
        · intro d hd e' he' heq
          obtain rfl := List.mem_singleton.1 he'
          rw [← hid d (List.mem_append_left _ hd) e' (by simp) heq, hstays d hd,
            hid d (List.mem_append_left _ hd) e' (by simp) heq]
          exact hlast d hd heq
    have hall : (∀ r ∈ retainedOf serde ds, comparisonJson serde r ≠ comparisonJson serde e) ↔
        ∀ d ∈ ds, comparisonJson serde d ≠ comparisonJson serde e := by
      constructor
      · intro h d hd heq
        obtain ⟨r, hr, hrd⟩ : ∃ r ∈ retainedOf serde ds,
          comparisonJson serde r = comparisonJson serde d := exists_retainedOf hd
        exact h r hr (hrd.trans heq)
      · exact fun h r hr => h r (retainedOf_sublist.subset hr)
    rw [hcopies, retainedOf_concat, absorbRecord, find?_retainedOf, ← hold]
    split_ifs with hany
    · obtain ⟨first, hfirst, hsame⟩ := (Option.any_eq_true _ _).1 hany
      exact ⟨fun h => ⟨h, fun d _ _ => ⟨first, hfirst, by simpa using hsame⟩⟩, fun h => h.1⟩
    · unfold WireDistinct
      rw [List.pairwise_append]
      have hlast : (∀ r ∈ retainedOf serde ds, ∀ r' ∈ [e],
          comparisonJson serde r ≠ comparisonJson serde r') ↔
          ∀ d ∈ ds, comparisonJson serde d = comparisonJson serde e →
            ∃ first, (ds.find? fun r => r.id = e.id) = some first ∧
              comparisonJson serde first = comparisonJson serde e := by
        simp only [List.mem_singleton, forall_eq]
        rw [hall]
        constructor
        · exact fun h d hd heq => absurd heq (h d hd)
        · intro h d hd heq
          obtain ⟨first, hfirst, hsame⟩ := h d hd heq
          refine hany ?_
          rw [hfirst]
          simpa using hsame
      rw [hlast]
      exact ⟨fun h => ⟨h.1, h.2.2⟩, fun h => ⟨h.1, List.pairwise_singleton _ _, h.2⟩⟩

end

/-! ## What an entry reports -/

/-- The new snapshot is of the same identity, and keeps an exit. -/
def Scope.Extends (x s : Scope) : Prop :=
  x.id = s.id ∧ x.parent = s.parent ∧ x.enteredAt = s.enteredAt ∧ x.name = s.name ∧
    ∀ t, s.exitedAt = some t → x.exitedAt = some t

theorem Scope.Extends.refl (s : Scope) : s.Extends s := ⟨rfl, rfl, rfl, rfl, fun _ h => h⟩

theorem Scope.Extends.trans {x y z : Scope} (h : x.Extends y) (h' : y.Extends z) : x.Extends z :=
  ⟨h.1.trans h'.1, h.2.1.trans h'.2.1, h.2.2.1.trans h'.2.2.1, h.2.2.2.1.trans h'.2.2.2.1,
    fun t ht => h.2.2.2.2 t (h'.2.2.2.2 t ht)⟩

theorem Scope.merge_extends (x s : Scope) : (x.merge s).Extends x := by
  refine ⟨rfl, rfl, rfl, rfl, ?_⟩
  intro t ht
  simp [Scope.merge, ht]

/-- A snapshot that does not conflict is extended by the merge. -/
theorem Scope.merge_extends_incoming {x s : Scope} (hid : x.id = s.id)
    (h : x.conflicts s = false) : (x.merge s).Extends s := by
  simp only [Scope.conflicts, Bool.or_eq_false_iff, decide_eq_false_iff_not, ne_eq,
    Decidable.not_not] at h
  obtain ⟨⟨⟨hparent, hentered⟩, hname⟩, hexit⟩ := h
  refine ⟨hid, hparent, hentered, hname, ?_⟩
  intro t ht
  rw [ht] at hexit
  cases hx : x.exitedAt with
  | none => simp [Scope.merge, hx, ht]
  | some u =>
    rw [hx] at hexit
    obtain rfl : u = t := by simpa using hexit
    simp [Scope.merge, hx]

/-- Two snapshots that one scope extends do not contradict each other. -/
theorem Scope.Extends.agree {x s t : Scope} (hs : x.Extends s) (ht : x.Extends t) :
    s.conflicts t = false := by
  obtain ⟨-, hps, hes, hns, hxs⟩ := hs
  obtain ⟨-, hpt, het, hnt, hxt⟩ := ht
  unfold Scope.conflicts
  rw [← hps, hpt, ← hes, het, ← hns, hnt]
  simp only [ne_eq, not_true_eq_false, decide_false, Bool.false_or]
  cases hse : s.exitedAt with
  | none => rfl
  | some a =>
    cases hte : t.exitedAt with
    | none => rfl
    | some b =>
      have heq := (hxs a hse).symm.trans (hxt b hte)
      simpa using heq

theorem absorbScope_keeps {l : List Scope} {x : Scope} (hx : x ∈ l) (s : Scope) :
    ∃ y ∈ absorbScope l s, y.Extends x := by
  unfold absorbScope
  split_ifs with hany
  · clear hany
    induction l with
    | nil => cases hx
    | cons a l ih =>
      unfold updateFirst
      by_cases ha : a.id = s.id
      · simp only [ha, decide_true, if_true]
        rcases List.mem_cons.1 hx with rfl | hx
        · refine ⟨_, List.mem_cons_self, ?_⟩
          split_ifs
          · exact .refl x
          · exact x.merge_extends s
        · exact ⟨x, List.mem_cons_of_mem _ hx, .refl x⟩
      · simp only [ha, decide_false, Bool.false_eq_true, if_false]
        rcases List.mem_cons.1 hx with rfl | hx
        · exact ⟨x, List.mem_cons_self, .refl x⟩
        · obtain ⟨y, hy, hyx⟩ := ih hx
          exact ⟨y, List.mem_cons_of_mem _ hy, hyx⟩
  · exact ⟨x, List.mem_append_left _ hx, .refl x⟩

/-- A snapshot without conflict is there after it is absorbed. -/
theorem absorbScope_adds {l : List Scope} {s : Scope}
    (h : (l.any fun x => x.id = s.id && x.conflicts s) = false) :
    ∃ y ∈ absorbScope l s, y.Extends s := by
  unfold absorbScope
  split_ifs with hany
  · induction l with
    | nil => simp at hany
    | cons a l ih =>
      rw [List.any_cons, Bool.or_eq_false_iff] at h
      unfold updateFirst
      by_cases ha : a.id = s.id
      · simp only [ha, decide_true, Bool.true_and] at h
        simp only [ha, decide_true, if_true, h.1, Bool.false_eq_true, if_false]
        exact ⟨_, List.mem_cons_self, Scope.merge_extends_incoming ha h.1⟩
      · simp only [ha, decide_false, Bool.false_eq_true, if_false]
        obtain ⟨y, hy, hys⟩ := ih h.2 (by simpa [ha] using hany)
        exact ⟨y, List.mem_cons_of_mem _ hy, hys⟩
  · exact ⟨s, List.mem_append_right _ (List.mem_singleton.2 rfl), .refl s⟩

/-- **What adding a record reports**, by the first record of its id. -/
theorem RunBuilder.addRecord_report {serde : SerdeJson} (hs : serde.Lawful) {b b' : RunBuilder}
    (h : b.WF) {r : Record} {issue : Option (ReplayIssueKind × String)}
    (hadd : b.addRecord serde r = .ok (b', issue)) :
    match b.run.records.find? fun x => x.id = r.id with
    | none => b'.outcomes = b.observe r ∧ issue = b.exitConflict r
    | some first =>
      if comparisonJson serde first = comparisonJson serde r then
        b'.outcomes = b.outcomes ∧ issue = none
      else b'.outcomes = b.observe r ∧
        issue = some (.conflictingRecord, conflictingRecordMessage r.id) := by
  have hidx : b.records r.id = b.run.records.findIdx? fun x => x.id = r.id := by rw [h.records]
  cases hi : b.run.records.findIdx? fun x => x.id = r.id with
  | none =>
    have hfind : (b.run.records.find? fun x => x.id = r.id) = none := by
      simpa [List.findIdx?_eq_none_iff] using hi
    rw [addRecord, checkRecord, hidx, hi] at hadd
    obtain ⟨rfl, rfl⟩ := Prod.mk.inj (Except.ok.inj hadd)
    rw [hfind]
    exact ⟨rfl, rfl⟩
  | some i =>
    obtain ⟨pre, first, post, hl, -, hfirst, hpre, hget⟩ := findIdx?_split hi
    have hfind : (b.run.records.find? fun x => x.id = r.id) = some first := by
      have hnone : pre.find? (fun x => x.id = r.id) = none :=
        List.find?_eq_none.2 (by simpa using hpre)
      rw [hl, List.find?_append, hnone, List.find?_cons, hfirst]
      rfl
    obtain ⟨old, hold, hwire⟩ := wireValue_ok hs first
    obtain ⟨new, hnew, hwire'⟩ := wireValue_ok hs r
    rw [addRecord, checkRecord, hidx, hi] at hadd
    simp only [hget, ok_bind, hold, hnew, pure_eq_ok, Json.same_iff, hwire, hwire'] at hadd
    rw [hfind]
    dsimp only
    split_ifs with heq
    · simp only [heq, if_true] at hadd
      obtain ⟨rfl, rfl⟩ := Prod.mk.inj (Except.ok.inj hadd)
      exact ⟨rfl, rfl⟩
    · simp only [heq, if_false] at hadd
      obtain ⟨rfl, rfl⟩ := Prod.mk.inj (Except.ok.inj hadd)
      exact ⟨rfl, rfl⟩

/-! ## The invariant of the comparisons -/

/-- What a builder and the kinds of issues raised so far say about the records
    and snapshots that were merged. -/
structure Faithful (serde : SerdeJson) (ds : List Record) (ss : List Scope) (b : RunBuilder)
    (kinds : List ReplayIssueKind) : Prop where
  wf : b.WF
  records : b.run.records = retainedOf serde ds
  ids : ∀ x ∈ b.run.scopes, ∃ s ∈ ss, s.id = x.id
  first : ∀ id s, (ss.find? fun s => s.id = id) = some s → ∃ x ∈ b.run.scopes, x.Extends s
  sameRecords : .conflictingRecord ∉ kinds → ∀ d ∈ ds,
    ∃ first, (ds.find? fun r => r.id = d.id) = some first ∧
      comparisonJson serde first = comparisonJson serde d
  sameScopes : .conflictingScope ∉ kinds → ∀ s ∈ ss, ∃ x ∈ b.run.scopes, x.Extends s
  sameExits : .conflictingRecord ∉ kinds → .conflictingScope ∉ kinds → ∀ d ∈ ds, ∀ id o,
    RunBuilder.exitOf d = some (id, o) → b.outcomes id = some o

section
variable {serde : SerdeJson} {ds : List Record} {ss : List Scope} {b b' : RunBuilder}
  {kinds : List ReplayIssueKind}

theorem new_faithful (serde : SerdeJson) (runId source : Option String) :
    Faithful serde [] [] (.new runId source) [] where
  wf := RunBuilder.new_wf runId source
  records := rfl
  ids x hx := by cases hx
  first id s h := by cases h
  sameRecords _ d hd := by cases hd
  sameScopes _ s hs := by cases hs
  sameExits _ _ d hd := by cases hd

theorem Faithful.addScope (h : Faithful serde ds ss b kinds) {s : Scope} {m : Option String}
    (hadd : b.addScope s = .ok (b', m)) :
    Faithful serde ds (ss ++ [s]) b' (kinds ++ m.toList.map fun _ => .conflictingScope) := by
  obtain ⟨b₁, hok, hwf, hrun, -, hout⟩ := RunBuilder.addScope_ok h.wf s
  obtain ⟨rfl, rfl⟩ := Prod.mk.inj (Except.ok.inj (hok.symm.trans hadd))
  have hscopes : b₁.run.scopes = absorbScope b.run.scopes s := by rw [hrun]
  have hids : ∀ id, id ∈ b₁.run.scopes.map (·.id) ↔ id ∈ b.run.scopes.map (·.id) ∨ id = s.id := by
    intro id
    rw [hscopes]
    exact RunBuilder.mem_absorbScope_ids
  have hkeeps : ∀ {y}, (∃ x ∈ b.run.scopes, x.Extends y) → ∃ x ∈ b₁.run.scopes, x.Extends y := by
    rintro y ⟨x, hx, hxy⟩
    obtain ⟨z, hz, hzx⟩ := absorbScope_keeps hx s
    exact ⟨z, hscopes ▸ hz, hzx.trans hxy⟩
  have hquiet : ∀ {k : ReplayIssueKind} {m : Option String},
      k ∉ kinds ++ m.toList.map (fun _ => .conflictingScope) → k ∉ kinds :=
    fun hk hmem => hk (List.mem_append_left _ hmem)
  refine ⟨hwf, by rw [hrun]; exact h.records, ?_, ?_, fun hk => h.sameRecords (hquiet hk), ?_, ?_⟩
  · intro x hx
    rcases (hids x.id).1 (List.mem_map.2 ⟨x, hx, rfl⟩) with hid | hid
    · obtain ⟨y, hy, hyx⟩ := List.mem_map.1 hid
      obtain ⟨s', hs', hs'y⟩ := h.ids y hy
      exact ⟨s', List.mem_append_left _ hs', hs'y.trans hyx⟩
    · exact ⟨s, by simp, hid.symm⟩
  · intro id s' hfind
    rw [List.find?_append] at hfind
    cases hold : ss.find? fun s => s.id = id with
    | some first =>
      rw [hold] at hfind
      obtain rfl := Option.some.inj hfind
      exact hkeeps (h.first id first hold)
    | none =>
      -- the first snapshot of its scope is appended
      rw [hold, Option.none_or] at hfind
      have hmem := List.mem_singleton.1 (List.mem_of_find?_eq_some hfind)
      have hid : s.id = id := by simpa [hmem] using List.find?_some hfind
      subst hmem
      have hnone : (b.run.scopes.any fun x => x.id = s'.id && x.conflicts s') = false := by
        rw [List.any_eq_false]
        intro x hx
        obtain ⟨y, hy, hyx⟩ := h.ids x hx
        have hne : y.id ≠ id := by simpa using List.find?_eq_none.1 hold y hy
        have hxne : x.id ≠ s'.id := by rw [← hyx, hid]; exact hne
        simp [hxne]
      obtain ⟨y, hy, hys⟩ := absorbScope_adds hnone
      exact ⟨y, hscopes ▸ hy, hys⟩
  · intro hk s' hs'
    rcases List.mem_append.1 hs' with hs' | hs'
    · exact hkeeps (h.sameScopes (hquiet hk) s' hs')
    · obtain rfl := List.mem_singleton.1 hs'
      have hnone : (b.run.scopes.any fun x => x.id = s'.id && x.conflicts s') = false := by
        by_contra hany
        rw [Bool.not_eq_false] at hany
        rw [if_pos hany] at hk
        simp at hk
      obtain ⟨y, hy, hys⟩ := absorbScope_adds hnone
      exact ⟨y, hscopes ▸ hy, hys⟩
  · intro hr hk
    rw [hout]
    exact h.sameExits (hquiet hr) (hquiet hk)

/-- What is reported of a record, by the first one decoded with its id. -/
theorem Faithful.report (hs : serde.Lawful) (h : Faithful serde ds ss b kinds) {r : Record}
    {issue : Option (ReplayIssueKind × String)} (hadd : b.addRecord serde r = .ok (b', issue)) :
    match ds.find? fun x => x.id = r.id with
    | none => b'.outcomes = b.observe r ∧ issue = b.exitConflict r
    | some first =>
      if comparisonJson serde first = comparisonJson serde r then
        b'.outcomes = b.outcomes ∧ issue = none
      else b'.outcomes = b.observe r ∧
        issue = some (.conflictingRecord, RunBuilder.conflictingRecordMessage r.id) := by
  have hreport := RunBuilder.addRecord_report hs h.wf hadd
  rwa [h.records, find?_retainedOf] at hreport

/-- If no conflict of records is raised, the record is the first one of its id or
    a copy of that. -/
theorem Faithful.addRecord_same (hs : serde.Lawful) (h : Faithful serde ds ss b kinds) {r : Record}
    {issue : Option (ReplayIssueKind × String)} (hadd : b.addRecord serde r = .ok (b', issue))
    (hk : .conflictingRecord ∉ kinds ++ issue.toList.map (·.1)) :
    ∀ d ∈ ds ++ [r], ∃ first, ((ds ++ [r]).find? fun r => r.id = d.id) = some first ∧
      comparisonJson serde first = comparisonJson serde d := by
  have hreport := h.report hs hadd
  -- the first record of an id that is there stays the first
  have hstays : ∀ {id first}, (ds.find? fun x => x.id = id) = some first →
      ((ds ++ [r]).find? fun x => x.id = id) = some first := by
    intro id first hfirst
    rw [List.find?_append, hfirst]
    rfl
  intro d hd
  rcases List.mem_append.1 hd with hd | hd
  · obtain ⟨first, hfirst, hsame⟩ :=
      h.sameRecords (fun hmem => hk (List.mem_append_left _ hmem)) d hd
    exact ⟨first, hstays hfirst, hsame⟩
  · obtain rfl := List.mem_singleton.1 hd
    cases hfind : ds.find? fun x => x.id = d.id with
    | none =>
      refine ⟨d, ?_, rfl⟩
      rw [List.find?_append, hfind]
      simp
    | some first =>
      rw [hfind] at hreport
      dsimp only at hreport
      split_ifs at hreport with heq
      · exact ⟨first, hstays hfind, heq⟩
      · rw [hreport.2] at hk
        simp at hk

theorem exitConflict_kind {r : Record} {c : ReplayIssueKind × String}
    (h : b.exitConflict r = some c) : c.1 = .conflictingScope := by
  unfold RunBuilder.exitConflict at h
  split at h
  · split_ifs at h
    obtain rfl := Option.some.inj h
    rfl
  · cases h

/-- An exit that contradicts nothing is the one observed. -/
theorem observe_exits {r : Record} (hnone : b.exitConflict r = none)
    (hold : ∀ d ∈ ds, ∀ id o, RunBuilder.exitOf d = some (id, o) → b.outcomes id = some o) :
    ∀ d ∈ ds ++ [r], ∀ id o, RunBuilder.exitOf d = some (id, o) → b.observe r id = some o := by
  intro d hd id o hexit
  unfold RunBuilder.observe
  rcases List.mem_append.1 hd with hd | hd
  · have hthere := hold d hd id o hexit
    cases RunBuilder.exitOf r with
    | none => exact hthere
    | some seen =>
      dsimp only
      split_ifs with hsome
      · exact hthere
      · have hne : id ≠ seen.1 := by
          rintro rfl
          rw [hthere] at hsome
          exact hsome rfl
        rw [Function.update_of_ne hne]
        exact hthere
  · obtain rfl := List.mem_singleton.1 hd
    rw [hexit]
    unfold RunBuilder.exitConflict at hnone
    rw [hexit] at hnone
    dsimp only at hnone ⊢
    cases hprev : b.outcomes id with
    | none => simp
    | some previous =>
      simp only [hprev, Option.any_some, Option.isSome_some, if_true] at hnone ⊢
      split_ifs at hnone with hne
      exact congrArg some (by simpa using hne)

/-- If no conflict is raised, every exit is the one observed. -/
theorem Faithful.addRecord_exits (hs : serde.Lawful) (h : Faithful serde ds ss b kinds) {r : Record}
    (hp : ∀ d ∈ ds ++ [r], d.Paired none) {issue : Option (ReplayIssueKind × String)}
    (hadd : b.addRecord serde r = .ok (b', issue))
    (hr : .conflictingRecord ∉ kinds ++ issue.toList.map (·.1))
    (hk : .conflictingScope ∉ kinds ++ issue.toList.map (·.1)) :
    ∀ d ∈ ds ++ [r], ∀ id o, RunBuilder.exitOf d = some (id, o) → b'.outcomes id = some o := by
  have hreport := h.report hs hadd
  have hold := h.sameExits (fun hmem => hr (List.mem_append_left _ hmem))
    (fun hmem => hk (List.mem_append_left _ hmem))
  cases hfind : ds.find? fun x => x.id = r.id with
  | none =>
    rw [hfind] at hreport
    rw [hreport.1]
    refine observe_exits ?_ hold
    by_contra hne
    obtain ⟨c, hc⟩ := Option.ne_none_iff_exists'.1 hne
    rw [hreport.2, hc] at hk
    simp [exitConflict_kind hc] at hk
  | some first =>
    rw [hfind] at hreport
    dsimp only at hreport
    split_ifs at hreport with heq
    · -- a copy of the first record has its exit
      have hfirst := List.mem_of_find?_eq_some hfind
      have hexit := RunBuilder.exitOf_eq_of_wire_eq hs (hp first (List.mem_append_left _ hfirst))
        (hp r (by simp)) heq
      intro d hd id o hd'
      rw [hreport.1]
      rcases List.mem_append.1 hd with hd | hd
      · exact hold d hd id o hd'
      · rw [List.mem_singleton.1 hd, ← hexit] at hd'
        exact hold first hfirst id o hd'
    · rw [hreport.2] at hr
      simp at hr

theorem Faithful.addRecord (hs : serde.Lawful) (h : Faithful serde ds ss b kinds) {r : Record}
    (hp : ∀ d ∈ ds ++ [r], d.Paired none) {issue : Option (ReplayIssueKind × String)}
    (hadd : b.addRecord serde r = .ok (b', issue)) :
    Faithful serde (ds ++ [r]) ss b' (kinds ++ issue.toList.map (·.1)) := by
  obtain ⟨b₁, issue', hok, hwf, hrun, -, -⟩ := RunBuilder.addRecord_ok hs h.wf r
  obtain ⟨rfl, rfl⟩ := Prod.mk.inj (Except.ok.inj (hok.symm.trans hadd))
  refine ⟨hwf, ?_, by rw [hrun]; exact h.ids, by rw [hrun]; exact h.first,
    h.addRecord_same hs hadd, fun hk => ?_, h.addRecord_exits hs hp hadd⟩
  · rw [hrun, retainedOf_concat, ← h.records]
  · rw [hrun]
    exact h.sameScopes fun hmem => hk (List.mem_append_left _ hmem)

end

/-- **Gathering lines** keeps the invariant, and raises issues at these lines. -/
theorem gather_faithful {serde : SerdeJson} (hs : serde.Lawful) {runId source : Option String}
    {lines : List RunLine} (hp : PairedLines lines) {b : RunBuilder} {issues : List ReplayIssue}
    (h : gather serde (.new runId source) lines = .ok (b, issues)) :
    Faithful serde (recordsIn lines) (scopesIn lines) b (issues.map (·.kind)) ∧
      ∀ i ∈ issues, ∃ line ∈ lines, i.source = line.source ∧ i.line = some line.number := by
  induction lines using List.reverseRecOn generalizing b issues with
  | nil =>
    obtain ⟨rfl, rfl⟩ := Prod.mk.inj (Except.ok.inj h)
    exact ⟨new_faithful serde runId source, by simp⟩
  | append_singleton lines line ih =>
    rw [gather_concat] at h
    obtain ⟨⟨b₀, issues₀⟩, h₀, h⟩ := bind_eq_ok.1 h
    obtain ⟨⟨b₂, conflicts⟩, hmerge, h⟩ := bind_eq_ok.1 h
    obtain ⟨rfl, rfl⟩ := Prod.mk.inj (Except.ok.inj h)
    obtain ⟨⟨b₁, scopeIssues⟩, hscope, hmerge⟩ := bind_eq_ok.1 hmerge
    obtain ⟨⟨b₂', recordIssues⟩, hrecord, hmerge⟩ := bind_eq_ok.1 hmerge
    obtain ⟨rfl, rfl⟩ := Prod.mk.inj (Except.ok.inj hmerge)
    have hds : recordsIn (lines ++ [line]) = recordsIn lines ++ line.parts.record.toList := by
      rw [recordsIn, List.filterMap_append, recordsIn]
      cases hr : line.parts.record <;> simp [hr]
    have hss : scopesIn (lines ++ [line]) = scopesIn lines ++ line.parts.scope.toList := by
      rw [scopesIn, List.filterMap_append, scopesIn]
      cases hr : line.parts.scope <;> simp [hr]
    unfold PairedLines at hp
    rw [hds] at hp
    obtain ⟨hinv, hat⟩ := ih (fun r hr => hp r (List.mem_append_left _ hr)) h₀
    have hinv₁ : Faithful serde (recordsIn lines) (scopesIn lines ++ line.parts.scope.toList) b₁
        (issues₀.map (·.kind) ++ scopeIssues.map (·.1)) := by
      cases hpart : line.parts.scope with
      | none =>
        rw [hpart] at hscope
        obtain ⟨rfl, rfl⟩ := Prod.mk.inj (Except.ok.inj hscope)
        simpa using hinv
      | some s =>
        rw [hpart] at hscope
        obtain ⟨⟨b₁', m⟩, hadd, hscope⟩ := bind_eq_ok.1 hscope
        obtain ⟨rfl, rfl⟩ := Prod.mk.inj (Except.ok.inj hscope)
        have := hinv.addScope hadd
        simpa [Function.comp_def] using this
    constructor
    · rw [hds, hss]
      cases hpart : line.parts.record with
      | none =>
        rw [hpart] at hrecord
        obtain ⟨rfl, rfl⟩ := Prod.mk.inj (Except.ok.inj hrecord)
        simpa [RunLine.issue, Function.comp_def] using hinv₁
      | some r =>
        rw [hpart] at hrecord hp
        obtain ⟨⟨b₂', c⟩, hadd, hrecord⟩ := bind_eq_ok.1 hrecord
        obtain ⟨rfl, rfl⟩ := Prod.mk.inj (Except.ok.inj hrecord)
        have := hinv₁.addRecord hs hp hadd
        simpa [RunLine.issue, Function.comp_def] using this
    · intro i hi
      rcases List.mem_append.1 hi with hi | hi
      · obtain ⟨line', hline', hpos⟩ := hat i hi
        exact ⟨line', List.mem_append_left _ hline', hpos⟩
      · obtain ⟨c, -, rfl⟩ := List.mem_map.1 hi
        exact ⟨line, by simp, rfl, rfl⟩

/-! ## Overlaps -/

theorem Finishes.records {b : RunBuilder} {run : SavedRun} (hb : b.WF) (h : Finishes b run) :
    run.records = b.run.records := by
  obtain ⟨issues, hf⟩ := h
  obtain ⟨run', issues', hok, -, -, hrecords, -⟩ := RunBuilder.finish_ok hb
  rw [hok] at hf
  obtain ⟨rfl, -⟩ := Prod.mk.inj (Except.ok.inj hf)
  exact hrecords

section
variable {serde : SerdeJson} (hs : serde.Lawful)
include hs

/-- A loaded versioned run has the records that are kept of its lines. -/
theorem SavedJournal.Reports.records {files : List InputFile} {saved : SavedJournal}
    {run : SavedRun} (h : saved.Reports serde files run) {r : String} (hr : run.runId = some r) :
    run.records = retainedOf serde (recordsIn (linesOf serde r files)) ∧
      PairedLines (linesOf serde r files) := by
  obtain ⟨lines, source, b, raised, hgather, hf, -, hpaired, hlines⟩ := h
  obtain rfl := hlines r hr
  obtain ⟨hinv, -⟩ := gather_faithful hs hpaired hgather
  refine ⟨?_, hpaired⟩
  rw [hf.records (hinv.wf.withHeaders run.headers)]
  exact hinv.records

/-- Records that are the same on the wire have the same id. -/
theorem ids_eq_of_wire_eq {ds : List Record} (h : ∀ d ∈ ds, d.Paired none) :
    ∀ d ∈ ds, ∀ e ∈ ds, comparisonJson serde d = comparisonJson serde e → d.id = e.id :=
  fun d hd e he => RunBuilder.id_eq_of_wire_eq hs (h d hd) (h e he)

/-- **Overlapping input is deduplicated** exactly when only first records come
    again: a record that conflicts with the first one of its id is appended
    each time it comes. -/
theorem overlaps_deduplicated (files : List InputFile) : ∃ saved, load serde files = .ok saved ∧
    ((∀ run ∈ saved.runs, run.runId ≠ none → WireDistinct serde run.records) ↔
      ∀ r, FirstCopies serde (recordsIn (linesOf serde r files))) := by
  obtain ⟨saved, hload, hreports, hruns⟩ := load_gathers hs files
  refine ⟨saved, hload, ?_, ?_⟩
  · intro hdistinct r
    by_cases hnil : linesOf serde r files = []
    · rw [hnil]
      exact .nil
    · obtain ⟨run, hrun, hid⟩ := hruns r hnil
      obtain ⟨hrecords, hpaired⟩ := (hreports run hrun).records hs hid
      have hw := hdistinct run hrun (by simp [hid])
      rw [hrecords] at hw
      exact (wireDistinct_iff (ids_eq_of_wire_eq hs hpaired)).1 hw
  · intro hcopies run hrun hne
    obtain ⟨r, hid⟩ := Option.ne_none_iff_exists'.1 hne
    obtain ⟨hrecords, hpaired⟩ := (hreports run hrun).records hs hid
    rw [hrecords]
    exact (wireDistinct_iff (ids_eq_of_wire_eq hs hpaired)).2 (hcopies r)

end

/-! A file in which a record and a conflicting one come, and come again. -/

/-- The record that a line gives to a versioned run. -/
def LineClass.recordOf (runId : String) : LineClass → Option Record
  | .entry d => if d.runId = some runId then d.parts.record else none
  | _ => none

/-- The records that the lines of one file are read as. -/
theorem recordsIn_linesOf {serde : SerdeJson} {runId : String} {f : InputFile} {ps : List Parts}
    (h : (rawLines f.bytes).map (classify serde) = ps.map fun parts => .entry ⟨some runId, parts⟩)
    (r : String) :
    recordsIn (linesOf serde r [f]) = if r = runId then ps.filterMap (·.record) else [] := by
  have hmap : recordsIn (linesOf serde r [f]) =
      (((inputLines [f]).map fun line => (line.source, line.raw)).map
        fun x => classify serde x.2).filterMap (LineClass.recordOf r) := by
    rw [recordsIn, linesOf, List.filterMap_filterMap, List.filterMap_map, List.filterMap_map]
    congr 1
    funext line
    simp only [InputLine.ofRun, Function.comp_apply]
    cases classify serde line.raw with
    | entry d =>
      dsimp only [LineClass.recordOf]
      split_ifs <;> rfl
    | _ => rfl
  have hraws : ((rawLines f.bytes).map fun raw => (f.source, raw)).map (fun x => classify serde x.2) =
      (rawLines f.bytes).map (classify serde) := by
    rw [List.map_map]
    rfl
  rw [hmap, map_inputLines, List.flatMap_singleton, hraws, h, List.filterMap_map]
  split_ifs with hr
  · subst hr
    congr 1
    funext parts
    simp [LineClass.recordOf]
  · rw [List.filterMap_eq_nil_iff]
    intro parts _
    simp [LineClass.recordOf, Ne.symm hr]

/-- The file of some records of a run. -/
def recordFile (records : List Record) : InputFile where
  source := some "run.jsonl"
  bytes := unlines (records.map fun r => renderJsonlInRun compactSerde r none "run")

theorem recordsIn_recordFile {records : List Record} (h : ∀ r ∈ records, r.Paired none)
    (r : String) :
    recordsIn (linesOf compactSerde r [recordFile records]) = if r = "run" then records else [] := by
  have hrendered : List.Forall₂ (Rendered compactSerde "run")
      (records.map fun r => renderJsonlInRun compactSerde r none "run")
      (records.map fun r => ⟨some r, none⟩) := by
    induction records with
    | nil => exact .nil
    | cons r records ih =>
      obtain ⟨hr, hrs⟩ := List.forall_mem_cons.1 h
      exact .cons (.record_of_exact compactSerde_exact hr) (ih hrs)
  rw [recordsIn_linesOf (classify_rendered compactSerde_lawful (by decide) hrendered (.inl rfl)),
    List.filterMap_map]
  congr 1
  exact List.filterMap_some

def startedRecord : Record := ⟨⟨0⟩, none, 2000, .event .info "started" .new⟩

/-- A record that conflicts with it. -/
def restartedRecord : Record := ⟨⟨0⟩, none, 2000, .event .info "restarted" .new⟩

theorem overlaps_deduplicated_copy : ∃ saved,
    load compactSerde [recordFile [startedRecord, restartedRecord, startedRecord]] = .ok saved ∧
      ∀ run ∈ saved.runs, run.runId ≠ none → WireDistinct compactSerde run.records := by
  obtain ⟨saved, hload, hiff⟩ := overlaps_deduplicated compactSerde_lawful
    [recordFile [startedRecord, restartedRecord, startedRecord]]
  refine ⟨saved, hload, hiff.2 ?_⟩
  intro r
  rw [recordsIn_recordFile (by simp [Record.Paired, startedRecord, restartedRecord])]
  split_ifs
  · refine .cons ?_ (.cons ?_ (List.pairwise_singleton _ _))
    · intro e he heq
      refine ⟨startedRecord, ?_, heq⟩
      rcases List.mem_cons.1 he with rfl | he
      · rfl
      · rw [List.mem_singleton.1 he]
        rfl
    · intro e he _
      obtain rfl := List.mem_singleton.1 he
      exact ⟨startedRecord, rfl, rfl⟩
  · exact .nil

/-- **Copies of a conflicting record are kept**: the run has two records that
    are the same. -/
theorem conflicting_copies_kept : ∃ saved run,
    load compactSerde [recordFile [startedRecord, restartedRecord, restartedRecord]] = .ok saved ∧
      run ∈ saved.runs ∧ run.runId = some "run" ∧ ¬ WireDistinct compactSerde run.records := by
  have hs := compactSerde_lawful
  have hpaired : ∀ r ∈ [startedRecord, restartedRecord, restartedRecord], r.Paired none := by
    simp [Record.Paired, startedRecord, restartedRecord]
  have hin := recordsIn_recordFile hpaired "run"
  rw [if_pos rfl] at hin
  obtain ⟨saved, hload, hreports, hruns⟩ := load_gathers hs
    [recordFile [startedRecord, restartedRecord, restartedRecord]]
  obtain ⟨run, hrun, hid⟩ := hruns "run" (by
    intro hnil
    rw [hnil] at hin
    cases hin)
  refine ⟨saved, run, hload, hrun, hid, ?_⟩
  rw [((hreports run hrun).records hs hid).1, hin, wireDistinct_iff (ids_eq_of_wire_eq hs hpaired)]
  intro hcopies
  obtain ⟨first, hfirst, hsame⟩ :=
    (List.pairwise_cons.1 (List.pairwise_cons.1 hcopies).2).1 restartedRecord (by simp) rfl
  obtain rfl : first = startedRecord := (Option.some.inj hfirst).symm
  have heq : startedRecord = restartedRecord :=
    RunBuilder.eq_of_wire_eq hs (hpaired _ (by simp)) (hpaired _ (by simp)) rfl hsame
  exact absurd heq (by decide)

/-! ## Contradictions -/

/-- The issues have one of the kind at a line of the list. -/
def SavedJournal.ReportsAt (saved : SavedJournal) (lines : List RunLine) (kind : ReplayIssueKind) :
    Prop :=
  ∃ i ∈ saved.issues, i.kind = kind ∧
    ∃ line ∈ lines, i.source = line.source ∧ i.line = some line.number

/-- What a run keeps of its lines, and what is reported about them. -/
structure Unlost (serde : SerdeJson) (saved : SavedJournal) (lines : List RunLine)
    (run : SavedRun) : Prop where
  order : run.records.Sublist (recordsIn lines)
  kept : ∀ d ∈ recordsIn lines, ∃ r ∈ run.records, comparisonJson serde r = comparisonJson serde d
  records : ∀ d ∈ recordsIn lines, ∀ e ∈ recordsIn lines, d.id = e.id →
    comparisonJson serde d ≠ comparisonJson serde e → saved.ReportsAt lines .conflictingRecord
  scopes : ∀ s ∈ scopesIn lines, ∀ t ∈ scopesIn lines, s.id = t.id → s.conflicts t = true →
    saved.ReportsAt lines .conflictingScope
  /-- The first snapshot of a scope gives its identity; completing the run can
      only cut its parent link. -/
  first : ∃ source b raised, gather serde (.new run.runId source) lines = .ok (b, raised) ∧
    Finishes (b.withHeaders run.headers) run ∧
    ∀ id s, ((scopesIn lines).find? fun s => s.id = id) = some s →
      ∃ x ∈ b.run.scopes, x.Extends s ∧ ∃ y ∈ run.scopes, CutFrom x y
  exits : ∀ d ∈ recordsIn lines, ∀ e ∈ recordsIn lines, ∀ id o o',
    RunBuilder.exitOf d = some (id, o) → RunBuilder.exitOf e = some (id, o') → o ≠ o' →
      saved.ReportsAt lines .conflictingRecord ∨ saved.ReportsAt lines .conflictingScope

/-- Record ids are distinct, and the exits of a scope agree. -/
structure SavedRun.Consistent (run : SavedRun) : Prop where
  ids : (run.records.map (·.id)).Nodup
  exits : ∀ d ∈ run.records, ∀ e ∈ run.records, ∀ id o o',
    RunBuilder.exitOf d = some (id, o) → RunBuilder.exitOf e = some (id, o') → o = o'

section
variable {serde : SerdeJson} (hs : serde.Lawful)
include hs

theorem SavedJournal.Reports.unlost {files : List InputFile} {saved : SavedJournal}
    {run : SavedRun} (h : saved.Reports serde files run) {r : String} (hr : run.runId = some r) :
    Unlost serde saved (linesOf serde r files) run := by
  obtain ⟨hrecords, -⟩ := h.records hs hr
  obtain ⟨lines, source, b, raised, hgather, hf, hmem, hpaired, hlines⟩ := h
  obtain rfl := hlines r hr
  obtain ⟨hinv, hat⟩ := gather_faithful hs hpaired hgather
  -- a kind that is not reported at these lines was not raised
  have hnot : ∀ kind, ¬ saved.ReportsAt (linesOf serde r files) kind →
      kind ∉ raised.map (·.kind) := by
    intro kind hno hk
    obtain ⟨i, hi, rfl⟩ := List.mem_map.1 hk
    exact hno ⟨i, hmem i hi, rfl, hat i hi⟩
  refine ⟨hrecords ▸ retainedOf_sublist, ?_, ?_, ?_, ?_, ?_⟩
  · intro d hd
    rw [hrecords]
    exact exists_retainedOf hd
  · intro d hd e he hid hne
    by_contra hno
    obtain ⟨first, hfirst, hsame⟩ := hinv.sameRecords (hnot _ hno) d hd
    obtain ⟨first', hfirst', hsame'⟩ := hinv.sameRecords (hnot _ hno) e he
    rw [hid, hfirst'] at hfirst
    obtain rfl := Option.some.inj hfirst
    exact hne (hsame.symm.trans hsame')
  · intro s hss t ht hid hconf
    by_contra hno
    obtain ⟨x, hx, hxs⟩ := hinv.sameScopes (hnot _ hno) s hss
    obtain ⟨y, hy, hyt⟩ := hinv.sameScopes (hnot _ hno) t ht
    have hxy : x = y := List.inj_on_of_nodup_map hinv.wf.nodup hx hy
      ((hxs.1.trans hid).trans hyt.1.symm)
    subst hxy
    rw [hxs.agree hyt] at hconf
    cases hconf
  · refine ⟨source, b, raised, hgather, hf, ?_⟩
    intro id s hfind
    obtain ⟨x, hx, hxs⟩ := hinv.first id s hfind
    refine ⟨x, hx, hxs, ?_⟩
    obtain ⟨issues, hf⟩ := hf
    obtain ⟨run', issues', hok, -, -, -, -, hcut, -⟩ :=
      RunBuilder.finish_ok (hinv.wf.withHeaders run.headers)
    rw [hok] at hf
    obtain ⟨rfl, -⟩ := Prod.mk.inj (Except.ok.inj hf)
    exact forall₂_mem_right hcut.flip (List.mem_append_left _ hx)
  · intro d hd e he id o o' hexit hexit' hne
    by_contra hno
    rw [not_or] at hno
    have ho := hinv.sameExits (hnot _ hno.1) (hnot _ hno.2) d hd id o hexit
    have ho' := hinv.sameExits (hnot _ hno.1) (hnot _ hno.2) e he id o' hexit'
    exact hne (Option.some.inj (ho.symm.trans ho'))

/-- Without issues a run is consistent. -/
theorem SavedJournal.Reports.consistent {files : List InputFile} {saved : SavedJournal}
    {run : SavedRun} (h : saved.Reports serde files run) (hnone : saved.issues = []) :
    run.Consistent := by
  obtain ⟨lines, source, b, raised, hgather, hf, hmem, hpaired, -⟩ := h
  obtain ⟨hinv, -⟩ := gather_faithful hs hpaired hgather
  obtain rfl : raised = [] := by
    rw [List.eq_nil_iff_forall_not_mem]
    intro i hi
    have := hmem i hi
    rw [hnone] at this
    cases this
  have hrecords : run.records = retainedOf serde (recordsIn lines) := by
    rw [hf.records (hinv.wf.withHeaders run.headers)]
    exact hinv.records
  have hsub : ∀ d ∈ run.records, d ∈ recordsIn lines := by
    rw [hrecords]
    exact fun d hd => retainedOf_sublist.subset hd
  have hsame := hinv.sameRecords (by simp)
  have hdistinct : WireDistinct serde run.records := by
    rw [hrecords]
    refine (wireDistinct_iff (ids_eq_of_wire_eq hs hpaired)).2 ?_
    exact List.pairwise_of_forall_mem_list fun d _ e he _ => hsame e he
  constructor
  · rw [List.nodup_iff_pairwise_ne, List.pairwise_map]
    refine hdistinct.imp_of_mem ?_
    intro d e hd he hne hid
    obtain ⟨first, hfirst, hfd⟩ := hsame d (hsub d hd)
    obtain ⟨first', hfirst', hfe⟩ := hsame e (hsub e he)
    rw [hid, hfirst'] at hfirst
    obtain rfl := Option.some.inj hfirst
    exact hne (hfd.symm.trans hfe)
  · intro d hd e he id o o' hexit hexit'
    have ho := hinv.sameExits (by simp) (by simp) d (hsub d hd) id o hexit
    have ho' := hinv.sameExits (by simp) (by simp) e (hsub e he) id o' hexit'
    exact Option.some.inj (ho.symm.trans ho')

/-- **No contradiction goes unreported, and no record is lost.** -/
theorem contradictions_reported (files : List InputFile) : ∃ saved,
    load serde files = .ok saved ∧
    (∀ r, linesOf serde r files ≠ [] → ∃ run ∈ saved.runs, run.runId = some r) ∧
    (∀ run ∈ saved.runs, ∀ r, run.runId = some r →
      Unlost serde saved (linesOf serde r files) run) ∧
    (saved.issues = [] → ∀ run ∈ saved.runs, run.Consistent) := by
  obtain ⟨saved, hload, hreports, hruns⟩ := load_gathers hs files
  refine ⟨saved, hload, hruns, ?_, ?_⟩
  · intro run hrun r hr
    exact (hreports run hrun).unlost hs hr
  · intro hnone run hrun
    exact (hreports run hrun).consistent hs hnone

end

theorem contradictions_reported_conflict : ∃ saved,
    load compactSerde [recordFile [startedRecord, restartedRecord]] = .ok saved ∧
      ∃ i ∈ saved.issues, i.kind = .conflictingRecord := by
  have hpaired : ∀ r ∈ [startedRecord, restartedRecord], r.Paired none := by
    simp [Record.Paired, startedRecord, restartedRecord]
  have hin := recordsIn_recordFile hpaired "run"
  rw [if_pos rfl] at hin
  obtain ⟨saved, hload, hruns, hunlost, -⟩ := contradictions_reported compactSerde_lawful
    [recordFile [startedRecord, restartedRecord]]
  obtain ⟨run, hrun, hid⟩ := hruns "run" (by
    intro hnil
    rw [hnil] at hin
    cases hin)
  have hne : comparisonJson compactSerde startedRecord ≠
      comparisonJson compactSerde restartedRecord := by
    intro hsame
    have heq : startedRecord = restartedRecord := RunBuilder.eq_of_wire_eq compactSerde_lawful
      (hpaired _ (by simp)) (hpaired _ (by simp)) rfl hsame
    exact absurd heq (by decide)
  obtain ⟨i, hi, hkind, -⟩ := (hunlost run hrun "run" hid).records startedRecord (by simp [hin])
    restartedRecord (by simp [hin]) rfl hne
  exact ⟨saved, hload, i, hi, hkind⟩

end Eventline
