/-
  The hierarchy of a loaded run is a complete forest, whatever the input.
-/
import Eventline.Replay.Runs
import Eventline.Replay.Tree
import Eventline.Wire.Reference

namespace Eventline

open Text Checked Links

/-- The hierarchy of a run with the given entries: scope ids are distinct, every
    parent and every scope of a record is there, no way up is a cycle, and the
    scope tree lists each scope once.  The marked placeholders are the ids that
    are named and that no entry brought. -/
structure Complete (serde : SerdeJson) (entries : List Fed) (run : SavedRun) : Prop where
  distinct : (run.scopes.map (·.id)).Nodup
  parents : ParentsWithin run.scopes (run.scopes.map (·.id))
  records : ∀ r ∈ run.records, ∀ id, r.scope = some id → id ∈ run.scopes.map (·.id)
  acyclic : ∀ id, ¬ Leads (parentOf run.scopes) id (some id)
  tree : ∃ trees, scopeTree run.scopes = .ok trees ∧ (listedAll trees).Perm run.scopes
  retainedRecords : run.records = recordsOf serde entries
  retainedScopes : CutList (scopesOf entries ++ run.missingScopeMetadata.map placeholder) run.scopes
  missingDistinct : run.missingScopeMetadata.Nodup
  missing : ∀ id, id ∈ run.missingScopeMetadata ↔
    id ∈ neededScopes (scopesOf entries) run.records ∧
      ¬ ∃ e ∈ entries, ∃ s, e.decoded.parts.scope = some s ∧ s.id = id

theorem parentOf_of_not_mem {scopes : List Scope} {id : ScopeId} (h : id ∉ scopes.map (·.id)) :
    parentOf scopes id = none := by
  have hnone : scopes.find? (fun s => s.id = id) = none := by
    rw [List.find?_eq_none]
    intro s hs
    have hne : s.id ≠ id := fun hid => h (List.mem_map.2 ⟨s, hs, hid⟩)
    simpa using hne
  rw [parentOf, hnone]
  rfl

/-- A list of scopes that are all rooted has no cycle. -/
theorem not_cycle_of_rooted {scopes : List Scope}
    (h : ∀ s ∈ scopes, Rooted (parentOf scopes) s.id) (id : ScopeId) :
    ¬ Leads (parentOf scopes) id (some id) := by
  by_cases hid : id ∈ scopes.map (·.id)
  · obtain ⟨s, hs, rfl⟩ := List.mem_map.1 hid
    exact (h s hs).not_cycle
  · have hroot : Rooted (parentOf scopes) id := .of_eq (parentOf_of_not_mem hid)
    exact hroot.not_cycle

/-- **A completed run is complete.** -/
theorem finishes_complete {serde : SerdeJson} {b : RunBuilder} {run : SavedRun}
    {entries : List Fed} (h : b.WF) (hmiss : b.run.missingScopeMetadata = [])
    (hscopes : b.run.scopes = scopesOf entries) (hrecords : b.run.records = recordsOf serde entries)
    (hf : Finishes b run) : Complete serde entries run := by
  obtain ⟨issues, hf⟩ := hf
  obtain ⟨run', issues', hok, -, -, hrec, hmissing, hcut, hroot, -, -⟩ := RunBuilder.finish_ok h
  rw [hok] at hf
  obtain ⟨rfl, -⟩ := Prod.mk.inj (Except.ok.inj hf)
  rw [hmiss, List.nil_append] at hmissing
  have hids := hcut.ids
  have hnd : (run'.scopes.map (·.id)).Nodup := by
    rw [hids]
    exact RunBuilder.allScopes_nodup h
  have hpar : ParentsWithin run'.scopes (run'.scopes.map (·.id)) := by
    rw [hids]
    exact b.allScopes_parentsWithin.cut hcut
  refine ⟨hnd, hpar, ?_, not_cycle_of_rooted hroot, ⟨_, scopeTree_eq _, forest_perm hnd hroot hpar⟩,
    by rw [hrec, hrecords], ?_, ?_, ?_⟩
  · intro r hr id hid
    rw [hrec] at hr
    rw [hids]
    exact RunBuilder.needed_mem_allScopes
      (List.mem_append_right _ (List.mem_filterMap.2 ⟨r, hr, hid⟩))
  · rw [hmissing, ← hscopes]
    exact hcut
  · rw [hmissing]
    exact nodup_missingOf _ _
  · intro id
    rw [hmissing, RunBuilder.missing, mem_missingOf, hscopes, hrec, mem_scopesOf_ids]

/-- **Every run of every load is a complete forest**, and loading returns. -/
theorem load_complete {serde : SerdeJson} (hs : serde.Lawful) (files : List InputFile) :
    ∃ saved log, load serde files = .ok saved ∧ traceOf serde files = .ok log ∧
      ∀ i run, saved.runs[i]? = some run → Complete serde (Loader.fedTo i log) run := by
  obtain ⟨saved, log, builders, hload⟩ := load_ok hs files
  refine ⟨saved, log, hload.load, hload.trace, ?_⟩
  intro i run hrun
  obtain ⟨b, hb, hf⟩ : ∃ b, builders[i]? = some b ∧ Finishes b run := by
    obtain ⟨hlt, rfl⟩ := List.getElem?_eq_some_iff.1 hrun
    have hlt' : i < builders.length := by rw [hload.runs.length_eq]; exact hlt
    exact ⟨builders[i], List.getElem?_eq_getElem hlt', hload.runs.get hlt' hlt⟩
  obtain ⟨hwf, hmiss, hbuilt, -⟩ := hload.built i b hb
  obtain ⟨hscopes, hrecords⟩ := built_contents hs hbuilt
  exact finishes_complete hwf hmiss hscopes hrecords hf

/-- A file with a scope that is its own parent, and a truncated line. -/
def damagedFile : InputFile where
  source := some "run.jsonl"
  bytes := renderScopeJsonl compactSerde ⟨⟨1⟩, some ⟨1⟩, 5, some "loop", none, .none⟩ "run" ++
    newline :: utf8 "\x7b\"id\":"

theorem load_complete_damaged : ∃ saved log, load compactSerde [damagedFile] = .ok saved ∧
    traceOf compactSerde [damagedFile] = .ok log ∧
    ∀ i run, saved.runs[i]? = some run → Complete compactSerde (Loader.fedTo i log) run :=
  load_complete compactSerde_lawful [damagedFile]

end Eventline
