/-
  Completing a run (`RunBuilder::finish` of `replay/load.rs`): placeholders for
  the scopes that are named but have no metadata, and the repair of cycles.

  * `addPlaceholders_ok`: one placeholder for each id in `missingOf`.
  * `repair_ok`: the repair ends, keeps the scopes but for cut parent links,
    and leaves every scope rooted; without cycles it changes nothing.
  * `finish_ok` puts both together.
-/
import Eventline.Replay.Builder
import Eventline.Lib.Links

namespace Eventline

open Checked Slots Links

/-- The placeholder of a scope without surviving metadata. -/
def placeholder (id : ScopeId) : Scope := ⟨id, none, 0, none, none, .none⟩

/-- The scopes that a run names: the parents of its scopes, then the scopes of
    its records. -/
def neededScopes (scopes : List Scope) (records : List Record) : List ScopeId :=
  scopes.filterMap (·.parent) ++ records.filterMap (·.scope)

namespace RunBuilder

def missingIssue (source : Option String) (id : ScopeId) : ReplayIssue where
  source := source
  line := none
  kind := .missingScopeMetadata
  message := "scope " ++ id.debug ++
    " has no surviving metadata; inserted an explicitly marked placeholder"

/-- One iteration of the first loop of `finish`. -/
def addPlaceholder (acc : RunBuilder × List ReplayIssue) (id : ScopeId) :
    RunBuilder × List ReplayIssue :=
  if (acc.1.scopes id).isSome then acc
  else
    ({ acc.1 with
        scopes := Function.update acc.1.scopes id (some acc.1.run.scopes.length)
        run := { acc.1.run with
          scopes := acc.1.run.scopes ++ [placeholder id]
          missingScopeMetadata := acc.1.run.missingScopeMetadata ++ [id] } },
      acc.2 ++ [missingIssue acc.1.source id])

def cycleIssue (source : Option String) (id : ScopeId) : ReplayIssue where
  source := source
  line := none
  kind := .invalidHierarchy
  message := "cycle at scope " ++ id.debug ++ "; removed its parent link"

end RunBuilder

/-- The state of the walk up from one scope; `current` is `none` once it ends. -/
structure Walk where
  scopes : List Scope
  issues : List ReplayIssue
  path : Finset ScopeId
  current : Option ScopeId

/-- The state of the repair: `done` are the scopes known to be rooted. -/
structure Repair where
  scopes : List Scope
  issues : List ReplayIssue
  done : Finset ScopeId

/-- `self.scopes[&id]`, which panics if the key is absent. -/
def mapIndex (scopes : ScopeId → Option ℕ) (id : ScopeId) : Checked ℕ :=
  match scopes id with
  | some i => .ok i
  | none => .error .outOfBounds

section
variable (index : ScopeId → Option ℕ) (source : Option String)

/-- The walk at a scope that is not known to be rooted. -/
def walkAt (w : Walk) (id : ScopeId) : Checked Walk := do
  let i ← mapIndex index id
  let scope ← Checked.index w.scopes i
  pure (if id ∈ w.path then
      { w with
        scopes := w.scopes.set i { scope with parent := none }
        issues := w.issues ++ [RunBuilder.cycleIssue source id]
        current := none }
    else { w with path := insert id w.path, current := scope.parent })

/-- One iteration of the walk. -/
def walkStep (done : Finset ScopeId) (w : Walk) : Checked Walk :=
  match w.current with
  | none => pure w
  | some id => if id ∈ done then pure { w with current := none } else walkAt index source w id

/-- The walk up from `start`. -/
def repairFrom (r : Repair) (start : ScopeId) : Checked Repair := do
  let w ← whileM (fun w => w.current.isSome) (walkStep index source r.done) (r.scopes.length + 1)
    ⟨r.scopes, r.issues, ∅, some start⟩
  pure ⟨w.scopes, w.issues, r.done ∪ w.path⟩

end

/-- `RunBuilder::finish`. -/
def RunBuilder.finish (b : RunBuilder) : Checked (SavedRun × List ReplayIssue) := do
  let (b, issues) := (neededScopes b.run.scopes b.run.records).foldl addPlaceholder (b, [])
  let r ← (b.run.scopes.map (·.id)).foldlM (repairFrom b.scopes b.source)
    ⟨b.run.scopes, issues, ∅⟩
  pure ({ b.run with scopes := r.scopes }, r.issues)

/-! ## Placeholders -/

/-- The ids that are needed and not known, each once. -/
def missingOf : List ScopeId → List ScopeId → List ScopeId
  | _, [] => []
  | known, id :: needed =>
    if id ∈ known then missingOf known needed else id :: missingOf (id :: known) needed

theorem mem_missingOf {known needed : List ScopeId} {id : ScopeId} :
    id ∈ missingOf known needed ↔ id ∈ needed ∧ id ∉ known := by
  induction needed generalizing known with
  | nil => simp [missingOf]
  | cons x needed ih =>
    by_cases hx : x ∈ known
    · simp only [missingOf, hx, if_true, ih, List.mem_cons]
      constructor
      · rintro ⟨h, hk⟩; exact ⟨.inr h, hk⟩
      · rintro ⟨rfl | h, hk⟩
        · exact absurd hx hk
        · exact ⟨h, hk⟩
    · simp only [missingOf, hx, if_false, List.mem_cons, ih]
      constructor
      · rintro (rfl | ⟨h, hk⟩)
        · exact ⟨.inl rfl, hx⟩
        · exact ⟨.inr h, fun hm => hk (.inr hm)⟩
      · rintro ⟨rfl | h, hk⟩
        · exact .inl rfl
        · by_cases hid : id = x
          · exact .inl hid
          · exact .inr ⟨h, fun hm => hm.elim hid hk⟩

theorem nodup_missingOf (known needed : List ScopeId) : (missingOf known needed).Nodup := by
  induction needed generalizing known with
  | nil => exact List.nodup_nil
  | cons x needed ih =>
    by_cases hx : x ∈ known
    · simpa [missingOf, hx] using ih known
    · simp only [missingOf, hx, if_false, List.nodup_cons]
      exact ⟨fun h => (mem_missingOf.1 h).2 (by simp), ih _⟩

theorem missingOf_congr {known known' : List ScopeId} (h : ∀ id, id ∈ known ↔ id ∈ known')
    (needed : List ScopeId) : missingOf known needed = missingOf known' needed := by
  induction needed generalizing known known' with
  | nil => rfl
  | cons x needed ih =>
    have hcons : ∀ id, id ∈ x :: known ↔ id ∈ x :: known' := fun id => by simp [h id]
    by_cases hx : x ∈ known
    · simp [missingOf, hx, (h x).1 hx, ih h]
    · simp [missingOf, hx, mt (h x).2 hx, ih hcons]

namespace RunBuilder

theorem WF.isSome_scopes {b : RunBuilder} (h : b.WF) (id : ScopeId) :
    (b.scopes id).isSome = decide (id ∈ b.run.scopes.map (·.id)) := by
  rw [h.scopes, List.findIdx?_isSome, Bool.eq_iff_iff]
  simp

/-- The run with placeholders for the given ids. -/
def withPlaceholders (run : SavedRun) (ids : List ScopeId) : SavedRun :=
  { run with
    scopes := run.scopes ++ ids.map placeholder
    missingScopeMetadata := run.missingScopeMetadata ++ ids }

/-- **A placeholder for every needed id without metadata**, and one issue each. -/
theorem addPlaceholders_ok {b : RunBuilder} (h : b.WF) (needed : List ScopeId)
    (issues : List ReplayIssue) :
    ∃ b', needed.foldl addPlaceholder (b, issues) =
        (b', issues ++ (missingOf (b.run.scopes.map (·.id)) needed).map (missingIssue b.source)) ∧
      b'.WF ∧ b'.run = withPlaceholders b.run (missingOf (b.run.scopes.map (·.id)) needed) ∧
      b'.source = b.source := by
  induction needed generalizing b issues with
  | nil => exact ⟨b, by simp [missingOf], h, by simp [withPlaceholders, missingOf], rfl⟩
  | cons id needed ih =>
    rw [List.foldl_cons, addPlaceholder, h.isSome_scopes]
    by_cases hid : id ∈ b.run.scopes.map (·.id)
    · simp only [hid, decide_true, if_true, missingOf]
      exact ih h issues
    · simp only [hid, decide_false, Bool.false_eq_true, if_false, missingOf]
      have hno : b.run.scopes.findIdx? (fun s => s.id = id) = none := by
        rw [List.findIdx?_eq_none_iff]
        intro s hs
        have hne : s.id ≠ id := fun hs' => hid (List.mem_map.2 ⟨s, hs, hs'⟩)
        simpa using hne
      have hwf : ({ b with
          scopes := Function.update b.scopes id (some b.run.scopes.length)
          run := { b.run with
            scopes := b.run.scopes ++ [placeholder id]
            missingScopeMetadata := b.run.missingScopeMetadata ++ [id] } } : RunBuilder).WF := by
        refine ⟨h.records, ?_, ?_⟩
        · simp only [h.scopes]
          exact (findIdx?_concat Scope.id b.run.scopes (placeholder id) hno).symm
        · rw [List.map_append, List.nodup_append]
          refine ⟨h.nodup, by simp, ?_⟩
          intro k hk k' hk' hkk
          obtain rfl : k' = id := by simpa [placeholder] using hk'
          exact hid (hkk ▸ hk)
      obtain ⟨b', hb', hwf', hrun, hsrc⟩ := ih hwf (issues ++ [missingIssue b.source id])
      have hknown : missingOf ((b.run.scopes ++ [placeholder id]).map (·.id)) needed =
          missingOf (id :: b.run.scopes.map (·.id)) needed :=
        missingOf_congr (fun k => by simp [placeholder, or_comm]) needed
      simp only [hknown] at hb' hrun
      refine ⟨b', ?_, hwf', ?_, hsrc⟩
      · rw [hb']
        simp
      · rw [hrun]
        simp [withPlaceholders]

end RunBuilder

/-! ## Cycle repair -/

/-- The parent links of a list of scopes. -/
def parentOf (scopes : List Scope) (id : ScopeId) : Option ScopeId :=
  (scopes.find? fun s => s.id = id).bind (·.parent)

/-- The new scope is the old one, its parent link possibly cut. -/
def CutFrom (old new : Scope) : Prop := new = old ∨ new = { old with parent := none }

theorem CutFrom.id_eq {old new : Scope} (h : CutFrom old new) : new.id = old.id := by
  rcases h with rfl | rfl <;> rfl

theorem CutFrom.trans {a b c : Scope} (h : CutFrom a b) (h' : CutFrom b c) : CutFrom a c := by
  rcases h with rfl | rfl
  · exact h'
  · rcases h' with rfl | rfl <;> exact .inr rfl

/-- The scopes after a repair, one by one. -/
abbrev CutList (old new : List Scope) : Prop := List.Forall₂ CutFrom old new

theorem CutList.refl (l : List Scope) : CutList l l := by
  induction l with
  | nil => exact .nil
  | cons s l ih => exact .cons (.inl rfl) ih

theorem CutList.trans {a b c : List Scope} (h : CutList a b) (h' : CutList b c) : CutList a c := by
  induction h generalizing c with
  | nil => exact h'
  | cons hs _ ih =>
    cases h' with
    | cons hs' h' => exact .cons (hs.trans hs') (ih h')

theorem CutList.ids {old new : List Scope} (h : CutList old new) :
    new.map (·.id) = old.map (·.id) := by
  induction h with
  | nil => rfl
  | cons hs _ ih => simp [hs.id_eq, ih]

/-- The position of an id depends on the ids alone. -/
theorem findIdx?_ids (l : List Scope) (id : ScopeId) : (l.findIdx? fun s => s.id = id) =
    (l.map (·.id)).findIdx? fun k => k = id := by
  rw [List.findIdx?_map]
  rfl

theorem CutList.cut_one (pre post : List Scope) (s : Scope) :
    CutList (pre ++ s :: post) (pre ++ { s with parent := none } :: post) := by
  induction pre with
  | nil => exact .cons (.inr rfl) (CutList.refl post)
  | cons x pre ih => exact .cons (.inl rfl) ih

theorem CutList.mem {old new : List Scope} (h : CutList old new) {s : Scope} (hs : s ∈ new) :
    ∃ o ∈ old, CutFrom o s := by
  induction h with
  | nil => cases hs
  | cons hc _ ih =>
    rcases List.mem_cons.1 hs with rfl | hs
    · exact ⟨_, by simp, hc⟩
    · obtain ⟨o, ho, hos⟩ := ih hs
      exact ⟨o, List.mem_cons_of_mem _ ho, hos⟩

/-- Every parent link stays within the ids. -/
def ParentsWithin (scopes : List Scope) (ids : List ScopeId) : Prop :=
  ∀ s ∈ scopes, ∀ p, s.parent = some p → p ∈ ids

theorem ParentsWithin.cut {old new : List Scope} {ids : List ScopeId} (h : ParentsWithin old ids)
    (hc : CutList old new) : ParentsWithin new ids := by
  intro s hs p hp
  obtain ⟨o, ho, rfl | rfl⟩ := hc.mem hs
  · exact h _ ho p hp
  · cases hp

section
variable {pre post : List Scope} {s : Scope} (hnd : ((pre ++ s :: post).map (·.id)).Nodup)
include hnd

theorem find?_middle : (pre ++ s :: post).find? (fun x => x.id = s.id) = some s := by
  have hpre : ∀ x ∈ pre, x.id ≠ s.id := by
    intro x hx hxs
    rw [List.map_append, List.map_cons, List.nodup_middle, List.nodup_cons] at hnd
    exact hnd.1 (List.mem_append_left _ (List.mem_map.2 ⟨x, hx, hxs⟩))
  have hnone : pre.find? (fun x => x.id = s.id) = none := List.find?_eq_none.2 (by simpa using hpre)
  rw [List.find?_append, hnone]
  simp

theorem parentOf_middle : parentOf (pre ++ s :: post) s.id = s.parent := by
  rw [parentOf, find?_middle hnd]
  rfl

/-- Cutting the link of a scope in the list cuts it in the graph. -/
theorem parentOf_cut : parentOf (pre ++ { s with parent := none } :: post) =
    cut (parentOf (pre ++ s :: post)) s.id := by
  funext k
  by_cases hk : k = s.id
  · subst hk
    have hnd' : ((pre ++ { s with parent := none } :: post).map (·.id)).Nodup := by simpa using hnd
    rw [cut, Function.update_self]
    exact parentOf_middle hnd'
  · rw [cut, Function.update_of_ne hk, parentOf, parentOf, List.find?_append, List.find?_append]
    simp [Ne.symm hk]

end

/-- The walk up from `start`: the scopes are those of `r` with links cut, what
    was rooted is rooted, the path leads to the current scope, and nothing has
    changed if everything was rooted. -/
structure WalkInv (r : Repair) (start : ScopeId) (w : Walk) : Prop where
  cut : CutList r.scopes w.scopes
  done : ∀ x ∈ r.done, Rooted (parentOf w.scopes) x
  path : ∀ x ∈ w.path, x ∈ r.scopes.map (·.id)
  leads : ∀ x ∈ w.path, Leads (parentOf w.scopes) x w.current
  current : ∀ x, w.current = some x → x ∈ r.scopes.map (·.id)
  start : w.current = some start ∨ start ∈ w.path ∨ start ∈ r.done
  issues : ∀ e ∈ w.issues, e ∈ r.issues ∨ e.kind = .invalidHierarchy
  unchanged : (∀ x ∈ r.scopes.map (·.id), Rooted (parentOf r.scopes) x) →
    w.scopes = r.scopes ∧ w.issues = r.issues

theorem walkInv_start {r : Repair} {start : ScopeId}
    (hdone : ∀ x ∈ r.done, Rooted (parentOf r.scopes) x) (hstart : start ∈ r.scopes.map (·.id)) :
    WalkInv r start ⟨r.scopes, r.issues, ∅, some start⟩ :=
  ⟨CutList.refl _, hdone, by simp, by simp, by simpa using hstart, .inl rfl, fun e he => .inl he,
    fun _ => ⟨rfl, rfl⟩⟩

/-- How many iterations the walk can still make. -/
def Walk.fuelLeft (w : Walk) (n : ℕ) : ℕ := if w.current.isSome then n + 1 - w.path.card else 0

/-! One step of the walk -/

namespace WalkInv

variable {r : Repair} {start : ScopeId} {w : Walk} {id : ScopeId} (h : WalkInv r start w)
  (hid : w.current = some id)
include h hid

/-- The path and the current scope are scopes of `r`. -/
theorem mem_insert {x : ScopeId} (hx : x ∈ insert id w.path) : x ∈ r.scopes.map (·.id) := by
  rcases Finset.mem_insert.1 hx with rfl | hx
  · exact h.current x hid
  · exact h.path x hx

theorem card_insert : (insert id w.path).card ≤ r.scopes.length := by
  have hsub : insert id w.path ⊆ (r.scopes.map (·.id)).toFinset := fun x hx =>
    List.mem_toFinset.2 (h.mem_insert hid hx)
  have hle := (Finset.card_le_card hsub).trans (List.toFinset_card_le _)
  simpa using hle

/-- The rest of the way is known to end. -/
theorem joins (hdone : id ∈ r.done) : WalkInv r start { w with current := none } := by
  refine ⟨h.cut, h.done, h.path, ?_, by simp, ?_, h.issues, h.unchanged⟩
  · intro x hx
    have hl := h.leads x hx
    rw [hid] at hl
    exact hl.trans (h.done id hdone)
  · rcases h.start with hs | hs | hs
    · rw [hid] at hs
      exact .inr (.inr (Option.some.inj hs ▸ hdone))
    · exact .inr (.inl hs)
    · exact .inr (.inr hs)

section
variable {pre post : List Scope} {s : Scope} (hl : w.scopes = pre ++ s :: post) (hsid : s.id = id)
  (hnd : (w.scopes.map (·.id)).Nodup)
include hl hsid hnd

/-- A cycle: its link at `id` is cut, which roots the path. -/
theorem breaks (source : Option String) (hpath : id ∈ w.path) : WalkInv r start { w with
    scopes := pre ++ { s with parent := none } :: post
    issues := w.issues ++ [RunBuilder.cycleIssue source id]
    current := none } := by
  rw [hl] at hnd
  have hgraph : parentOf (pre ++ { s with parent := none } :: post) =
      Links.cut (parentOf w.scopes) id := by rw [parentOf_cut hnd, hl, hsid]
  have hcyc : Leads (parentOf w.scopes) id (some id) := hid ▸ h.leads id hpath
  refine ⟨?_, ?_, h.path, ?_, by simp, ?_, ?_, ?_⟩
  · exact h.cut.trans (by rw [hl]; exact CutList.cut_one pre post s)
  · intro x hx
    simp only [hgraph]
    exact (h.done x hx).cut id
  · intro x hx
    have hlx := h.leads x hx
    rw [hid] at hlx
    simp only [hgraph]
    exact hlx.cut
  · rcases h.start with hs | hs | hs
    · rw [hid] at hs
      exact .inr (.inl (Option.some.inj hs ▸ hpath))
    · exact .inr (.inl hs)
    · exact .inr (.inr hs)
  · intro e he
    rcases List.mem_append.1 he with he | he
    · exact h.issues e he
    · rw [List.mem_singleton.1 he]
      exact .inr rfl
  · intro hroot
    have hsame := (h.unchanged hroot).1
    have hid' : id ∈ r.scopes.map (·.id) := h.current id hid
    exact absurd hcyc (hsame ▸ hroot id hid').not_cycle

/-- The walk goes on to the parent. -/
theorem climbs (hpar : ParentsWithin r.scopes (r.scopes.map (·.id))) :
    WalkInv r start { w with path := insert id w.path, current := s.parent } := by
  rw [hl] at hnd
  have hup : parentOf w.scopes id = s.parent := by rw [hl, ← hsid]; exact parentOf_middle hnd
  refine ⟨h.cut, h.done, fun x hx => h.mem_insert hid hx, ?_, ?_, ?_, h.issues, h.unchanged⟩
  · intro x hx
    rcases Finset.mem_insert.1 hx with rfl | hx
    · exact .of_eq hup
    · have hlx := h.leads x hx
      rw [hid] at hlx
      exact hlx.trans (.of_eq hup)
  · intro x hx
    exact hpar.cut h.cut s (by rw [hl]; simp) x hx
  · rcases h.start with hs | hs | hs
    · rw [hid] at hs
      exact .inr (.inl (Option.some.inj hs ▸ Finset.mem_insert_self _ _))
    · exact .inr (.inl (Finset.mem_insert_of_mem hs))
    · exact .inr (.inr hs)

end

end WalkInv

section
variable {index : ScopeId → Option ℕ} {source : Option String} {r : Repair} {start : ScopeId}
  (hidx : index = fun id => r.scopes.findIdx? fun s => s.id = id)
  (hnd : (r.scopes.map (·.id)).Nodup) (hpar : ParentsWithin r.scopes (r.scopes.map (·.id)))
include hidx

/-- The walk finds the scope it is at. -/
theorem walkAt_ok (source : Option String) {w : Walk} {id : ScopeId} (h : WalkInv r start w) (hid : w.current = some id) :
    ∃ pre s post, w.scopes = pre ++ s :: post ∧ s.id = id ∧
      walkAt index source w id = .ok (if id ∈ w.path then
        { w with
          scopes := pre ++ { s with parent := none } :: post
          issues := w.issues ++ [RunBuilder.cycleIssue source id]
          current := none }
        else { w with path := insert id w.path, current := s.parent }) := by
  have hmap : index id = w.scopes.findIdx? fun s => s.id = id := by
    simp only [hidx, findIdx?_ids, h.cut.ids]
  obtain ⟨i, hi⟩ : ∃ i, (w.scopes.findIdx? fun s => s.id = id) = some i := by
    rw [← Option.isSome_iff_exists, List.findIdx?_isSome, List.any_eq_true]
    have hmem := h.current id hid
    rw [← h.cut.ids] at hmem
    obtain ⟨s, hs, hsid⟩ := List.mem_map.1 hmem
    exact ⟨s, hs, by simpa using hsid⟩
  obtain ⟨pre, s, post, hl, hlen, hs, -, hget⟩ := RunBuilder.findIdx?_split hi
  refine ⟨pre, s, post, hl, by simpa using hs, ?_⟩
  have hset : w.scopes.set i { s with parent := none } = pre ++ { s with parent := none } :: post := by
    rw [hl, ← hlen]
    simp
  rw [walkAt, mapIndex, hmap, hi]
  simp only [hget, ok_bind, hset]
  rfl

include hnd hpar

/-- **One iteration of the walk** keeps the invariant and uses up fuel. -/
theorem walkStep_ok (source : Option String) {w : Walk} (h : WalkInv r start w) (hc : w.current.isSome = true) :
    ∃ w', walkStep index source r.done w = .ok w' ∧ WalkInv r start w' ∧
      w'.fuelLeft r.scopes.length < w.fuelLeft r.scopes.length := by
  obtain ⟨id, hid⟩ := Option.isSome_iff_exists.1 hc
  have hcard := h.card_insert hid
  have hfuel : w.fuelLeft r.scopes.length = r.scopes.length + 1 - w.path.card := by
    simp [Walk.fuelLeft, hid]
  have hle : w.path.card ≤ (insert id w.path).card :=
    Finset.card_le_card (Finset.subset_insert id w.path)
  have hwnd : (w.scopes.map (·.id)).Nodup := by rw [h.cut.ids]; exact hnd
  rw [walkStep, hid, hfuel]
  by_cases hdone : id ∈ r.done
  · exact ⟨{ w with current := none }, by simp [hdone], h.joins hid hdone,
      by simp [Walk.fuelLeft]; omega⟩
  · obtain ⟨pre, s, post, hl, hsid, hw⟩ := walkAt_ok hidx source h hid
    simp only [hdone, if_false]
    by_cases hpath : id ∈ w.path
    · rw [if_pos hpath] at hw
      exact ⟨_, hw, h.breaks hid hl hsid hwnd source hpath, by simp [Walk.fuelLeft]; omega⟩
    · rw [if_neg hpath] at hw
      rw [Finset.card_insert_of_notMem hpath] at hcard
      refine ⟨_, hw, h.climbs hid hl hsid hwnd hpar, ?_⟩
      simp only [Walk.fuelLeft, Finset.card_insert_of_notMem hpath]
      split_ifs <;> omega

/-- **A walk ends**, with its start rooted. -/
theorem repairFrom_ok (source : Option String)
    (hdone : ∀ x ∈ r.done, Rooted (parentOf r.scopes) x)
    (hstart : start ∈ r.scopes.map (·.id)) :
    ∃ r', repairFrom index source r start = .ok r' ∧ CutList r.scopes r'.scopes ∧
      r.done ⊆ r'.done ∧ start ∈ r'.done ∧ (∀ x ∈ r'.done, Rooted (parentOf r'.scopes) x) ∧
      (∀ e ∈ r'.issues, e ∈ r.issues ∨ e.kind = .invalidHierarchy) ∧
      ((∀ x ∈ r.scopes.map (·.id), Rooted (parentOf r.scopes) x) →
        r'.scopes = r.scopes ∧ r'.issues = r.issues) := by
  obtain ⟨w, hw, hinv, hcw⟩ := whileM_total (fun w : Walk => w.current.isSome)
    (walkStep index source r.done) (WalkInv r start) (fun w => w.fuelLeft r.scopes.length)
    (fun w h hc => walkStep_ok hidx hnd hpar source h hc)
    (r.scopes.length + 1) ⟨r.scopes, r.issues, ∅, some start⟩ (walkInv_start hdone hstart)
    (by simp [Walk.fuelLeft])
  have hend : w.current = none := by simpa using hcw
  refine ⟨⟨w.scopes, w.issues, r.done ∪ w.path⟩, by rw [repairFrom, hw]; rfl, hinv.cut,
    Finset.subset_union_left, ?_, ?_, hinv.issues, hinv.unchanged⟩
  · rcases hinv.start with hs | hs | hs
    · rw [hend] at hs
      cases hs
    · exact Finset.mem_union_right _ hs
    · exact Finset.mem_union_left _ hs
  · intro x hx
    rcases Finset.mem_union.1 hx with hx | hx
    · exact hinv.done x hx
    · have hl := hinv.leads x hx
      rw [hend] at hl
      exact hl

end

/-- **The repair ends with every scope rooted**, and changes nothing if every
    scope was. -/
theorem repair_ok {index : ScopeId → Option ℕ} (source : Option String) (starts : List ScopeId)
    {r : Repair} (hidx : index = fun id => r.scopes.findIdx? fun s => s.id = id)
    (hnd : (r.scopes.map (·.id)).Nodup) (hpar : ParentsWithin r.scopes (r.scopes.map (·.id)))
    (hdone : ∀ x ∈ r.done, Rooted (parentOf r.scopes) x)
    (hstarts : ∀ x ∈ starts, x ∈ r.scopes.map (·.id)) :
    ∃ r', starts.foldlM (repairFrom index source) r = .ok r' ∧ CutList r.scopes r'.scopes ∧
      (∀ x, x ∈ r.done ∨ x ∈ starts → Rooted (parentOf r'.scopes) x) ∧
      (∀ e ∈ r'.issues, e ∈ r.issues ∨ e.kind = .invalidHierarchy) ∧
      ((∀ x ∈ r.scopes.map (·.id), Rooted (parentOf r.scopes) x) →
        r'.scopes = r.scopes ∧ r'.issues = r.issues) := by
  induction starts generalizing r with
  | nil =>
    exact ⟨r, rfl, CutList.refl _, fun x hx => hdone x (by simpa using hx), fun e he => .inl he,
      fun _ => ⟨rfl, rfl⟩⟩
  | cons start starts ih =>
    obtain ⟨r₁, h₁, hcut₁, hsub, hin, hdone₁, hiss₁, hun₁⟩ :=
      repairFrom_ok hidx hnd hpar source hdone (hstarts start (by simp))
    have hids := hcut₁.ids
    have hidx₁ : index = fun id => r₁.scopes.findIdx? fun s => s.id = id := by
      simp only [hidx, findIdx?_ids, hids]
    obtain ⟨r₂, h₂, hcut₂, hdone₂, hiss₂, hun₂⟩ := ih hidx₁ (by rw [hids]; exact hnd)
      (by rw [hids]; exact hpar.cut hcut₁) hdone₁
      (fun x hx => by rw [hids]; exact hstarts x (List.mem_cons_of_mem _ hx))
    refine ⟨r₂, by rw [List.foldlM_cons, h₁, ok_bind, h₂], hcut₁.trans hcut₂, ?_, ?_, ?_⟩
    · rintro x (hx | hx)
      · exact hdone₂ x (.inl (hsub hx))
      · rcases List.mem_cons.1 hx with rfl | hx
        · exact hdone₂ x (.inl hin)
        · exact hdone₂ x (.inr hx)
    · intro e he
      rcases hiss₂ e he with he | he
      · exact hiss₁ e he
      · exact .inr he
    · intro hroot
      obtain ⟨hs₁, hi₁⟩ := hun₁ hroot
      obtain ⟨hs₂, hi₂⟩ := hun₂ (by rw [hs₁]; exact hroot)
      exact ⟨hs₂.trans hs₁, hi₂.trans hi₁⟩

/-! ## The completed run -/

namespace RunBuilder

/-- The ids that get a placeholder. -/
def missing (b : RunBuilder) : List ScopeId :=
  missingOf (b.run.scopes.map (·.id)) (neededScopes b.run.scopes b.run.records)

/-- The scopes of a builder, with the placeholders. -/
def allScopes (b : RunBuilder) : List Scope := b.run.scopes ++ b.missing.map placeholder

theorem allScopes_ids (b : RunBuilder) :
    b.allScopes.map (·.id) = b.run.scopes.map (·.id) ++ b.missing := by
  rw [allScopes, List.map_append, List.map_map]
  exact congrArg _ (List.map_id' _)

theorem mem_allScopes_ids {b : RunBuilder} {id : ScopeId} :
    id ∈ b.allScopes.map (·.id) ↔ id ∈ b.run.scopes.map (·.id) ∨ id ∈ b.missing := by
  rw [allScopes_ids, List.mem_append]

/-- Every id that is needed has a scope. -/
theorem needed_mem_allScopes {b : RunBuilder} {id : ScopeId}
    (h : id ∈ neededScopes b.run.scopes b.run.records) : id ∈ b.allScopes.map (·.id) := by
  rw [mem_allScopes_ids]
  by_cases hid : id ∈ b.run.scopes.map (·.id)
  · exact .inl hid
  · exact .inr (mem_missingOf.2 ⟨h, hid⟩)

theorem allScopes_parentsWithin (b : RunBuilder) :
    ParentsWithin b.allScopes (b.allScopes.map (·.id)) := by
  intro s hs p hp
  rcases List.mem_append.1 hs with hs | hs
  · exact needed_mem_allScopes (List.mem_append_left _ (List.mem_filterMap.2 ⟨s, hs, hp⟩))
  · obtain ⟨id, -, rfl⟩ := List.mem_map.1 hs
    cases hp

theorem allScopes_nodup {b : RunBuilder} (h : b.WF) : (b.allScopes.map (·.id)).Nodup := by
  rw [allScopes_ids, List.nodup_append]
  refine ⟨h.nodup, nodup_missingOf _ _, ?_⟩
  rintro x hx y hy rfl
  exact (mem_missingOf.1 hy).2 hx

/-- **What finishing yields**: the scopes with placeholders, some parent links
    cut, every scope rooted; nothing is cut if every scope was. -/
theorem finish_ok {b : RunBuilder} (h : b.WF) :
    ∃ run issues, b.finish = .ok (run, issues) ∧ run.runId = b.run.runId ∧
      run.headers = b.run.headers ∧ run.records = b.run.records ∧
      run.missingScopeMetadata = b.run.missingScopeMetadata ++ b.missing ∧
      CutList b.allScopes run.scopes ∧
      (∀ s ∈ run.scopes, Rooted (parentOf run.scopes) s.id) ∧
      (∀ e ∈ issues, e.kind = .missingScopeMetadata ∨ e.kind = .invalidHierarchy) ∧
      ((∀ s ∈ b.allScopes, Rooted (parentOf b.allScopes) s.id) →
        run.scopes = b.allScopes ∧ issues = b.missing.map (missingIssue b.source)) := by
  obtain ⟨b', hfold, hwf, hrun, hsrc⟩ :=
    addPlaceholders_ok h (neededScopes b.run.scopes b.run.records) []
  have hscopes : b'.run.scopes = b.allScopes := by rw [hrun]; rfl
  obtain ⟨r, hr, hcut, hdone, hiss, hun⟩ := repair_ok b'.source (b'.run.scopes.map (·.id))
    (r := ⟨b'.run.scopes, b.missing.map (missingIssue b.source), ∅⟩) hwf.scopes hwf.nodup
    (by rw [hscopes]; exact b.allScopes_parentsWithin) (by simp) (fun x hx => hx)
  refine ⟨{ b'.run with scopes := r.scopes }, r.issues, ?_, by rw [hrun]; rfl, by rw [hrun]; rfl,
    by rw [hrun]; rfl, by rw [hrun]; rfl, by rw [← hscopes]; exact hcut, ?_, ?_, ?_⟩
  · rw [finish, hfold]
    simp only [List.nil_append]
    rw [missing] at hr
    rw [hr]
    rfl
  · intro s hs
    refine hdone s.id (.inr ?_)
    rw [← hcut.ids]
    exact List.mem_map.2 ⟨s, hs, rfl⟩
  · intro e he
    rcases hiss e he with he | he
    · obtain ⟨id, -, rfl⟩ := List.mem_map.1 he
      exact .inl rfl
    · exact .inr he
  · intro hroot
    rw [hscopes] at hun
    refine hun ?_
    intro x hx
    obtain ⟨s, hs, rfl⟩ := List.mem_map.1 hx
    exact hroot s hs

end RunBuilder

end Eventline
