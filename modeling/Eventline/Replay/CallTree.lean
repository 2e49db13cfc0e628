/-
  A structured program is recovered as it was written.

  * `Work`: a program that logs events, and enters and exits scopes around more
    of it; `Runs` are its runs on a journal, with any clock readings.
  * `Realises`: the scopes and records that a program leaves.
  * `Outline`: what a reader of the scope tree sees; `Realises.outline` reads it
    off the tree, and `call_tree_recovered` off the loaded export of a journal.
-/
import Eventline.History
import Eventline.Replay.Index
import Eventline.Replay.Outcomes
import Eventline.Replay.Snapshot
import Eventline.Replay.Tree

namespace Eventline

open Text Checked Slots

/-! ## Programs -/

/-- A program on a journal.  A scope is given the times that its `enter_scope`
    and its `exit_scope` read. -/
inductive Work where
  | done
  | event (kind : EventKind) (message : String) (fields : Fields) (rest : Work)
  | scope (name : String) (outcome : Outcome) (startedAt finishedAt : Instant) (body rest : Work)

/-- What a record says, ids and times apart. -/
inductive Note where
  | event (kind : EventKind) (message : String) (fields : Fields)
  | exit (outcome : Outcome) (durationNs : UInt64)

/-- What a reader sees of a scope: its name, its own notes and the scopes in it. -/
inductive Outline where
  | node (name : Option String) (notes : List Note) (children : List Outline)

namespace Work

/-- The scope ids that a program takes. -/
def entered : Work → ℕ
  | done => 0
  | event _ _ _ rest => rest.entered
  | scope _ _ _ _ body rest => body.entered + rest.entered + 1

/-- The record ids that a program takes. -/
def recorded : Work → ℕ
  | done => 0
  | event _ _ _ rest => rest.recorded + 1
  | scope _ _ _ _ body rest => body.recorded + rest.recorded + 1

/-- The notes of a program outside of its scopes. -/
def notes : Work → List Note
  | done => []
  | event kind message fields rest => .event kind message fields :: rest.notes
  | scope _ _ _ _ _ rest => rest.notes

/-- The scopes of a program. -/
def outline : Work → List Outline
  | done => []
  | event _ _ _ rest => rest.outline
  | scope name outcome startedAt finishedAt body rest =>
    .node (some name)
      (body.notes ++ [.exit outcome (durationNanos (finishedAt.saturatingDurationSince startedAt))])
      body.outline :: rest.outline

/-- The program with the doubles of its events replaced. -/
def mapDoubles (f : FiniteF64 → FiniteF64) : Work → Work
  | done => done
  | event kind message fields rest => event kind message (fields.mapDoubles f) (rest.mapDoubles f)
  | scope name outcome startedAt finishedAt body rest =>
    scope name outcome startedAt finishedAt (body.mapDoubles f) (rest.mapDoubles f)

/-- The program that the export of its journal is read as. -/
def reread (serde : SerdeJson) (w : Work) : Work := w.mapDoubles serde.reread

theorem reread_of_exact {serde : SerdeJson} (h : serde.Exact) (w : Work) : w.reread serde = w := by
  unfold reread
  induction w with
  | done => rfl
  | event kind message fields rest ih =>
    rw [mapDoubles, ih, Fields.mapDoubles_of_forall _ h]
  | scope name outcome startedAt finishedAt body rest ihbody ihrest =>
    rw [mapDoubles, ihbody, ihrest]

end Work

/-- The runs of a program on a journal; the wall-clock times are arbitrary. -/
inductive Runs : Journal → Work → Journal → Prop
  | done (j : Journal) : Runs j .done j
  | event {j j₁ j' : Journal} {kind : EventKind} {message : String} {fields : Fields} {rest : Work}
      {nanos : UInt64} {id : RecordId} : j.record kind message fields nanos = .ok (j₁, id) →
      Runs j₁ rest j' → Runs j (.event kind message fields rest) j'
  | scope {j j₁ j₂ j₃ j' : Journal} {name : String} {outcome : Outcome}
      {startedAt finishedAt : Instant} {body rest : Work} {entered exited nanos : UInt64}
      {id : ScopeId} {rid : RecordId} : j.enterScope name startedAt entered = .ok (j₁, id) →
      Runs j₁ body j₂ → j₂.exitScope id outcome finishedAt exited nanos = .ok (j₃, rid) →
      Runs j₃ rest j' → Runs j (.scope name outcome startedAt finishedAt body rest) j'

/-! ## What a program leaves -/

/-- The scopes and records of a program that runs in the scope `p`. -/
inductive Realises : Option ScopeId → Work → List Scope → List Record → Prop
  | done (p : Option ScopeId) : Realises p .done [] []
  | event {p : Option ScopeId} {kind : EventKind} {message : String} {fields : Fields} {rest : Work}
      {r : Record} {ss : List Scope} {rs : List Record} (hscope : r.scope = p)
      (hkind : r.kind = .event kind message fields) (hrest : Realises p rest ss rs) :
      Realises p (.event kind message fields rest) ss (r :: rs)
  | scope {p : Option ScopeId} {name : String} {outcome : Outcome} {startedAt finishedAt : Instant}
      {body rest : Work} {s : Scope} {exit : Record} {ss ss' : List Scope} {rs rs' : List Record}
      (hparent : s.parent = p) (hname : s.name = some name) (hclosed : s.exitedAt.isSome)
      (hbody : Realises (some s.id) body ss rs) (hscope : exit.scope = some s.id)
      (hkind : exit.kind =
        .scopeExit outcome (durationNanos (finishedAt.saturatingDurationSince startedAt)))
      (hrest : Realises p rest ss' rs') :
      Realises p (.scope name outcome startedAt finishedAt body rest) (s :: (ss ++ ss'))
        (rs ++ exit :: rs')

def Record.note (r : Record) : Note :=
  match r.kind with
  | .event kind message fields => .event kind message fields
  | .scopeExit outcome durationNs => .exit outcome durationNs

/-- The scopes entered in the scope `p`. -/
def scopesUnder (p : Option ScopeId) (ss : List Scope) : List Scope := ss.filter fun s => s.parent = p

/-- The records of the scope `p`. -/
def recordsUnder (p : Option ScopeId) (rs : List Record) : List Record :=
  rs.filter fun r => r.scope = p

@[simp] theorem scopesUnder_append (p : Option ScopeId) (xs ys : List Scope) :
    scopesUnder p (xs ++ ys) = scopesUnder p xs ++ scopesUnder p ys := List.filter_append ..

@[simp] theorem recordsUnder_append (p : Option ScopeId) (xs ys : List Record) :
    recordsUnder p (xs ++ ys) = recordsUnder p xs ++ recordsUnder p ys := List.filter_append ..

section
variable {p : Option ScopeId} {w : Work} {ss : List Scope} {rs : List Record}

/-- Every scope is in `p`, or in another one of the program. -/
theorem Realises.parents (h : Realises p w ss rs) :
    ∀ x ∈ ss, x.parent = p ∨ ∃ y ∈ ss, x.parent = some y.id := by
  induction h with
  | done => simp
  | event _ _ _ ih => exact ih
  | @scope p name outcome startedAt finishedAt body rest s exit ss ss' rs rs' hparent _ _ _ _ _ _
      ihbody ihrest =>
    intro x hx
    rcases List.mem_cons.1 hx with rfl | hx
    · exact .inl hparent
    rcases List.mem_append.1 hx with hx | hx
    · rcases ihbody x hx with hx | ⟨y, hy, hx⟩
      · exact .inr ⟨s, .head _, hx⟩
      · exact .inr ⟨y, by simp [hy], hx⟩
    · rcases ihrest x hx with hx | ⟨y, hy, hx⟩
      · exact .inl hx
      · exact .inr ⟨y, by simp [hy], hx⟩

/-- Every record is in `p`, or in a scope of the program. -/
theorem Realises.scopes (h : Realises p w ss rs) :
    ∀ r ∈ rs, r.scope = p ∨ ∃ y ∈ ss, r.scope = some y.id := by
  induction h with
  | done => simp
  | @event p _ _ _ _ r ss rs hscope _ _ ih =>
    intro x hx
    rcases List.mem_cons.1 hx with rfl | hx
    · exact .inl hscope
    · exact ih x hx
  | @scope p name outcome startedAt finishedAt body rest s exit ss ss' rs rs' _ _ _ _ hscope _ _
      ihbody ihrest =>
    intro x hx
    rcases List.mem_append.1 hx with hx | hx
    · rcases ihbody x hx with hx | ⟨y, hy, hx⟩
      · exact .inr ⟨s, .head _, hx⟩
      · exact .inr ⟨y, by simp [hy], hx⟩
    rcases List.mem_cons.1 hx with rfl | hx
    · exact .inr ⟨s, .head _, hscope⟩
    · rcases ihrest x hx with hx | ⟨y, hy, hx⟩
      · exact .inl hx
      · exact .inr ⟨y, by simp [hy], hx⟩

/-- What is read back is what the program read back leaves. -/
theorem Realises.mapDoubles (f : FiniteF64 → FiniteF64) (h : Realises p w ss rs) :
    Realises p (w.mapDoubles f) ss (rs.map (Record.mapDoubles f)) := by
  induction h with
  | done => exact .done _
  | event hscope hkind _ ih =>
    refine .event hscope ?_ ih
    rw [Record.mapDoubles, hkind]
    rfl
  | scope hparent hname hclosed _ hscope hkind _ ihbody ihrest =>
    rw [List.map_append, List.map_cons, Record.mapDoubles_of_exit f hkind]
    exact .scope hparent hname hclosed ihbody hscope hkind ihrest

/-- A program that does anything leaves a record. -/
theorem Realises.ne_nil (h : Realises p w ss rs) (hw : w ≠ .done) : rs ≠ [] := by
  cases h with
  | done => exact absurd rfl hw
  | event => simp
  | scope => simp

/-- A program leaves nothing in scopes that are neither `p` nor its own. -/
theorem Realises.none_under (h : Realises p w ss rs) {q : Option ScopeId} (hpq : p ≠ q)
    (hss : ∀ y ∈ ss, some y.id ≠ q) : scopesUnder q ss = [] ∧ recordsUnder q rs = [] := by
  simp only [scopesUnder, recordsUnder, List.filter_eq_nil_iff, decide_eq_true_eq]
  constructor
  · rintro x hx rfl
    rcases h.parents x hx with hp | ⟨y, hy, hxy⟩
    · exact hpq hp.symm
    · exact hss y hy hxy.symm
  · rintro x hx rfl
    rcases h.scopes x hx with hp | ⟨y, hy, hxy⟩
    · exact hpq hp.symm
    · exact hss y hy hxy.symm

theorem Realises.closed (h : Realises p w ss rs) : ∀ x ∈ ss, x.exitedAt.isSome := by
  induction h with
  | done => simp
  | event _ _ _ ih => exact ih
  | @scope p _ _ _ _ _ _ s _ ss ss' _ _ _ _ hclosed _ _ _ _ ihbody ihrest =>
    intro x hx
    rcases List.mem_cons.1 hx with rfl | hx
    · exact hclosed
    rcases List.mem_append.1 hx with hx | hx
    · exact ihbody x hx
    · exact ihrest x hx

/-- **The notes outside of scopes** are those of the program, in order. -/
theorem Realises.notes (h : Realises p w ss rs) (hfresh : ∀ y ∈ ss, some y.id ≠ p)
    (hnd : (ss.map (·.id)).Nodup) : (recordsUnder p rs).map Record.note = w.notes := by
  induction h with
  | done => rfl
  | @event p _ _ _ _ r ss rs hscope hkind _ ih =>
    simp [recordsUnder, hscope, Record.note, hkind, Work.notes]
    exact ih hfresh hnd
  | @scope p _ _ _ _ _ _ s exit ss ss' rs rs' _ _ _ hbody hscope _ _ _ ihrest =>
    have hps : some s.id ≠ p := hfresh s (.head _)
    have hnone := (hbody.none_under hps fun y hy => hfresh y (by simp [hy])).2
    rw [List.map_cons, List.map_append] at hnd
    have hrest := ihrest (fun y hy => hfresh y (by simp [hy]))
      (List.nodup_append.1 (List.nodup_cons.1 hnd).2).2.1
    rw [recordsUnder_append, hnone, List.nil_append, recordsUnder, List.filter_cons, hscope,
      decide_eq_false hps]
    exact hrest

end

/-! ## What a reader sees -/

mutual

def ScopeNode.outline (records : List Record) : ScopeNode → Outline
  | .node s children =>
    .node s.name ((recordsForScope records s.id).map Record.note) (outlines records children)

def outlines (records : List Record) : List ScopeNode → List Outline
  | [] => []
  | t :: ts => t.outline records :: outlines records ts

end

theorem outlines_eq (records : List Record) (ts : List ScopeNode) :
    outlines records ts = ts.map fun t => t.outline records := by
  induction ts with
  | nil => rfl
  | cons t ts ih => rw [outlines, ih, List.map_cons]

/-- The scopes `ss` have no more below them in `scopes` and `records` than in
    `ss` and `rs`. -/
def Hangs (scopes : List Scope) (records : List Record) (ss : List Scope) (rs : List Record) :
    Prop :=
  ∀ y ∈ ss, scopesUnder (some y.id) scopes = scopesUnder (some y.id) ss ∧
    recordsUnder (some y.id) records = recordsUnder (some y.id) rs

/-- A record in `p` hangs on no scope of the program. -/
theorem Hangs.event {scopes : List Scope} {records : List Record} {p : Option ScopeId}
    {r : Record} {ss : List Scope} {rs : List Record} (hhangs : Hangs scopes records ss (r :: rs))
    (hscope : r.scope = p) (hfresh : ∀ y ∈ ss, some y.id ≠ p) : Hangs scopes records ss rs := by
  intro y hy
  have hpy : p ≠ some y.id := Ne.symm (hfresh y hy)
  obtain ⟨hscopes, hrecords⟩ := hhangs y hy
  exact ⟨hscopes, by simpa [recordsUnder, hscope, hpy] using hrecords⟩

section
variable {scopes : List Scope} {records : List Record} {p : Option ScopeId} {w w' : Work}
  {s : Scope} {exit : Record} {ss ss' : List Scope} {rs rs' : List Record}

/-- What a scope and its exit add is not below other scopes. -/
theorem under_append {id : ScopeId} (hpid : p ≠ some id) (hsid : s.id ≠ id) (hparent : s.parent = p)
    (hscope : exit.scope = some s.id) :
    scopesUnder (some id) (s :: (ss ++ ss')) =
        scopesUnder (some id) ss ++ scopesUnder (some id) ss' ∧
      recordsUnder (some id) (rs ++ exit :: rs') =
        recordsUnder (some id) rs ++ recordsUnder (some id) rs' := by
  constructor
  · rw [← List.singleton_append, scopesUnder_append, scopesUnder_append]
    simp [scopesUnder, hparent, hpid]
  · rw [recordsUnder_append, ← List.singleton_append, recordsUnder_append]
    simp [recordsUnder, hscope, hsid]

variable (hhangs : Hangs scopes records (s :: (ss ++ ss')) (rs ++ exit :: rs'))
  (hfresh : ∀ y ∈ s :: (ss ++ ss'), some y.id ≠ p)
  (hnd : ((s :: (ss ++ ss')).map (·.id)).Nodup) (hparent : s.parent = p)
  (hscope : exit.scope = some s.id)
  (hbody : Realises (some s.id) w ss rs) (hrest : Realises p w' ss' rs')
include hhangs hfresh hnd hparent hscope

include hrest in
/-- Below a scope of the program is its body. -/
theorem Hangs.own : scopesUnder (some s.id) scopes = scopesUnder (some s.id) ss ∧
    recordsUnder (some s.id) records = recordsUnder (some s.id) rs ++ [exit] := by
  have hps : p ≠ some s.id := Ne.symm (hfresh s (.head _))
  simp only [List.map_cons, List.map_append, List.nodup_cons] at hnd
  have hother : ∀ y ∈ ss', some y.id ≠ some s.id := by
    intro y hy hid
    exact hnd.1 (List.mem_append_right _ (List.mem_map.2 ⟨y, hy, Option.some.inj hid⟩))
  obtain ⟨hss, hrs⟩ := hrest.none_under hps hother
  obtain ⟨hscopes, hrecords⟩ := hhangs s (.head _)
  constructor
  · rw [hscopes, ← List.singleton_append, scopesUnder_append, scopesUnder_append, hss]
    simp [scopesUnder, hparent, hps]
  · rw [hrecords, recordsUnder_append, ← List.singleton_append, recordsUnder_append, hrs]
    simp [recordsUnder, hscope]

include hrest in
theorem Hangs.body : Hangs scopes records ss rs := by
  intro y hy
  have hpy : p ≠ some y.id := Ne.symm (hfresh y (by simp [hy]))
  simp only [List.map_cons, List.map_append, List.nodup_cons, List.nodup_append] at hnd
  have hsy : s.id ≠ y.id := by
    intro hid
    exact hnd.1 (List.mem_append_left _ (List.mem_map.2 ⟨y, hy, hid.symm⟩))
  have hother : ∀ z ∈ ss', some z.id ≠ some y.id := by
    intro z hz hid
    exact hnd.2.2.2 _ (List.mem_map_of_mem hy) _ (List.mem_map_of_mem hz) (Option.some.inj hid).symm
  obtain ⟨hss, hrs⟩ := hrest.none_under hpy hother
  obtain ⟨hscopes, hrecords⟩ := under_append hpy hsy
    hparent hscope
  rw [(hhangs y (by simp [hy])).1, (hhangs y (by simp [hy])).2, hscopes, hrecords, hss, hrs]
  simp

include hbody in
theorem Hangs.rest : Hangs scopes records ss' rs' := by
  intro y hy
  have hpy : p ≠ some y.id := Ne.symm (hfresh y (by simp [hy]))
  simp only [List.map_cons, List.map_append, List.nodup_cons, List.nodup_append] at hnd
  have hsy : s.id ≠ y.id := by
    intro hid
    exact hnd.1 (List.mem_append_right _ (List.mem_map.2 ⟨y, hy, hid.symm⟩))
  have hother : ∀ z ∈ ss, some z.id ≠ some y.id := by
    intro z hz hid
    exact hnd.2.2.2 _ (List.mem_map_of_mem hz) _ (List.mem_map_of_mem hy) (Option.some.inj hid)
  obtain ⟨hss, hrs⟩ := hbody.none_under (by simpa using hsy) hother
  obtain ⟨hscopes, hrecords⟩ := under_append hpy hsy
    hparent hscope
  rw [(hhangs y (by simp [hy])).1, (hhangs y (by simp [hy])).2, hscopes, hrecords, hss, hrs]
  simp

end

/-- **The trees of the scopes in `p`** show the scopes of the program: a child
    has a larger id than what is on its path, so no subtree is cut. -/
theorem Realises.outline {scopes : List Scope} {records : List Record} {p : Option ScopeId}
    {w : Work} {ss : List Scope} {rs : List Record} (h : Realises p w ss rs)
    (hfresh : ∀ y ∈ ss, some y.id ≠ p) (hnd : (ss.map (·.id)).Nodup)
    (hhangs : Hangs scopes records ss rs)
    (hbelow : ∀ x ∈ ss, ∀ q, x.parent = some q → q.n < x.id.n) {n : ℕ} (hn : ss.length ≤ n)
    (path : Scope → Finset ScopeId) (hpath : ∀ s ∈ scopesUnder p ss, ∀ q ∈ path s, q.n ≤ s.id.n) :
    (scopesUnder p ss).map (fun s => (treeOf scopes n (path s) s).outline records) = w.outline := by
  induction h generalizing n path with
  | done => rfl
  | event hscope _ _ ih => exact ih hfresh hnd (hhangs.event hscope hfresh) hbelow hn path hpath
  | @scope p name outcome startedAt finishedAt body rest s exit ss ss' rs rs' hparent hname _ hbody
      hscope hkind hrest ihbody ihrest =>
    have hps : some s.id ≠ p := hfresh s (.head _)
    have hown := hhangs.own hfresh hnd hparent hscope hrest
    have hunder : scopesUnder p (s :: (ss ++ ss')) = s :: scopesUnder p ss' := by
      have hnone := (hbody.none_under hps fun y hy => hfresh y (by simp [hy])).1
      rw [← List.singleton_append, scopesUnder_append, scopesUnder_append, hnone]
      simp [scopesUnder, hparent]
    have hnds := hnd
    simp only [List.map_cons, List.map_append, List.nodup_cons, List.nodup_append] at hnds
    have hfresh' : ∀ y ∈ ss, some y.id ≠ some s.id := by
      intro y hy hid
      exact hnds.1 (List.mem_append_left _ (List.mem_map.2 ⟨y, hy, Option.some.inj hid⟩))
    have hlater : ∀ c ∈ scopesUnder (some s.id) ss, ∀ q ∈ path s, q.n < c.id.n := by
      intro c hc q hq
      obtain ⟨hc, hcs⟩ := List.mem_filter.1 hc
      refine UInt64.lt_of_le_of_lt (hpath s (hunder ▸ .head _) q hq) ?_
      exact hbelow c (by simp [hc]) s.id (by simpa using hcs)
    obtain ⟨m, rfl⟩ : ∃ m, n = m + 1 := ⟨n - 1, by simp only [List.length_cons] at hn; omega⟩
    simp only [List.length_cons, List.length_append] at hn
    have hchildren : subtrees (fun c => treeOf scopes m (insert c.id (path s)) c) (path s)
        (childrenOf scopes s.id) =
          (scopesUnder (some s.id) ss).map fun c => treeOf scopes m (insert c.id (path s)) c := by
      rw [show childrenOf scopes s.id = scopesUnder (some s.id) ss from hown.1, subtrees,
        List.filter_eq_self.2]
      intro c hc
      have hno : c.id ∉ path s := fun hm => UInt64.lt_irrefl _ (hlater c hc c.id hm)
      simpa using hno
    have hsub := ihbody hfresh' hnds.2.1 (hhangs.body hfresh hnd hparent hscope hrest)
      (fun x hx => hbelow x (by simp [hx])) (n := m) (by omega) (fun c => insert c.id (path s))
      (fun c hc q hq => by
        rcases Finset.mem_insert.1 hq with rfl | hq
        · exact UInt64.le_refl _
        · exact UInt64.le_of_lt (hlater c hc q hq))
    have hnotes : (recordsForScope records s.id).map Record.note = body.notes ++
        [.exit outcome (durationNanos (finishedAt.saturatingDurationSince startedAt))] := by
      rw [show recordsForScope records s.id = recordsUnder (some s.id) rs ++ [exit] from hown.2,
        List.map_append, hbody.notes hfresh' hnds.2.1]
      simp [Record.note, hkind]
    rw [hunder, List.map_cons, Work.outline]
    congr 1
    · rw [treeOf, hchildren, ScopeNode.outline, hname, hnotes, outlines_eq, List.map_map]
      rw [← hsub]
      rfl
    · refine ihrest (fun y hy => hfresh y (by simp [hy])) hnds.2.2.1
        (hhangs.rest hfresh hnd hparent hscope hbody) (fun x hx => hbelow x (by simp [hx]))
        (by omega) path fun x hx => hpath x (hunder ▸ .tail _ hx)

/-! ## What a run does -/

namespace Journal

section
variable {j j' : Journal} {n m : ℕ} (h : j.Issued n m)
include h

theorem Issued.enter_scope (hn : n < 2 ^ 64) (hcur : ∀ c, j.currentScope = some c → c.n.toNat < n)
    {name : String} {t : Instant} {ms : UInt64} {id : ScopeId}
    (he : j.enterScope name t ms = .ok (j', id)) :
    j'.Issued (n + 1) m ∧ id.n.toNat = n ∧
      j'.retained = j.retained ++
        [⟨⟨id, j.currentScope, ms, some name, none, .none⟩, some ⟨t, none⟩⟩] ∧
      j'.records = j.records ∧ j'.currentScope = some id ∧ j'.runId = j.runId := by
  obtain ⟨⟨j₁, id₁⟩, hpush, he⟩ := bind_eq_ok.1 he
  obtain ⟨rfl, rfl⟩ := Prod.mk.inj (Except.ok.inj he)
  obtain ⟨hissued, hid, -, hrecords⟩ := h.enter hn hcur hpush
  obtain ⟨-, -, hret, -, -, -, -, hrun⟩ := pushScope_inv h.wf hpush
  exact ⟨hissued.of_eq rfl rfl rfl, hid, hret, hrecords, rfl, hrun⟩

theorem Issued.record_event (hm : m < 2 ^ 64) {kind : EventKind} {message : String}
    {fields : Fields} {ns : UInt64} {id : RecordId}
    (he : j.record kind message fields ns = .ok (j', id)) :
    ∃ r : Record, r.scope = j.currentScope ∧ r.kind = .event kind message fields ∧
      j'.Issued n (m + 1) ∧ j'.retained = j.retained ∧ j'.records = j.records ++ [r] ∧
      j'.currentScope = j.currentScope ∧ j'.runId = j.runId := by
  obtain ⟨⟨j₁, id₁, r, scope⟩, hrec, he⟩ := bind_eq_ok.1 he
  obtain ⟨rfl, -⟩ := Prod.mk.inj (Except.ok.inj he)
  obtain ⟨hissued, -, -, hrecords⟩ := h.record hm hrec
  obtain ⟨records, rfl, -, -, -, hr, -⟩ := recordNoWriteInScope_inv h.wf hrec
  exact ⟨r, by rw [hr], by rw [hr], hissued.of_eq rfl rfl rfl, rfl, hrecords, rfl, rfl⟩

/-- The exit of an open scope, which was entered at `t`. -/
theorem Issued.exit_open (hm : m < 2 ^ 64) {pre post : List BufferedScope} {s : Scope}
    {t finishedAt : Instant} (hret : j.retained = pre ++ ⟨s, some ⟨t, none⟩⟩ :: post)
    (hpre : ∀ b ∈ pre, b.scope.id ≠ s.id) (hopen : s.exitedAt = none) {outcome : Outcome}
    {ms ns : UInt64} {id : RecordId} {payload : Option (Record × Scope)}
    (he : j.exitScopeNoWrite s.id outcome finishedAt ms ns = .ok (j', id, payload)) :
    ∃ (exit : Record) (b : BufferedScope), payload = some (exit, b.scope) ∧ exit.id = id ∧
      exit.scope = some s.id ∧
      exit.kind = .scopeExit outcome (durationNanos (finishedAt.saturatingDurationSince t)) ∧
      b.scope = { s with exitedAt := some ms } ∧ j'.Issued n (m + 1) ∧
      j'.retained = pre ++ b :: post ∧ j'.records = j.records ++ [exit] ∧
      j'.currentScope = (if some s.id = j.currentScope then s.parent else j.currentScope) ∧
      j'.runId = j.runId := by
  obtain ⟨hissued, -⟩ := h.exit hm he
  obtain ⟨-, -, -, -, hrun, -, hret', hcase⟩ := exitScopeNoWrite_inv h.wf he
  have hid : Scopes.hasId s.id ⟨s, some ⟨t, none⟩⟩ = true := by simp [Scopes.hasId]
  have hno : ∀ b ∈ pre, Scopes.hasId s.id b = false := by
    intro b hb
    simpa [Scopes.hasId] using hpre b hb
  have hfind : j.retained.find? (Scopes.hasId s.id) = some ⟨s, some ⟨t, none⟩⟩ := by
    rw [hret, List.find?_append, List.find?_eq_none.2 (by simpa using hno)]
    simp [hid]
  have hclosed : Scopes.isClosed ⟨s, some ⟨t, none⟩⟩ = false := by simp [Scopes.isClosed, hopen]
  rw [hfind, Option.bind_some, Scopes.exitOf, hclosed] at hcase
  obtain ⟨exit, hpayload, hrec, hrecords, hcurrent⟩ := hcase
  rw [hret, updateFirst_split hid hno, Scopes.closeIfOpen, hclosed] at hret'
  exact ⟨exit, _, hpayload, by rw [hrec], by rw [hrec], by rw [hrec]; rfl, rfl, hissued, hret',
    hrecords, hcurrent, hrun⟩

/-- The exit of the current scope. -/
theorem Issued.exit_current (hm : m < 2 ^ 64) {pre post : List BufferedScope} {s : Scope}
    {t finishedAt : Instant} (hret : j.retained = pre ++ ⟨s, some ⟨t, none⟩⟩ :: post)
    (hpre : ∀ b ∈ pre, b.scope.id ≠ s.id) (hopen : s.exitedAt = none)
    (hcur : j.currentScope = some s.id) {outcome : Outcome} {ms ns : UInt64} {id : RecordId}
    (he : j.exitScope s.id outcome finishedAt ms ns = .ok (j', id)) :
    ∃ (exit : Record) (b : BufferedScope), exit.scope = some s.id ∧
      exit.kind = .scopeExit outcome (durationNanos (finishedAt.saturatingDurationSince t)) ∧
      b.scope = { s with exitedAt := some ms } ∧ j'.Issued n (m + 1) ∧
      j'.retained = pre ++ b :: post ∧ j'.records = j.records ++ [exit] ∧
      j'.currentScope = s.parent ∧ j'.runId = j.runId := by
  obtain ⟨⟨j₁, id₁, payload⟩, hexit, he⟩ := bind_eq_ok.1 he
  obtain ⟨hj, -⟩ := Prod.mk.inj (Except.ok.inj he)
  obtain ⟨exit, b, rfl, -, hscope, hkind, hb, hissued, hret', hrecords, hcurrent, hrun⟩ :=
    h.exit_open hm hret hpre hopen hexit
  rw [if_pos hcur.symm] at hcurrent
  rw [← hj]
  exact ⟨exit, b, hscope, hkind, hb, hissued.of_eq rfl rfl rfl, hret', hrecords, hcurrent, hrun⟩

end

end Journal

/-- What a run of a program has done to a journal. -/
structure Leaves (j : Journal) (w : Work) (n m : ℕ) (bs : List BufferedScope) (rs : List Record)
    (j' : Journal) : Prop where
  issued : j'.Issued (n + w.entered) (m + w.recorded)
  retained : j'.retained = j.retained ++ bs
  records : j'.records = j.records ++ rs
  current : j'.currentScope = j.currentScope
  runId : j'.runId = j.runId
  realises : Realises j.currentScope w (bs.map (·.scope)) rs

/-- **A run leaves what its program says**, behind what was there, and the scope
    that was current is current again. -/
theorem Runs.leaves {j j' : Journal} {w : Work} (hruns : Runs j w j') {n m : ℕ} (h : j.Issued n m)
    (hcur : ∀ c, j.currentScope = some c → c.n.toNat < n) (hn : n + w.entered ≤ 2 ^ 64)
    (hm : m + w.recorded ≤ 2 ^ 64) : ∃ bs rs, Leaves j w n m bs rs j' := by
  induction hruns generalizing n m with
  | done j =>
    refine ⟨[], [], ?_⟩
    exact {
      issued := h
      retained := (List.append_nil _).symm
      records := (List.append_nil _).symm
      current := rfl
      runId := rfl
      realises := .done _ }
  | @event j j₁ j' kind message fields rest nanos id he hrest ih =>
    simp only [Work.entered, Work.recorded] at hn hm
    obtain ⟨r, hscope, hkind, hissued, hret, hrecords, hcurrent, hrun⟩ :=
      h.record_event (by omega) he
    obtain ⟨bs, rs, hl⟩ := ih hissued (by rwa [hcurrent]) hn (by omega)
    refine ⟨bs, r :: rs, ?_⟩
    exact {
      issued := by
        have hsum : m + (rest.recorded + 1) = m + 1 + rest.recorded := by omega
        simpa only [Work.entered, Work.recorded, hsum] using hl.issued
      retained := by rw [hl.retained, hret]
      records := by rw [hl.records, hrecords, List.append_assoc, List.singleton_append]
      current := by rw [hl.current, hcurrent]
      runId := by rw [hl.runId, hrun]
      realises := .event hscope hkind (hcurrent ▸ hl.realises) }
  | @scope j j₁ j₂ j₃ j' name outcome startedAt finishedAt body rest entered exited nanos id rid
      henter hbody hexit hrest ihbody ihrest =>
    simp only [Work.entered, Work.recorded] at hn hm
    obtain ⟨hissued₁, hid, hret₁, hrecords₁, hcur₁, hrun₁⟩ := h.enter_scope (by omega) hcur henter
    obtain ⟨bs, rs, hl⟩ := ihbody hissued₁
      (by
        rw [hcur₁]
        rintro c ⟨⟩
        omega)
      (by omega) (by omega)
    have hpre : ∀ b ∈ j.retained, b.scope.id ≠ id := by
      rintro b hb rfl
      have hlt := h.scopesBefore b.scope (List.mem_map.2 ⟨b, hb, rfl⟩)
      omega
    obtain ⟨exit, b, hscope, hkind, hb, hissued₃, hret₃, hrecords₃, hcur₃, hrun₃⟩ :=
      hl.issued.exit_current (by omega)
        (hl.retained.trans (by rw [hret₁, List.append_assoc, List.singleton_append])) hpre rfl
        (hl.current.trans hcur₁) hexit
    obtain ⟨bs', rs', hl'⟩ := ihrest hissued₃
      (by
        rw [hcur₃]
        intro c hc
        have hlt := hcur c hc
        omega)
      (by omega) (by omega)
    refine ⟨b :: (bs ++ bs'), rs ++ exit :: rs', ?_⟩
    exact {
      issued := by
        have hsum : n + (body.entered + rest.entered + 1) = n + 1 + body.entered + rest.entered := by
          omega
        have hsum' : m + (body.recorded + rest.recorded + 1) =
            m + body.recorded + 1 + rest.recorded := by omega
        simpa only [Work.entered, Work.recorded, hsum, hsum'] using hl'.issued
      retained := by rw [hl'.retained, hret₃]; simp
      records := by rw [hl'.records, hrecords₃, hl.records, hrecords₁]; simp
      current := by rw [hl'.current, hcur₃]
      runId := by rw [hl'.runId, hrun₃, hl.runId, hrun₁]
      realises := by
        have hbid : b.scope.id = id := by rw [hb]
        have hrealised : Realises (some b.scope.id) body (bs.map (·.scope)) rs := by
          rw [hbid, ← hcur₁]
          exact hl.realises
        have hrealised' : Realises j.currentScope rest (bs'.map (·.scope)) rs' := by
          rw [← show j₃.currentScope = j.currentScope from hcur₃]
          exact hl'.realises
        rw [List.map_cons, List.map_append]
        exact .scope (by rw [hb]) (by rw [hb]) (by rw [hb]; rfl) hrealised (by rw [hbid]; exact hscope)
          hkind hrealised' }

/-! ## The round trip -/

/-- The export of a journal that names no scope without holding it is loaded as
    its records, read back, and its scopes. -/
theorem Journal.Issued.load_export {serde : SerdeJson} (hs : serde.Lawful) {j : Journal} {n m : ℕ}
    (h : j.Issued n m) (hne : j.runId ≠ "") (hrecords : j.records ≠ [])
    (hmissing : missingOf (j.scopes.map (·.id)) (neededScopes j.scopes j.records) = [])
    {bytes : Bytes} (hb : bytes = unlines (j.recordsJsonl serde) ∨
      bytes = [newline].intercalate (j.recordsJsonl serde)) (source : Option String) :
    load serde [⟨source, bytes⟩] =
      .ok ⟨[⟨some j.runId, [], j.rereadRecords serde, j.scopes, []⟩], []⟩ := by
  have hclass := classify_rendered hs hne (snapshot_rendered serde h) hb
  rw [← neededScopes_reread serde] at hmissing
  have hps : snapshotParts j.scopes (j.rereadRecords serde) ≠ [] := by
    intro hnil
    have hreread := List.map_eq_nil_iff.1 (List.append_eq_nil_iff.1 hnil).2
    exact hrecords (List.map_eq_nil_iff.1 hreread)
  obtain ⟨b, hwf, hrun, -, hload⟩ := load_entries hs hclass hps
    (snapshot_agrees h (some j.runId) source)
  have hbelow : ParentsBelow b.run.scopes := by
    rw [hrun]
    exact h.parents
  have hnone : b.missing = [] := by rw [RunBuilder.missing, hrun, hmissing]
  have hcompleted : completed b.run =
      ⟨some j.runId, [], j.rereadRecords serde, j.scopes, []⟩ := by
    rw [completed, hrun]
    simp only [hmissing, RunBuilder.withPlaceholders, List.map_nil, List.append_nil]
    rfl
  rw [hload, finish_below hwf hbelow, hnone, hcompleted]
  rfl

/-- A program at the top names only its own scopes. -/
theorem Realises.missing {w : Work} {ss : List Scope} {rs : List Record}
    (h : Realises none w ss rs) : missingOf (ss.map (·.id)) (neededScopes ss rs) = [] := by
  rw [List.eq_nil_iff_forall_not_mem]
  intro id hid
  obtain ⟨hneeded, hno⟩ := mem_missingOf.1 hid
  simp only [neededScopes, List.mem_append, List.mem_filterMap] at hneeded
  rcases hneeded with ⟨x, hx, hparent⟩ | ⟨r, hr, hscope⟩
  · rcases h.parents x hx with hp | ⟨y, hy, hxy⟩
    · rw [hparent] at hp
      cases hp
    · obtain rfl := Option.some.inj (hparent.symm.trans hxy)
      exact hno (List.mem_map_of_mem hy)
  · rcases h.scopes r hr with hp | ⟨y, hy, hxy⟩
    · rw [hscope] at hp
      cases hp
    · obtain rfl := Option.some.inj (hscope.symm.trans hxy)
      exact hno (List.mem_map_of_mem hy)

/-- The forest of what a program leaves. -/
theorem Realises.forest {w : Work} {ss : List Scope} {rs : List Record}
    (h : Realises none w ss rs) (hnd : (ss.map (·.id)).Nodup) (hbelow : ParentsBelow ss) :
    (Eventline.forest ss).map (fun t => t.outline rs) = w.outline := by
  have htops : ss.filter (fun s => s.parent.isNone) = scopesUnder none ss := by
    refine List.filter_congr ?_
    intro s _
    cases s.parent <;> rfl
  rw [Eventline.forest, htops, List.map_map]
  refine h.outline (by simp) hnd (fun y _ => ⟨rfl, rfl⟩) hbelow le_rfl (fun s => {s.id}) ?_
  intro s _ q hq
  rw [Finset.mem_singleton.1 hq]
  exact UInt64.le_refl _

/-- What is loaded from the export of a journal on which a program has run. -/
structure SavedRun.Shows (run : SavedRun) (w : Work) : Prop where
  tree : ∃ trees, scopeTree run.scopes = .ok trees ∧ trees.map (fun t => t.outline run.records) =
    w.outline
  notes : (run.records.filter fun r => r.scope = none).map Record.note = w.notes
  finished : run.unfinishedScopes = []

/-- **A structured program is recovered.**  For every program that does anything
    and every clock, the export of the journal it ran on is loaded as one run
    without issues, and its scope tree has the scopes of the program, nested as
    they were, each with the events and the exit that the program made in it, in
    order; the doubles of the events are as the reader has them. -/
theorem call_tree_recovered {serde : SerdeJson} (hs : serde.Lawful) (process : UInt64 × UInt64)
    (next : UInt64) {w : Work} {j : Journal}
    (hruns : Runs (.new (newRunId process next)) w j) (hsome : w ≠ .done)
    (hn : w.entered ≤ 2 ^ 64) (hm : w.recorded ≤ 2 ^ 64) {bytes : Bytes}
    (hb : bytes = unlines (j.recordsJsonl serde) ∨
      bytes = [newline].intercalate (j.recordsJsonl serde)) (source : Option String) :
    ∃ run, load serde [⟨source, bytes⟩] = .ok ⟨[run], []⟩ ∧
      run.runId = some (newRunId process next) ∧ run.missingScopeMetadata = [] ∧
      run.Shows (w.reread serde) := by
  obtain ⟨bs, rs, hl⟩ := hruns.leaves (Journal.new_issued _) (by rintro c ⟨⟩)
    (by rwa [Nat.zero_add]) (by rwa [Nat.zero_add])
  have hscopes : j.scopes = bs.map (·.scope) := by
    rw [Journal.scopes_eq, hl.retained]
    rfl
  have hrecords : j.records = rs := hl.records
  have hrealises : Realises none w j.scopes j.records := by
    rw [hscopes, hrecords]
    exact hl.realises
  have hne : j.runId ≠ "" := by
    rw [hl.runId]
    exact newRunId_ne process next
  have hnonempty : j.records ≠ [] := by
    rw [hrecords]
    exact hl.realises.ne_nil hsome
  have hreread : Realises none (w.reread serde) j.scopes (j.rereadRecords serde) :=
    hrealises.mapDoubles serde.reread
  have hnd := hl.issued.scope_nodup
  refine ⟨_, hl.issued.load_export hs hne hnonempty hrealises.missing hb source, ?_, rfl, ?_⟩
  · rw [hl.runId]
    rfl
  · exact {
      tree := ⟨_, scopeTree_eq j.scopes, hreread.forest hnd hl.issued.parents⟩
      notes := hreread.notes (by simp) hnd
      finished := by
        rw [List.eq_nil_iff_forall_not_mem]
        intro s hs
        obtain ⟨hs, hopen, -⟩ := SavedRun.mem_unfinishedScopes.1 hs
        simpa [hopen] using hreread.closed s hs }

/-- A query inside of a request, which fails. -/
def request : Work :=
  .scope "request" .failure 10 90
    (.event .info "started" .new (.scope "query" .success 20 70 .done .done)) .done

theorem request_runs : ∃ j, Runs (.new (newRunId (1, 2) 0)) request j := by
  obtain ⟨j₁, id₁, h₁⟩ : ∃ j₁ id₁, (Journal.new (newRunId (1, 2) 0)).enterScope "request" 10 1000 =
      .ok (j₁, id₁) := ⟨_, _, rfl⟩
  obtain ⟨j₂, rid₂, h₂⟩ : ∃ j₂ rid₂, j₁.record .info "started" .new 1001 = .ok (j₂, rid₂) := by
    obtain ⟨rfl, rfl⟩ := Prod.mk.inj (Except.ok.inj h₁)
    exact ⟨_, _, rfl⟩
  obtain ⟨j₃, id₃, h₃⟩ : ∃ j₃ id₃, j₂.enterScope "query" 20 1002 = .ok (j₃, id₃) := by
    obtain ⟨rfl, rfl⟩ := Prod.mk.inj (Except.ok.inj h₁)
    obtain ⟨rfl, rfl⟩ := Prod.mk.inj (Except.ok.inj h₂)
    exact ⟨_, _, rfl⟩
  obtain ⟨j₄, rid₄, h₄⟩ : ∃ j₄ rid₄, j₃.exitScope id₃ .success 70 1003 1004 = .ok (j₄, rid₄) := by
    obtain ⟨rfl, rfl⟩ := Prod.mk.inj (Except.ok.inj h₁)
    obtain ⟨rfl, rfl⟩ := Prod.mk.inj (Except.ok.inj h₂)
    obtain ⟨rfl, rfl⟩ := Prod.mk.inj (Except.ok.inj h₃)
    exact ⟨_, _, rfl⟩
  obtain ⟨j₅, rid₅, h₅⟩ : ∃ j₅ rid₅, j₄.exitScope id₁ .failure 90 1005 1006 = .ok (j₅, rid₅) := by
    obtain ⟨rfl, rfl⟩ := Prod.mk.inj (Except.ok.inj h₁)
    obtain ⟨rfl, rfl⟩ := Prod.mk.inj (Except.ok.inj h₂)
    obtain ⟨rfl, rfl⟩ := Prod.mk.inj (Except.ok.inj h₃)
    obtain ⟨rfl, rfl⟩ := Prod.mk.inj (Except.ok.inj h₄)
    exact ⟨_, _, rfl⟩
  exact ⟨j₅, .scope h₁ (.event h₂ (.scope h₃ (.done _) h₄ (.done _))) h₅ (.done _)⟩

theorem call_tree_recovered_request : ∃ j run, Runs (.new (newRunId (1, 2) 0)) request j ∧
    load compactSerde [⟨none, unlines (j.recordsJsonl compactSerde)⟩] = .ok ⟨[run], []⟩ ∧
    ∃ trees, scopeTree run.scopes = .ok trees ∧ trees.map (fun t => t.outline run.records) =
      [.node (some "request") [.event .info "started" .new, .exit .failure 80]
        [.node (some "query") [.exit .success 50] []]] := by
  obtain ⟨j, hruns⟩ := request_runs
  obtain ⟨run, hload, -, -, hshows⟩ := call_tree_recovered compactSerde_lawful (1, 2) 0 hruns
    (by rintro ⟨⟩) (by decide) (by decide) (.inl rfl) none
  rw [Work.reread_of_exact compactSerde_exact] at hshows
  exact ⟨j, run, hruns, hload, hshows.tree⟩

end Eventline
