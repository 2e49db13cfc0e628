/-
  A journal that has lost nothing, and what the contexts have done in it.

  * `Inside`: the scopes that are open in a journal are those that strands are in.
  * `Shares`: what a journal holds of each context is what its strand has done.
  * `Book`: both; `Book.event`, `Book.enter` and `Book.exit` are what one call adds.
-/
import Eventline.Lib.Shared
import Eventline.Runtime.Strands

namespace Eventline

open Checked Shared Slots

section
variable {strands : Context → Option Strand} {c d : Context} {x y : Strand}

/-- One strand goes on. -/
theorem update_strand (h : Function.update strands c (some y) d = some x) :
    d = c ∧ x = y ∨ d ≠ c ∧ strands d = some x := by
  by_cases hdc : d = c
  · subst hdc
    rw [Function.update_self] at h
    exact .inl ⟨rfl, (Option.some.inj h).symm⟩
  · rw [Function.update_of_ne hdc] at h
    exact .inr ⟨hdc, h⟩

theorem update_strand_none (h : Function.update strands c (some y) d = none) :
    d ≠ c ∧ strands d = none := by
  have hdc : d ≠ c := by
    rintro rfl
    rw [Function.update_self] at h
    cases h
  rw [Function.update_of_ne hdc] at h
  exact ⟨hdc, h⟩

end

/-! ## What is open -/

/-- What exit messages leave alone. -/
def BufferedScope.core (b : BufferedScope) :
    (ScopeId × Option ScopeId × Option String) × Option UInt64 × Option ScopeClock :=
  (b.scope.face, b.scope.exitedAt, b.clock)

theorem map_face_of_core {bs bs' : List BufferedScope}
    (h : bs'.map BufferedScope.core = bs.map BufferedScope.core) :
    (bs'.map (·.scope)).map Scope.face = (bs.map (·.scope)).map Scope.face := by
  have hfst := congrArg (List.map Prod.fst) h
  simpa [List.map_map, Function.comp_def, BufferedScope.core] using hfst

theorem mem_of_core {bs bs' : List BufferedScope} {b : BufferedScope}
    (h : bs'.map BufferedScope.core = bs.map BufferedScope.core) (hb : b ∈ bs) :
    ∃ b' ∈ bs', b'.scope.id = b.scope.id ∧ b'.scope.exitedAt = b.scope.exitedAt ∧
      b'.clock = b.clock := by
  obtain ⟨b', hb', hcore⟩ := List.mem_map.1 (h ▸ List.mem_map_of_mem hb)
  simp only [BufferedScope.core, Scope.face, Prod.mk.injEq] at hcore
  exact ⟨b', hb', hcore.1.1, hcore.2.1, hcore.2.2⟩

/-- The open scopes are those that strands are in, each with its clock. -/
structure Inside (owner : ScopeId → Context) (strands : Context → Option Strand)
    (bs : List BufferedScope) : Prop where
  entered : ∀ c x, strands c = some x → ∀ o ∈ x.opened, owner o.id = c ∧
    ∃ b ∈ bs, b.scope.id = o.id ∧ b.scope.exitedAt = none ∧ b.clock = some ⟨o.startedAt, none⟩
  distinct : ∀ c x, strands c = some x → (x.opened.map (·.id)).Nodup
  exits : ∀ b ∈ bs, b.scope.exitedAt = none →
    ∃ x, strands (owner b.scope.id) = some x ∧ b.scope.id ∈ x.opened.map (·.id)

namespace Inside

variable {owner owner' : ScopeId → Context} {strands : Context → Option Strand}
  {bs bs' pre post : List BufferedScope} {b b' : BufferedScope} {c : Context} {x x' : Strand}
  {o : OpenScope}

theorem keep (h : Inside owner strands bs)
    (hcore : bs'.map BufferedScope.core = bs.map BufferedScope.core) : Inside owner strands bs' := by
  constructor
  case entered =>
    intro c x hx o ho
    obtain ⟨howner, b, hb, hid, hopen, hclock⟩ := h.entered c x hx o ho
    obtain ⟨b', hb', hid', hopen', hclock'⟩ := mem_of_core hcore hb
    exact ⟨howner, b', hb', hid'.trans hid, hopen'.trans hopen, hclock'.trans hclock⟩
  case distinct => exact h.distinct
  case exits =>
    intro b' hb' hopen
    obtain ⟨b, hb, hid, hopen', -⟩ := mem_of_core hcore.symm hb'
    rw [← hid]
    exact h.exits b hb (hopen'.trans hopen)

/-- Only the owners of the scopes that are held matter. -/
theorem congr (h : Inside owner strands bs)
    (howner : ∀ b ∈ bs, owner' b.scope.id = owner b.scope.id) : Inside owner' strands bs := by
  constructor
  case entered =>
    intro c x hx o ho
    obtain ⟨hc, b, hb, hid, hb'⟩ := h.entered c x hx o ho
    refine ⟨?_, b, hb, hid, hb'⟩
    rw [← hid, howner b hb, hid, hc]
  case distinct => exact h.distinct
  case exits =>
    intro b hb hopen
    rw [howner b hb]
    exact h.exits b hb hopen

/-- A strand starts, or goes on in the scopes that it is in. -/
theorem goOn (h : Inside owner strands bs) (hx : ∀ x, strands c = some x → x'.opened = x.opened)
    (hstart : strands c = none → x'.opened = []) :
    Inside owner (Function.update strands c (some x')) bs := by
  constructor
  case entered =>
    intro d y hy o ho
    rcases update_strand hy with ⟨rfl, rfl⟩ | ⟨-, hy⟩
    · cases hc : strands d with
      | none =>
        rw [hstart hc] at ho
        cases ho
      | some x => exact h.entered d x hc o (hx x hc ▸ ho)
    · exact h.entered d y hy o ho
  case distinct =>
    intro d y hy
    rcases update_strand hy with ⟨rfl, rfl⟩ | ⟨-, hy⟩
    · cases hc : strands d with
      | none =>
        rw [hstart hc]
        exact .nil
      | some x =>
        rw [hx x hc]
        exact h.distinct d x hc
    · exact h.distinct d y hy
  case exits =>
    intro b hb hopen
    obtain ⟨y, hy, hid⟩ := h.exits b hb hopen
    by_cases hc : owner b.scope.id = c
    · rw [hc] at hy ⊢
      exact ⟨x', by rw [Function.update_self], by rwa [hx y hy]⟩
    · exact ⟨y, by rw [Function.update_of_ne hc, hy], hid⟩

/-- A strand enters a new scope. -/
theorem enter (h : Inside owner strands bs) (hx : strands c = some x)
    (hnew : ∀ b ∈ bs, b.scope.id ≠ o.id) (howner : owner o.id = c) (hid : b.scope.id = o.id)
    (hopen : b.scope.exitedAt = none) (hclock : b.clock = some ⟨o.startedAt, none⟩)
    (hx' : x'.opened = o :: x.opened) :
    Inside owner (Function.update strands c (some x')) (bs ++ [b]) := by
  have hold : ∀ d y, strands d = some y → ∀ o' ∈ y.opened, o'.id ≠ o.id ∧
      owner o'.id = d ∧ ∃ b' ∈ bs ++ [b], b'.scope.id = o'.id ∧
        b'.scope.exitedAt = none ∧ b'.clock = some ⟨o'.startedAt, none⟩ := by
    intro d y hy o' ho'
    obtain ⟨howner', b', hmem, hid', hb'⟩ := h.entered d y hy o' ho'
    exact ⟨hid' ▸ hnew b' hmem, howner', b', List.mem_append_left _ hmem, hid', hb'⟩
  constructor
  case entered =>
    intro d y hy o' ho'
    rcases update_strand hy with ⟨rfl, rfl⟩ | ⟨-, hy⟩
    · rw [hx', List.mem_cons] at ho'
      rcases ho' with rfl | ho'
      · exact ⟨howner, b, by simp, hid, hopen, hclock⟩
      · exact (hold d x hx o' ho').2
    · exact (hold d y hy o' ho').2
  case distinct =>
    intro d y hy
    rcases update_strand hy with ⟨rfl, rfl⟩ | ⟨-, hy⟩
    · rw [hx', List.map_cons, List.nodup_cons]
      refine ⟨?_, h.distinct d x hx⟩
      intro hmem
      obtain ⟨o', ho', heq⟩ := List.mem_map.1 hmem
      exact (hold d x hx o' ho').1 heq
    · exact h.distinct d y hy
  case exits =>
    intro b' hb' hopen'
    rcases List.mem_append.1 hb' with hb' | hb'
    · obtain ⟨y, hy, hid'⟩ := h.exits b' hb' hopen'
      by_cases hc : owner b'.scope.id = c
      · rw [hc, hx] at hy
        obtain rfl := Option.some.inj hy
        rw [hc]
        exact ⟨x', by rw [Function.update_self], by rw [hx']; exact List.mem_cons_of_mem _ hid'⟩
      · exact ⟨y, by rw [Function.update_of_ne hc, hy], hid'⟩
    · obtain rfl := List.mem_singleton.1 hb'
      rw [hid, howner]
      exact ⟨x', by rw [Function.update_self], by rw [hx']; exact .head _⟩

/-- A strand exits the scope that it is in. -/
theorem exit (h : Inside owner strands (pre ++ b :: post)) (hx : strands c = some x)
    (hopened : x.opened = o :: x'.opened) (hid : b.scope.id = o.id)
    (hother : ∀ b', b' ∈ pre ∨ b' ∈ post → b'.scope.id ≠ o.id) (hclosed : b'.scope.exitedAt.isSome) :
    Inside owner (Function.update strands c (some x')) (pre ++ b' :: post) := by
  have hdistinct := h.distinct c x hx
  rw [hopened, List.map_cons, List.nodup_cons] at hdistinct
  have howner := (h.entered c x hx o (hopened ▸ .head _)).1
  have hstill : ∀ d y, strands d = some y → ∀ o' ∈ y.opened, o'.id ≠ o.id → owner o'.id = d ∧
      ∃ a ∈ pre ++ b' :: post, a.scope.id = o'.id ∧ a.scope.exitedAt = none ∧
        a.clock = some ⟨o'.startedAt, none⟩ := by
    intro d y hy o' ho' hne
    obtain ⟨howner, a, ha, hid', ha'⟩ := h.entered d y hy o' ho'
    refine ⟨howner, a, ?_, hid', ha'⟩
    rw [List.mem_append, List.mem_cons] at ha ⊢
    rcases ha with ha | rfl | ha
    · exact .inl ha
    · exact absurd (hid'.symm.trans hid) hne
    · exact .inr (.inr ha)
  constructor
  case entered =>
    intro d y hy o' ho'
    rcases update_strand hy with ⟨rfl, rfl⟩ | ⟨hdc, hy⟩
    · refine hstill d x hx o' (hopened ▸ .tail _ ho') ?_
      intro heq
      exact hdistinct.1 (heq ▸ List.mem_map_of_mem ho')
    · refine hstill d y hy o' ho' ?_
      intro heq
      refine hdc ?_
      rw [← (h.entered d y hy o' ho').1, heq, howner]
  case distinct =>
    intro d y hy
    rcases update_strand hy with ⟨rfl, rfl⟩ | ⟨-, hy⟩
    · exact hdistinct.2
    · exact h.distinct d y hy
  case exits =>
    intro a ha hopen
    have hold : a ∈ pre ∨ a ∈ post := by
      rw [List.mem_append, List.mem_cons] at ha
      rcases ha with ha | rfl | ha
      · exact .inl ha
      · simp [hopen] at hclosed
      · exact .inr ha
    obtain ⟨y, hy, hid'⟩ := h.exits a
      (List.mem_append.2 (hold.imp_right (List.mem_cons_of_mem _))) hopen
    by_cases hc : owner a.scope.id = c
    · rw [hc, hx] at hy
      obtain rfl := Option.some.inj hy
      rw [hopened, List.map_cons, List.mem_cons] at hid'
      rw [hc]
      exact ⟨x', by rw [Function.update_self], hid'.resolve_left (hother a hold)⟩
    · exact ⟨y, by rw [Function.update_of_ne hc, hy], hid'⟩

end Inside

/-! ## What has been done -/

/-- The parts of the contexts are what their strands have done. -/
structure Shares (owner : ScopeId → Context) (author : RecordId → Context)
    (captured : Context → List ScopeId) (strands : Context → Option Strand) (ss : List Scope)
    (rs : List Record) : Prop where
  unstarted : ∀ c, strands c = none →
    part Scope.id owner c ss = [] ∧ part Record.id author c rs = []
  soFar : ∀ c x, strands c = some x →
    SoFar (captured c).getLast? x (part Scope.id owner c ss) (part Record.id author c rs)

namespace Shares

variable {owner owner' : ScopeId → Context} {author author' : RecordId → Context}
  {captured captured' : Context → List ScopeId} {strands : Context → Option Strand}
  {ss ss' : List Scope} {rs rs' : List Record}

/-- Only the faces of the scopes matter. -/
theorem keep (h : Shares owner author captured strands ss rs)
    (hfaces : ss'.map Scope.face = ss.map Scope.face) :
    Shares owner author captured strands ss' rs := by
  have hpart : ∀ c, (part Scope.id owner c ss').map Scope.face =
      (part Scope.id owner c ss).map Scope.face := by
    intro c
    exact map_part_congr (g := Prod.fst) (fun _ => rfl) hfaces
  constructor
  case unstarted =>
    intro c hc
    obtain ⟨hscopes, hrecords⟩ := h.unstarted c hc
    have hnil := hpart c
    rw [hscopes, List.map_nil, List.map_eq_nil_iff] at hnil
    exact ⟨hnil, hrecords⟩
  case soFar =>
    intro c x hx
    exact (h.soFar c x hx).congr (hpart c)

/-- Only the owners and authors of what is there matter. -/
theorem congr (h : Shares owner author captured strands ss rs)
    (howner : ∀ s ∈ ss, owner' s.id = owner s.id)
    (hauthor : ∀ r ∈ rs, author' r.id = author r.id) :
    Shares owner' author' captured strands ss rs := by
  constructor
  case unstarted =>
    intro c hc
    rw [part_congr howner, part_congr hauthor]
    exact h.unstarted c hc
  case soFar =>
    intro c x hx
    rw [part_congr howner, part_congr hauthor]
    exact h.soFar c x hx

/-- One context goes on. -/
theorem goOn {c : Context} {x : Strand} (h : Shares owner author captured strands ss rs)
    (hothers : ∀ d, d ≠ c → captured' d = captured d ∧
      part Scope.id owner d ss' = part Scope.id owner d ss ∧
      part Record.id author d rs' = part Record.id author d rs)
    (hx : SoFar (captured' c).getLast? x (part Scope.id owner c ss') (part Record.id author c rs')) :
    Shares owner author captured' (Function.update strands c (some x)) ss' rs' := by
  constructor
  case unstarted =>
    intro d hd
    obtain ⟨hdc, hd⟩ := update_strand_none hd
    obtain ⟨-, hscopes, hrecords⟩ := hothers d hdc
    rw [hscopes, hrecords]
    exact h.unstarted d hd
  case soFar =>
    intro d y hy
    rcases update_strand hy with ⟨rfl, rfl⟩ | ⟨hdc, hy⟩
    · exact hx
    · obtain ⟨hcaptured, hscopes, hrecords⟩ := hothers d hdc
      rw [hcaptured, hscopes, hrecords]
      exact h.soFar d y hy

end Shares

/-! ## The book of a journal -/

/-- The journal has lost nothing, and holds what the contexts have done: `owner`
    says whose its scopes are, and `author` whose its records are. -/
structure Book (owner : ScopeId → Context) (author : RecordId → Context)
    (captured : Context → List ScopeId) (strands : Context → Option Strand) (j : Journal)
    (n m : ℕ) : Prop where
  issued : j.Issued n m
  scopes : j.scopes.length = n
  records : j.records.length = m
  named : ∀ r ∈ j.records, ∀ q, r.scope = some q → q.n.toNat < n
  known : ∀ c, ∀ q ∈ captured c, q.n.toNat < n
  inside : Inside owner strands j.retained
  shares : Shares owner author captured strands j.scopes j.records

namespace Book

section
variable {owner : ScopeId → Context} {author : RecordId → Context}
  {captured : Context → List ScopeId} {strands : Context → Option Strand} {j j' : Journal} {n m : ℕ}
  (h : Book owner author captured strands j n m)
include h

/-- The scope that a strand works in has been entered. -/
theorem current_known {c : Context} {x : Strand} (hx : strands c = some x) {q : ScopeId}
    (hq : x.current (captured c).getLast? = some q) : q.n.toNat < n := by
  obtain ⟨program, rest, opened⟩ := x
  cases opened with
  | nil => exact h.known c q (List.mem_of_getLast? (by simpa [Strand.current] using hq))
  | cons o opened =>
    obtain rfl : o.id = q := by simpa [Strand.current] using hq
    obtain ⟨-, b, hb, hid, -⟩ := h.inside.entered c _ hx o (.head _)
    rw [← hid]
    exact h.issued.scopesBefore _ (List.mem_map_of_mem hb)

theorem scope_new {id : ScopeId} (hid : id.n.toNat = n) : ∀ s ∈ j.scopes, s.id ≠ id := by
  rintro s hs rfl
  have hlt := h.issued.scopesBefore s hs
  omega

/-- The journal after a change that leaves the records alone, and of each scope
    all but its messages. -/
theorem keep (hissued : j'.Issued n m) (hrecords : j'.records = j.records)
    (hretained : j'.retained.map BufferedScope.core = j.retained.map BufferedScope.core) :
    Book owner author captured strands j' n m where
  issued := hissued
  scopes := by
    have hlength := congrArg List.length hretained
    rw [List.length_map, List.length_map] at hlength
    rw [← h.scopes, Journal.scopes_eq, Journal.scopes_eq, List.length_map, List.length_map, hlength]
  records := by rw [hrecords, h.records]
  named := by rw [hrecords]; exact h.named
  known := h.known
  inside := h.inside.keep hretained
  shares := by
    rw [hrecords]
    exact h.shares.keep (map_face_of_core hretained)

/-- Only the owners of the scopes and the authors of the records that there have
    been matter. -/
theorem congr {owner' : ScopeId → Context} {author' : RecordId → Context}
    (howner : ∀ id, id.n.toNat < n → owner' id = owner id)
    (hauthor : ∀ id, id.n.toNat < m → author' id = author id) :
    Book owner' author' captured strands j n m where
  issued := h.issued
  scopes := h.scopes
  records := h.records
  named := h.named
  known := h.known
  inside := h.inside.congr fun _ hb =>
    howner _ (h.issued.scopesBefore _ (List.mem_map_of_mem hb))
  shares := h.shares.congr (fun s hs => howner _ (h.issued.scopesBefore s hs))
    fun r hr => hauthor _ (h.issued.recordsBefore r hr)

/-- A future is wrapped: its code starts in the scope that was current. -/
theorem wrap {f : FutureId} (hf : strands (.future f) = none) {stack : List ScopeId}
    (hstack : ∀ q ∈ stack, q.n.toNat < n) (program : Work) :
    Book owner author (Function.update captured (.future f) stack)
      (Function.update strands (.future f) (some (.start program))) j n m where
  issued := h.issued
  scopes := h.scopes
  records := h.records
  named := h.named
  known := (Function.forall_update_iff captured (p := fun _ l => ∀ q ∈ l, q.n.toNat < n)).2
    ⟨hstack, fun c _ => h.known c⟩
  inside := by
    refine h.inside.goOn ?_ fun _ => rfl
    intro x hx
    rw [hf] at hx
    cases hx
  shares := by
    obtain ⟨hscopes, hrecords⟩ := h.shares.unstarted _ hf
    refine h.shares.goOn (fun d hd => ⟨Function.update_of_ne hd _ _, rfl, rfl⟩) ?_
    rw [hscopes, hrecords]
    exact soFar_start _ program

/-- **An event** of a strand. -/
theorem event (hm : m < 2 ^ 64) {c : Context} {x : Strand} (hx : strands c = some x)
    {kind : EventKind} {message : String} {fields : Fields} {rest : Work}
    (hrest : x.rest = .event kind message fields rest) {ns : UInt64} {id : RecordId}
    {record : Record} {scope : Option Scope}
    (he : j.recordNoWriteInScope kind message fields (x.current (captured c).getLast?) ns =
      .ok (j', id, record, scope)) (hauthor : author id = c) :
    Book owner author captured
      (Function.update strands c (some { x with rest })) j' n (m + 1) := by
  obtain ⟨hissued, hid, -, hrecords⟩ := h.issued.record hm he
  obtain ⟨records, rfl, -, -, -, hrecord, -⟩ := Journal.recordNoWriteInScope_inv h.issued.wf he
  have hpart : ∀ d, part Record.id author d (j.records ++ [record]) =
      part Record.id author d j.records ++ if c = d then [record] else [] := by
    intro d
    rw [part_append, hrecord, hauthor]
  constructor
  case issued => exact hissued
  case scopes => exact h.scopes
  case records => rw [hrecords, List.length_append, h.records]; rfl
  case named =>
    intro r hr q hq
    rw [hrecords] at hr
    rcases List.mem_append.1 hr with hr | hr
    · exact h.named r hr q hq
    · obtain rfl := List.mem_singleton.1 hr
      rw [hrecord] at hq
      exact h.current_known hx hq
  case known => exact h.known
  case inside =>
    refine h.inside.goOn ?_ ?_
    · intro y hy
      obtain rfl := Option.some.inj (hx.symm.trans hy)
      rfl
    · intro hnone
      rw [hx] at hnone
      cases hnone
  case shares =>
    rw [hrecords]
    refine h.shares.goOn ?_ ?_
    · intro d hd
      rw [hpart, if_neg (Ne.symm hd), List.append_nil]
      exact ⟨rfl, rfl, rfl⟩
    · rw [hpart, if_pos rfl]
      exact (h.shares.soFar c x hx).event hrest (by rw [hrecord]) (by rw [hrecord])

/-- **A scope** that a strand enters. -/
theorem enter (hn : n < 2 ^ 64) {c : Context} {x : Strand} (hx : strands c = some x)
    {name : String} {outcome : Outcome} {startedAt finishedAt : Instant} {body rest : Work}
    (hrest : x.rest = .scope name outcome startedAt finishedAt body rest) {ms : UInt64}
    {id : ScopeId}
    (he : j.enterScopeWithParent name (x.current (captured c).getLast?) startedAt ms =
      .ok (j', id)) (howner : owner id = c) :
    Book owner author captured
      (Function.update strands c (some { x with
        rest := body, opened := ⟨id, outcome, startedAt, finishedAt, rest⟩ :: x.opened }))
      j' (n + 1) m := by
  obtain ⟨hissued, hid, hscopes, hrecords⟩ :=
    h.issued.enter hn (fun q hq => h.current_known hx hq) he
  obtain ⟨-, -, hret, -⟩ := Journal.pushScope_inv h.issued.wf he
  obtain ⟨s, hs, hsid⟩ : ∃ s : Scope, ⟨id, x.current (captured c).getLast?, ms, some name, none,
      .none⟩ = s ∧ s.id = id := ⟨_, rfl, rfl⟩
  have hpart : ∀ d, part Scope.id owner d (j.scopes ++ [s]) =
      part Scope.id owner d j.scopes ++ if c = d then [s] else [] := by
    intro d
    rw [part_append, hsid, howner]
  rw [hs] at hscopes
  constructor
  case issued => exact hissued
  case scopes => rw [hscopes, List.length_append, h.scopes]; rfl
  case records => rw [hrecords, h.records]
  case named =>
    rw [hrecords]
    intro r hr q hq
    exact Nat.lt_succ_of_lt (h.named r hr q hq)
  case known => exact fun d q hq => Nat.lt_succ_of_lt (h.known d q hq)
  case inside =>
    rw [hret]
    exact h.inside.enter (o := ⟨id, outcome, startedAt, finishedAt, rest⟩) hx
      (fun _ hb => h.scope_new hid _ (List.mem_map_of_mem hb)) howner rfl rfl rfl rfl
  case shares =>
    rw [hrecords, hscopes]
    refine h.shares.goOn ?_ ?_
    · intro d hd
      rw [hpart, if_neg (Ne.symm hd), List.append_nil]
      exact ⟨rfl, rfl, rfl⟩
    · rw [hpart, if_pos rfl]
      exact (h.shares.soFar c x hx).enter (o := ⟨id, outcome, startedAt, finishedAt, rest⟩) hrest hsid
        (by rw [← hs]) (by rw [← hs])

/-- **The exit** of the innermost scope of a strand. -/
theorem exit (hm : m < 2 ^ 64) {c : Context} {x : Strand} (hx : strands c = some x)
    {o : OpenScope} {opened : List OpenScope} (hrest : x.rest = .done)
    (hopened : x.opened = o :: opened) {ms ns : UInt64} {id : RecordId}
    {payload : Option (Record × Scope)}
    (he : j.exitScopeNoWrite o.id o.outcome o.finishedAt ms ns = .ok (j', id, payload))
    (hauthor : author id = c) :
    payload.isSome ∧ Book owner author captured
      (Function.update strands c (some { x with rest := o.rest, opened })) j' n (m + 1) := by
  obtain ⟨-, ⟨s, clock⟩, hb, hsid, hopen, hclock⟩ :=
    h.inside.entered c x hx o (hopened ▸ .head _)
  obtain rfl : clock = some ⟨o.startedAt, none⟩ := hclock
  obtain ⟨pre, post, hret⟩ := List.append_of_mem hb
  have hnd := h.issued.scope_nodup
  rw [Journal.scopes_eq, hret, List.map_append, List.map_append, List.map_cons, List.map_cons,
    List.nodup_middle, List.nodup_cons, List.mem_append] at hnd
  have hother : ∀ b, b ∈ pre ∨ b ∈ post → b.scope.id ≠ s.id := by
    intro b hb heq
    refine hnd.1 ?_
    rw [← heq]
    exact hb.imp (fun hb => List.mem_map_of_mem (List.mem_map_of_mem hb))
      fun hb => List.mem_map_of_mem (List.mem_map_of_mem hb)
  obtain hsid : s.id = o.id := hsid
  rw [← hsid] at he
  obtain ⟨record, b, rfl, rfl, hscope, hkind, hbs, hissued, hret', hrecords, -, -⟩ :=
    h.issued.exit_open hm hret (fun b hb => hother b (.inl hb)) hopen he
  rw [hsid] at hscope
  have hpart : ∀ d, part Record.id author d (j.records ++ [record]) =
      part Record.id author d j.records ++ if c = d then [record] else [] := by
    intro d
    rw [part_append, hauthor]
  have hfaces : j'.scopes.map Scope.face = j.scopes.map Scope.face := by
    rw [Journal.scopes_eq, Journal.scopes_eq, hret, hret']
    simp [hbs, Scope.face]
  refine ⟨rfl, ?_⟩
  constructor
  case issued => exact hissued
  case scopes =>
    have hlength := congrArg List.length hfaces
    rw [List.length_map, List.length_map] at hlength
    rw [hlength, h.scopes]
  case records => rw [hrecords, List.length_append, h.records]; rfl
  case named =>
    intro r hr q hq
    rw [hrecords] at hr
    rcases List.mem_append.1 hr with hr | hr
    · exact h.named r hr q hq
    · obtain rfl := List.mem_singleton.1 hr
      obtain rfl := Option.some.inj (hscope.symm.trans hq)
      rw [← hsid]
      exact h.issued.scopesBefore s (List.mem_map.2 ⟨_, hb, rfl⟩)
  case known => exact h.known
  case inside =>
    rw [hret']
    exact (hret ▸ h.inside).exit hx hopened hsid (by rwa [← hsid]) (by rw [hbs]; rfl)
  case shares =>
    rw [hrecords]
    refine (h.shares.keep hfaces).goOn ?_ ?_
    · intro d hd
      rw [hpart, if_neg (Ne.symm hd), List.append_nil]
      exact ⟨rfl, rfl, rfl⟩
    · rw [hpart, if_pos rfl]
      exact ((h.shares.keep hfaces).soFar c x hx).exit hrest hopened hscope hkind

end

end Book

end Eventline
