/-
  The scope forest (`scope_tree` of `replay.rs`).

  * `scopeTree` is the loop with its stack of frames, `forest` the recursive
    definition.
  * `scopeTree_eq`: on every list the loop ends and returns the forest.
  * `forest_perm`: the forest of scopes that are all rooted lists each of them
    exactly once.
-/
import Eventline.Replay.Finish

namespace Eventline

open Checked Links

inductive ScopeNode where
  | node (scope : Scope) (children : List ScopeNode)

/-- `index_children`: the scopes by their parent. -/
def indexChildren (scopes : List Scope) : ScopeId → List Scope :=
  scopes.foldl (fun children scope =>
    match scope.parent with
    | some parent => Function.update children parent (children parent ++ [scope])
    | none => children) fun _ => []

structure Frame where
  scope : Scope
  nextChild : ℕ
  children : List ScopeNode

/-- The state of the loop; the last frame comes first. -/
structure Traversal where
  path : Finset ScopeId
  stack : List Frame
  roots : List ScopeNode

/-- A finished node goes to the frame below, or to the roots. -/
def attach (path : Finset ScopeId) (below : List Frame) (roots : List ScopeNode)
    (node : ScopeNode) : Traversal :=
  match below with
  | parent :: rest => ⟨path, { parent with children := parent.children ++ [node] } :: rest, roots⟩
  | [] => ⟨path, [], roots ++ [node]⟩

section
variable (children : ScopeId → List Scope)

/-- One iteration of the loop. -/
def visitStep (t : Traversal) : Checked Traversal :=
  match t.stack with
  | [] => pure t
  | frame :: below =>
    match (children frame.scope.id)[frame.nextChild]? with
    | some child =>
      let frame := { frame with nextChild := frame.nextChild + 1 }
      pure (if child.id ∈ t.path then { t with stack := frame :: below }
        else ⟨insert child.id t.path, ⟨child, 0, []⟩ :: frame :: below, t.roots⟩)
    | none =>
      pure (attach (t.path.erase frame.scope.id) below t.roots (.node frame.scope frame.children))

def visiting (t : Traversal) : Bool := !t.stack.isEmpty

def visitRoot (fuel : ℕ) (t : Traversal) (root : Scope) : Checked Traversal :=
  whileM visiting (visitStep children) fuel
    ⟨insert root.id t.path, [⟨root, 0, []⟩], t.roots⟩

end

/-- Enough iterations for one root among `n` scopes. -/
def visitFuel (n : ℕ) : ℕ := (n + 2) ^ (n + 1)

def scopeTree (scopes : List Scope) : Checked (List ScopeNode) := do
  let t ← (scopes.filter fun s => s.parent.isNone).foldlM
    (visitRoot (indexChildren scopes) (visitFuel scopes.length)) ⟨∅, [], []⟩
  pure t.roots

/-! ## The forest -/

def childrenOf (scopes : List Scope) (id : ScopeId) : List Scope :=
  scopes.filter fun s => s.parent = some id

/-- The trees of the children that are not on the path. -/
def subtrees (sub : Scope → ScopeNode) (path : Finset ScopeId) (cs : List Scope) : List ScopeNode :=
  (cs.filter fun c => c.id ∉ path).map sub

/-- The tree below a scope, `n` levels deep; the path has its ancestors and itself. -/
def treeOf (scopes : List Scope) : ℕ → Finset ScopeId → Scope → ScopeNode
  | 0, _, s => .node s []
  | n + 1, path, s =>
    .node s (subtrees (fun c => treeOf scopes n (insert c.id path) c) path (childrenOf scopes s.id))

/-- The forest of a list of scopes. -/
def forest (scopes : List Scope) : List ScopeNode :=
  (scopes.filter fun s => s.parent.isNone).map fun s => treeOf scopes scopes.length {s.id} s

theorem indexChildren_eq (scopes : List Scope) (id : ScopeId) :
    indexChildren scopes id = childrenOf scopes id := by
  have hfold : ∀ (l : List Scope) (acc : ScopeId → List Scope),
      l.foldl (fun children scope =>
        match scope.parent with
        | some parent => Function.update children parent (children parent ++ [scope])
        | none => children) acc id = acc id ++ childrenOf l id := by
    intro l
    induction l with
    | nil => simp [childrenOf]
    | cons s l ih =>
      intro acc
      rw [List.foldl_cons, ih, childrenOf, childrenOf, List.filter_cons]
      cases hp : s.parent with
      | none => simp
      | some p =>
        by_cases hid : p = id
        · subst hid
          simp
        · simp [hid, Function.update_of_ne (Ne.symm hid)]
  rw [indexChildren, hfold]
  rfl

/-! ## The loop returns the forest -/

/-- The ids of scopes that are not on the path. -/
def offPath (scopes : List Scope) (path : Finset ScopeId) : Finset ScopeId :=
  (scopes.map (·.id)).toFinset \ path

theorem offPath_insert {scopes : List Scope} {path : Finset ScopeId} {c : Scope} {n : ℕ}
    (hc : c ∈ scopes) (hno : c.id ∉ path) (h : (offPath scopes path).card ≤ n) :
    ∃ m, n = m + 1 ∧ (offPath scopes (insert c.id path)).card ≤ m := by
  have hmem : c.id ∈ offPath scopes path :=
    Finset.mem_sdiff.2 ⟨List.mem_toFinset.2 (List.mem_map.2 ⟨c, hc, rfl⟩), hno⟩
  have herase : offPath scopes (insert c.id path) = (offPath scopes path).erase c.id := by
    ext x
    simp only [offPath, Finset.mem_sdiff, Finset.mem_erase, Finset.mem_insert]
    tauto
  have hcard := Finset.card_erase_of_mem hmem
  have hpos := Finset.card_pos.2 ⟨_, hmem⟩
  refine ⟨n - 1, by omega, ?_⟩
  rw [herase]
  omega

section
variable {scopes : List Scope} {path : Finset ScopeId} (roots : List ScopeNode)

/-- **The rest of a frame**: its remaining children, one by one, given the runs
    for their subtrees. -/
theorem frame_steps {s : Scope} (sub : Scope → ScopeNode) (bound : ℕ)
    (hsub : ∀ c ∈ childrenOf scopes s.id, c.id ∉ path → ∀ below, ∃ m ≤ bound,
      Steps visiting (visitStep (indexChildren scopes)) m
        ⟨insert c.id path, ⟨c, 0, []⟩ :: below, roots⟩ (attach path below roots (sub c)))
    (cs : List Scope) (k : ℕ) (hk : (childrenOf scopes s.id).drop k = cs) (done : List ScopeNode)
    (below : List Frame) :
    ∃ m ≤ cs.length * (bound + 1) + 1, Steps visiting (visitStep (indexChildren scopes)) m
      ⟨path, ⟨s, k, done⟩ :: below, roots⟩
      (attach (path.erase s.id) below roots (.node s (done ++ subtrees sub path cs))) := by
  induction cs generalizing k done with
  | nil =>
    have hnone : (indexChildren scopes s.id)[k]? = none := by
      rw [indexChildren_eq, List.getElem?_eq_none]
      exact List.drop_eq_nil_iff.1 hk
    refine ⟨1, by simp, .one rfl ?_⟩
    simp [visitStep, hnone, subtrees]
  | cons c cs ih =>
    have hsome : (childrenOf scopes s.id)[k]? = some c := by
      rw [← List.head?_drop, hk]
      rfl
    have hk' : (childrenOf scopes s.id).drop (k + 1) = cs := by
      rw [← List.tail_drop, hk]
      rfl
    have hget : (indexChildren scopes s.id)[k]? = some c := by rw [indexChildren_eq, hsome]
    by_cases hc : c.id ∈ path
    · obtain ⟨m, hm, hsteps⟩ := ih (k + 1) hk' done
      have hskip : visitStep (indexChildren scopes) ⟨path, ⟨s, k, done⟩ :: below, roots⟩ =
          .ok ⟨path, ⟨s, k + 1, done⟩ :: below, roots⟩ := by
        simp [visitStep, hget, hc]
      have hout : subtrees sub path (c :: cs) = subtrees sub path cs := by simp [subtrees, hc]
      refine ⟨m + 1, ?_, .head rfl hskip (hout ▸ hsteps)⟩
      rw [List.length_cons, Nat.add_mul]
      omega
    · obtain ⟨m₁, hm₁, h₁⟩ := hsub c (List.mem_of_getElem? hsome) hc (⟨s, k + 1, done⟩ :: below)
      obtain ⟨m₂, hm₂, h₂⟩ := ih (k + 1) hk' (done ++ [sub c])
      have hpush : visitStep (indexChildren scopes) ⟨path, ⟨s, k, done⟩ :: below, roots⟩ =
          .ok ⟨insert c.id path, ⟨c, 0, []⟩ :: ⟨s, k + 1, done⟩ :: below, roots⟩ := by
        simp [visitStep, hget, hc]
      refine ⟨m₁ + m₂ + 1, ?_, .head rfl hpush ?_⟩
      · rw [List.length_cons, Nat.add_mul]
        omega
      · have hout : done ++ subtrees sub path (c :: cs) =
            done ++ [sub c] ++ subtrees sub path cs := by simp [subtrees, hc]
        rw [hout]
        exact h₁.trans h₂

/-- **The tree of a scope**, once the path has room for no more than `n` ids. -/
theorem treeOf_steps (n : ℕ) (henough : (offPath scopes path).card ≤ n) {s : Scope}
    (below : List Frame) :
    ∃ m, m + 1 ≤ (scopes.length + 2) ^ (n + 1) ∧
      Steps visiting (visitStep (indexChildren scopes)) m ⟨path, ⟨s, 0, []⟩ :: below, roots⟩
        (attach (path.erase s.id) below roots (treeOf scopes n path s)) := by
  have hmem : ∀ c ∈ childrenOf scopes s.id, c ∈ scopes := fun c hc => (List.mem_filter.1 hc).1
  have hlen : (childrenOf scopes s.id).length ≤ scopes.length := List.length_filter_le _ _
  induction n generalizing path s below with
  | zero =>
    -- every id is on the path, so no child is visited
    have hall : ∀ c ∈ childrenOf scopes s.id, c.id ∈ path := by
      intro c hc
      by_contra hno
      obtain ⟨m, hm, -⟩ := offPath_insert (hmem c hc) hno henough
      omega
    obtain ⟨m, hm, hsteps⟩ := frame_steps roots (fun c => .node c []) 0
      (fun c hc hno => absurd (hall c hc) hno) _ 0 rfl [] below
    have hnone : subtrees (fun c => .node c []) path ((childrenOf scopes s.id).drop 0) = [] := by
      simpa [subtrees] using hall
    rw [hnone] at hsteps
    refine ⟨m, ?_, hsteps⟩
    simp only [List.drop_zero, Nat.zero_add, pow_one, Nat.mul_one] at hm ⊢
    omega
  | succ n ih =>
    obtain ⟨m, hm, hsteps⟩ := frame_steps roots (fun c => treeOf scopes n (insert c.id path) c)
      ((scopes.length + 2) ^ (n + 1) - 1)
      (fun c hc hno below => by
        obtain ⟨_, hn, hroom⟩ := offPath_insert (hmem c hc) hno henough
        obtain rfl := Nat.succ.inj hn
        obtain ⟨m, hm, hsteps⟩ := ih hroom (s := c) below (fun c hc => (List.mem_filter.1 hc).1)
          (List.length_filter_le _ _)
        rw [Finset.erase_insert hno] at hsteps
        exact ⟨m, by omega, hsteps⟩)
      _ 0 rfl [] below
    refine ⟨m, ?_, hsteps⟩
    have hpos : 0 < (scopes.length + 2) ^ (n + 1) := by positivity
    have hpow : (scopes.length + 2) ^ (n + 1 + 1) =
        scopes.length * (scopes.length + 2) ^ (n + 1) + 2 * (scopes.length + 2) ^ (n + 1) := by ring
    have hmul := Nat.mul_le_mul_right ((scopes.length + 2) ^ (n + 1)) hlen
    rw [List.drop_zero, Nat.sub_add_cancel hpos] at hm
    omega

end

theorem offPath_root (scopes : List Scope) (id : ScopeId) :
    (offPath scopes {id}).card ≤ scopes.length := by
  have hsub : offPath scopes {id} ⊆ (scopes.map (·.id)).toFinset := Finset.sdiff_subset
  have hle := (Finset.card_le_card hsub).trans (List.toFinset_card_le _)
  simpa using hle

theorem visitRoot_ok (scopes : List Scope) (root : Scope)
    (roots : List ScopeNode) :
    visitRoot (indexChildren scopes) (visitFuel scopes.length) ⟨∅, [], roots⟩ root =
      .ok ⟨∅, [], roots ++ [treeOf scopes scopes.length {root.id} root]⟩ := by
  obtain ⟨m, hm, hsteps⟩ := treeOf_steps roots scopes.length
    (offPath_root scopes root.id) (s := root) []
  have hdone := hsteps.whileM_done rfl
    (show m ≤ visitFuel scopes.length by rw [visitFuel]; omega)
  rw [visitRoot]
  simpa [attach] using hdone

/-- **The loop returns the forest**, on every list of scopes. -/
theorem scopeTree_eq (scopes : List Scope) : scopeTree scopes = .ok (forest scopes) := by
  have hfold : ∀ (starts : List Scope) (roots : List ScopeNode), (∀ s ∈ starts, s ∈ scopes) →
      starts.foldlM (visitRoot (indexChildren scopes) (visitFuel scopes.length)) ⟨∅, [], roots⟩ =
        .ok ⟨∅, [], roots ++ starts.map fun s => treeOf scopes scopes.length {s.id} s⟩ := by
    intro starts
    induction starts with
    | nil => intro roots _; simp
    | cons s starts ih =>
      intro roots hmem
      rw [List.foldlM_cons, visitRoot_ok scopes s, ok_bind,
        ih _ fun x hx => hmem x (List.mem_cons_of_mem _ hx)]
      simp
  rw [scopeTree, hfold _ [] fun s hs => (List.mem_filter.1 hs).1]
  simp [forest]

/-! ## What the forest lists -/

mutual

/-- The scopes of a tree. -/
def ScopeNode.listed : ScopeNode → List Scope
  | .node s children => s :: listedAll children

def listedAll : List ScopeNode → List Scope
  | [] => []
  | t :: ts => t.listed ++ listedAll ts

end

theorem listedAll_eq (ts : List ScopeNode) : listedAll ts = ts.flatMap ScopeNode.listed := by
  induction ts with
  | nil => rfl
  | cons t ts ih => rw [listedAll, ih, List.flatMap_cons]

theorem parentOf_eq {scopes : List Scope} (hnd : (scopes.map (·.id)).Nodup) {s : Scope}
    (hs : s ∈ scopes) : parentOf scopes s.id = s.parent := by
  obtain ⟨pre, post, rfl⟩ := List.append_of_mem hs
  exact parentOf_middle hnd

theorem eq_of_id {scopes : List Scope} (hnd : (scopes.map (·.id)).Nodup) {s t : Scope}
    (hs : s ∈ scopes) (ht : t ∈ scopes) (h : s.id = t.id) : s = t :=
  List.inj_on_of_nodup_map hnd hs ht h

section
variable {scopes : List Scope} (hnd : (scopes.map (·.id)).Nodup)
  (hroot : ∀ s ∈ scopes, Rooted (parentOf scopes) s.id)
include hnd

/-- What a tree lists are scopes below its root. -/
theorem listed_below {n : ℕ} {path : Finset ScopeId} {s x : Scope} (hs : s ∈ scopes)
    (hx : x ∈ (treeOf scopes n path s).listed) :
    x ∈ scopes ∧ Below (parentOf scopes) x.id s.id := by
  induction n generalizing path s with
  | zero =>
    obtain rfl : x = s := by simpa [treeOf, ScopeNode.listed, listedAll] using hx
    exact ⟨hs, .refl _⟩
  | succ n ih =>
    rw [treeOf, ScopeNode.listed, List.mem_cons, listedAll_eq, subtrees, List.mem_flatMap] at hx
    rcases hx with rfl | ⟨t, ht, hx⟩
    · exact ⟨hs, .refl _⟩
    · obtain ⟨c, hc, rfl⟩ := List.mem_map.1 ht
      obtain ⟨hcs, hcp⟩ := List.mem_filter.1 (List.mem_filter.1 hc).1
      obtain ⟨hxs, hbelow⟩ := ih hcs hx
      refine ⟨hxs, hbelow.trans (.of_up ?_)⟩
      rw [parentOf_eq hnd hcs]
      simpa using hcp

include hroot

/-- A tree lists no scope twice. -/
theorem listed_nodup {n : ℕ} {path : Finset ScopeId} {s : Scope} (hs : s ∈ scopes) :
    (treeOf scopes n path s).listed.Nodup := by
  induction n generalizing path s with
  | zero => simp [treeOf, ScopeNode.listed, listedAll]
  | succ n ih =>
    have hchild : ∀ c ∈ (childrenOf scopes s.id).filter (fun c => c.id ∉ path),
        c ∈ scopes ∧ parentOf scopes c.id = some s.id := by
      intro c hc
      obtain ⟨hcs, hcp⟩ := List.mem_filter.1 (List.mem_filter.1 hc).1
      rw [parentOf_eq hnd hcs]
      exact ⟨hcs, by simpa using hcp⟩
    rw [treeOf, ScopeNode.listed, listedAll_eq, subtrees, List.nodup_cons]
    refine ⟨?_, List.nodup_flatMap.2 ⟨?_, ?_⟩⟩
    · intro hm
      obtain ⟨t, ht, hst⟩ := List.mem_flatMap.1 hm
      obtain ⟨c, hc, rfl⟩ := List.mem_map.1 ht
      obtain ⟨hcs, hcp⟩ := hchild c hc
      exact (hroot c hcs).not_below hcp (listed_below hnd hcs hst).2
    · intro t ht
      obtain ⟨c, hc, rfl⟩ := List.mem_map.1 ht
      exact ih (hchild c hc).1
    · rw [List.pairwise_map]
      have hcnd : ((childrenOf scopes s.id).filter fun c => c.id ∉ path).Nodup :=
        ((List.Nodup.of_map _ hnd).filter _).filter _
      refine hcnd.imp_of_mem ?_
      intro a b ha hb hab x hxa hxb
      obtain ⟨has, hap⟩ := hchild a ha
      obtain ⟨hbs, hbp⟩ := hchild b hb
      refine hab (eq_of_id hnd has hbs ?_)
      exact Below.not_siblings hap hbp (hroot a has) (hroot b hbs)
        (listed_below hnd has hxa).2 (listed_below hnd hbs hxb).2

/-- The path of a tree in the forest: the ids above its root. -/
def PathAbove (scopes : List Scope) (path : Finset ScopeId) (s : Scope) : Prop :=
  ∀ p ∈ path, Below (parentOf scopes) s.id p

/-- **A child is listed with its parent**: it is on no path to its parent. -/
theorem child_listed {n : ℕ} {path : Finset ScopeId} {s p c : Scope} (hs : s ∈ scopes)
    (henough : (offPath scopes path).card ≤ n) (hpath : PathAbove scopes path s)
    (hp : p ∈ (treeOf scopes n path s).listed) (hc : c ∈ scopes) (hcp : c.parent = some p.id) :
    c ∈ (treeOf scopes n path s).listed := by
  have hup : parentOf scopes c.id = some p.id := by rw [parentOf_eq hnd hc, hcp]
  have hno : c.id ∉ path := by
    intro hm
    exact (hroot c hc).not_below hup ((listed_below hnd hs hp).2.trans (hpath _ hm))
  induction n generalizing path s with
  | zero =>
    obtain ⟨m, hm, -⟩ := offPath_insert hc hno henough
    omega
  | succ n ih =>
    rw [treeOf, ScopeNode.listed, List.mem_cons, listedAll_eq, subtrees] at hp ⊢
    refine .inr (List.mem_flatMap.2 ?_)
    rcases hp with rfl | hp
    · refine ⟨_, List.mem_map.2 ⟨c, ?_, rfl⟩, ?_⟩
      · exact List.mem_filter.2 ⟨List.mem_filter.2 ⟨hc, by simpa using hcp⟩, by simpa using hno⟩
      · cases n <;> simp [treeOf, ScopeNode.listed]
    · obtain ⟨t, ht, hp⟩ := List.mem_flatMap.1 hp
      obtain ⟨c', hc', rfl⟩ := List.mem_map.1 ht
      obtain ⟨hc's, hc'p⟩ := List.mem_filter.1 (List.mem_filter.1 hc').1
      have hc'no : c'.id ∉ path := by simpa using (List.mem_filter.1 hc').2
      have hc'up : parentOf scopes c'.id = some s.id := by
        rw [parentOf_eq hnd hc's]
        simpa using hc'p
      obtain ⟨m, hm, hroom⟩ := offPath_insert hc's hc'no henough
      obtain rfl := Nat.succ.inj hm
      have habove : PathAbove scopes (insert c'.id path) c' := by
        intro q hq
        rcases Finset.mem_insert.1 hq with rfl | hq
        · exact .refl _
        · exact (Below.of_up hc'up).trans (hpath q hq)
      refine ⟨_, ht, ih hc's hroom habove hp ?_⟩
      intro hm
      exact (hroot c hc).not_below hup ((listed_below hnd hc's hp).2.trans (habove _ hm))

/-- Every scope is listed. -/
theorem mem_forest (hpar : ParentsWithin scopes (scopes.map (·.id))) {x : Scope} (hx : x ∈ scopes) :
    x ∈ listedAll (forest scopes) := by
  have hall : ∀ s ∈ scopes, s.id = x.id → s ∈ listedAll (forest scopes) := by
    refine (hroot x hx).induct (P := fun id => ∀ s ∈ scopes, s.id = id →
      s ∈ listedAll (forest scopes)) ?_ ?_
    · rintro id hnone s hs rfl
      rw [parentOf_eq hnd hs] at hnone
      rw [listedAll_eq, forest]
      refine List.mem_flatMap.2 ⟨_, List.mem_map.2 ⟨s, ?_, rfl⟩, ?_⟩
      · exact List.mem_filter.2 ⟨hs, by simp [hnone]⟩
      · cases scopes.length <;> simp [treeOf, ScopeNode.listed]
    · rintro id pid hup - ih s hs rfl
      rw [parentOf_eq hnd hs] at hup
      obtain ⟨p, hp, rfl⟩ := List.mem_map.1 (hpar s hs pid hup)
      have hlisted := ih p hp rfl
      rw [listedAll_eq, forest, List.mem_flatMap] at hlisted ⊢
      obtain ⟨t, ht, hpt⟩ := hlisted
      obtain ⟨r, hr, rfl⟩ := List.mem_map.1 ht
      refine ⟨_, ht, child_listed hnd hroot (List.mem_filter.1 hr).1 (offPath_root scopes r.id) ?_
        hpt hs hup⟩
      intro q hq
      rw [Finset.mem_singleton.1 hq]
      exact .refl _
  exact hall x hx rfl

/-- **The forest lists every scope exactly once.** -/
theorem forest_perm (hpar : ParentsWithin scopes (scopes.map (·.id))) :
    (listedAll (forest scopes)).Perm scopes := by
  have hroots : ∀ r ∈ scopes.filter (fun s => s.parent.isNone),
      r ∈ scopes ∧ parentOf scopes r.id = none := by
    intro r hr
    obtain ⟨hrs, hrp⟩ := List.mem_filter.1 hr
    rw [parentOf_eq hnd hrs]
    exact ⟨hrs, by simpa using hrp⟩
  have hnodup : (listedAll (forest scopes)).Nodup := by
    rw [listedAll_eq, forest, List.nodup_flatMap]
    constructor
    · intro t ht
      obtain ⟨r, hr, rfl⟩ := List.mem_map.1 ht
      exact listed_nodup hnd hroot (hroots r hr).1
    · rw [List.pairwise_map]
      refine ((List.Nodup.of_map _ hnd).filter _).imp_of_mem ?_
      intro a b ha hb hab x hxa hxb
      obtain ⟨has, hap⟩ := hroots a ha
      obtain ⟨hbs, hbp⟩ := hroots b hb
      refine hab (eq_of_id hnd has hbs ?_)
      exact Below.not_roots hap hbp (listed_below hnd has hxa).2 (listed_below hnd hbs hxb).2
  refine (List.perm_ext_iff_of_nodup hnodup (List.Nodup.of_map _ hnd)).2 ?_
  intro x
  constructor
  · intro hx
    rw [listedAll_eq, forest, List.mem_flatMap] at hx
    obtain ⟨t, ht, hxt⟩ := hx
    obtain ⟨r, hr, rfl⟩ := List.mem_map.1 ht
    exact (listed_below hnd (hroots r hr).1 hxt).1
  · exact mem_forest hnd hroot hpar

end

end Eventline
