/-
  The scope forest as text (`render_scope_tree` of `replay.rs`).

  * `renderScopeTree` is the loop with its worklist of scopes to enter and to
    leave, `listingText` of `preorderAll` the recursive definition.
  * `renderScopeTree_eq`: on every list the loop ends and returns the listing of
    the forest that `scope_tree` builds.
  * `traversals_agree` states both loops against one definition (`tree`).
-/
import Eventline.Replay.Tree

namespace Eventline

open Checked

/-- A scope to be entered, or to be left. -/
structure Visit where
  scope : Scope
  depth : ℕ
  leaving : Bool

/-- The state of the loop; the top of the stack comes first. -/
structure Rendering where
  path : Finset ScopeId
  stack : List Visit
  out : String

/-- The line of a scope. -/
def treeLine (scope : Scope) (depth : ℕ) : String :=
  String.join (List.replicate depth "  ") ++ scope.name.getD "unnamed" ++ "#" ++
    toString scope.id.n ++ "\n"

section
variable (children : ScopeId → List Scope)

/-- One iteration of the loop. -/
def renderStep (r : Rendering) : Checked Rendering :=
  match r.stack with
  | [] => pure r
  | v :: stack =>
    pure (if v.leaving then { r with path := r.path.erase v.scope.id, stack }
      else if v.scope.id ∈ r.path then { r with stack }
      else
        { path := insert v.scope.id r.path
          stack := (children v.scope.id).map (fun child => ⟨child, v.depth + 1, false⟩) ++
            ⟨v.scope, v.depth, true⟩ :: stack
          out := r.out ++ treeLine v.scope v.depth })

end

def rendering (r : Rendering) : Bool := !r.stack.isEmpty

/-- Enough iterations for `n` scopes. -/
def renderFuel (n : ℕ) : ℕ := (n + 2) ^ (n + 2)

def renderScopeTree (scopes : List Scope) : Checked String := do
  let stack := (scopes.filter fun s => s.parent.isNone).map fun s => ⟨s, 0, false⟩
  let r ← whileM rendering (renderStep (indexChildren scopes)) (renderFuel scopes.length)
    ⟨∅, stack, ""⟩
  pure r.out

/-! ## The listing of a forest -/

mutual

/-- The scopes of a tree in preorder, with their depth. -/
def ScopeNode.preorder (depth : ℕ) : ScopeNode → List (Scope × ℕ)
  | .node s children => (s, depth) :: preorderAll (depth + 1) children

def preorderAll (depth : ℕ) : List ScopeNode → List (Scope × ℕ)
  | [] => []
  | t :: ts => t.preorder depth ++ preorderAll depth ts

end

/-- The lines of a listing. -/
def listingText : List (Scope × ℕ) → String
  | [] => ""
  | v :: vs => treeLine v.1 v.2 ++ listingText vs

@[simp] theorem listingText_append (vs ws : List (Scope × ℕ)) :
    listingText (vs ++ ws) = listingText vs ++ listingText ws := by
  induction vs with
  | nil => simp [listingText]
  | cons v vs ih => simp [listingText, ih, String.append_assoc]

/-! ## The loop returns the listing -/

section
variable {scopes : List Scope} {path : Finset ScopeId}

/-- **The visits of siblings**, given the runs for their subtrees. -/
theorem visits_steps (path : Finset ScopeId) (sub : Scope → ScopeNode) (bound depth : ℕ) (hbound : 0 < bound)
    (cs : List Scope)
    (hsub : ∀ c ∈ cs, c.id ∉ path → ∀ below out, ∃ m ≤ bound,
      Steps rendering (renderStep (indexChildren scopes)) m
        ⟨path, ⟨c, depth, false⟩ :: below, out⟩
        ⟨path, below, out ++ listingText ((sub c).preorder depth)⟩)
    (below : List Visit) (out : String) :
    ∃ m ≤ cs.length * bound, Steps rendering (renderStep (indexChildren scopes)) m
      ⟨path, cs.map (fun c => ⟨c, depth, false⟩) ++ below, out⟩
      ⟨path, below, out ++ listingText (preorderAll depth (subtrees sub path cs))⟩ := by
  induction cs generalizing out with
  | nil => exact ⟨0, by simp, by simpa [subtrees, preorderAll, listingText] using .refl _⟩
  | cons c cs ih =>
    obtain ⟨hc, hcs⟩ := List.forall_mem_cons.1 hsub
    by_cases hid : c.id ∈ path
    · obtain ⟨m, hm, hsteps⟩ := ih hcs out
      have hskip : renderStep (indexChildren scopes)
          ⟨path, (c :: cs).map (fun c => ⟨c, depth, false⟩) ++ below, out⟩ =
          .ok ⟨path, cs.map (fun c => ⟨c, depth, false⟩) ++ below, out⟩ := by
        simp [renderStep, hid]
      have hout : subtrees sub path (c :: cs) = subtrees sub path cs := by simp [subtrees, hid]
      refine ⟨m + 1, ?_, .head rfl hskip (hout ▸ hsteps)⟩
      rw [List.length_cons, Nat.add_mul]
      omega
    · obtain ⟨m₁, hm₁, h₁⟩ := hc hid (cs.map (fun c => ⟨c, depth, false⟩) ++ below) out
      obtain ⟨m₂, hm₂, h₂⟩ := ih hcs (out ++ listingText ((sub c).preorder depth))
      have hout : out ++ listingText (preorderAll depth (subtrees sub path (c :: cs))) =
          out ++ listingText ((sub c).preorder depth) ++
            listingText (preorderAll depth (subtrees sub path cs)) := by
        simp [subtrees, hid, preorderAll, String.append_assoc]
      refine ⟨m₁ + m₂, ?_, ?_⟩
      · rw [List.length_cons, Nat.add_mul]
        omega
      · rw [hout]
        exact h₁.trans h₂

/-- A scope is entered and left, and its children are visited in between. -/
theorem enter_steps {s : Scope} (hno : s.id ∉ path) (sub : Scope → ScopeNode) (bound depth : ℕ)
    (hbound : 0 < bound)
    (hsub : ∀ c ∈ childrenOf scopes s.id, c.id ∉ insert s.id path → ∀ below out, ∃ m ≤ bound,
      Steps rendering (renderStep (indexChildren scopes)) m
        ⟨insert s.id path, ⟨c, depth + 1, false⟩ :: below, out⟩
        ⟨insert s.id path, below, out ++ listingText ((sub c).preorder (depth + 1))⟩)
    (below : List Visit) (out : String) :
    ∃ m ≤ scopes.length * bound + 2, Steps rendering (renderStep (indexChildren scopes)) m
      ⟨path, ⟨s, depth, false⟩ :: below, out⟩
      ⟨path, below, out ++ listingText ((ScopeNode.node s
        (subtrees sub (insert s.id path) (childrenOf scopes s.id))).preorder depth)⟩ := by
  have henter : renderStep (indexChildren scopes) ⟨path, ⟨s, depth, false⟩ :: below, out⟩ =
      .ok ⟨insert s.id path, (childrenOf scopes s.id).map (fun c => ⟨c, depth + 1, false⟩) ++
        ⟨s, depth, true⟩ :: below, out ++ treeLine s depth⟩ := by
    simp [renderStep, hno, indexChildren_eq]
  have hleave : ∀ out', renderStep (indexChildren scopes)
      ⟨insert s.id path, ⟨s, depth, true⟩ :: below, out'⟩ = .ok ⟨path, below, out'⟩ := by
    intro out'
    simp [renderStep, Finset.erase_insert hno]
  obtain ⟨m, hm, hsteps⟩ := visits_steps _ sub bound (depth + 1) hbound _ hsub
    (⟨s, depth, true⟩ :: below) (out ++ treeLine s depth)
  have hlen : (childrenOf scopes s.id).length ≤ scopes.length := List.length_filter_le _ _
  have hmul := Nat.mul_le_mul_right bound hlen
  refine ⟨m + 1 + 1, by omega, .head rfl henter ?_⟩
  rw [ScopeNode.preorder, listingText, ← String.append_assoc]
  exact hsteps.trans (.one rfl (hleave _))

/-- **The visit of a scope** lists its tree, once the path has room for no more
    than `n` ids. -/
theorem visit_steps (n : ℕ) {s : Scope} (hno : s.id ∉ path)
    (henough : (offPath scopes (insert s.id path)).card ≤ n) (depth : ℕ) (below : List Visit)
    (out : String) :
    ∃ m ≤ (scopes.length + 2) ^ (n + 1), Steps rendering (renderStep (indexChildren scopes)) m
      ⟨path, ⟨s, depth, false⟩ :: below, out⟩
      ⟨path, below, out ++ listingText ((treeOf scopes n (insert s.id path) s).preorder depth)⟩ := by
  have hmem : ∀ id, ∀ c ∈ childrenOf scopes id, c ∈ scopes := fun _ c hc => (List.mem_filter.1 hc).1
  induction n generalizing path s depth below out with
  | zero =>
    -- every id is on the path, so no child is entered
    have hall : ∀ c ∈ childrenOf scopes s.id, c.id ∈ insert s.id path := by
      intro c hc
      by_contra hcno
      obtain ⟨m, hm, -⟩ := offPath_insert (hmem _ c hc) hcno henough
      omega
    obtain ⟨m, hm, hsteps⟩ := enter_steps hno (fun c => .node c []) 1 depth one_pos
      (fun c hc hcno => absurd (hall c hc) hcno) below out
    have hnone : (childrenOf scopes s.id).filter (fun c => c.id ∉ insert s.id path) = [] := by
      rw [List.filter_eq_nil_iff]
      intro c hc hcno
      exact of_decide_eq_true hcno (hall c hc)
    rw [subtrees, hnone] at hsteps
    exact ⟨m, by simpa using hm, hsteps⟩
  | succ n ih =>
    obtain ⟨m, hm, hsteps⟩ := enter_steps hno
      (fun c => treeOf scopes n (insert c.id (insert s.id path)) c) ((scopes.length + 2) ^ (n + 1))
      depth (by positivity) (fun c hc hcno below out => by
        obtain ⟨_, hn, hroom⟩ := offPath_insert (hmem _ c hc) hcno henough
        obtain rfl := Nat.succ.inj hn
        exact ih hcno hroom (depth + 1) below out) below out
    refine ⟨m, hm.trans ?_, hsteps⟩
    have hpow : (scopes.length + 2) ^ (n + 1 + 1) =
        scopes.length * (scopes.length + 2) ^ (n + 1) + 2 * (scopes.length + 2) ^ (n + 1) := by ring
    have hpos : 0 < (scopes.length + 2) ^ (n + 1) := by positivity
    omega

end

/-- **The loop returns the listing of the forest**, on every list of scopes. -/
theorem renderScopeTree_eq (scopes : List Scope) :
    renderScopeTree scopes = .ok (listingText (preorderAll 0 (forest scopes))) := by
  obtain ⟨m, hm, hsteps⟩ := visits_steps ∅
    (fun s => treeOf scopes scopes.length {s.id} s) ((scopes.length + 2) ^ (scopes.length + 1)) 0
    (by positivity) (scopes.filter fun s => s.parent.isNone)
    (fun s _ hno below out => by
      have hroom : (offPath scopes (insert s.id ∅)).card ≤ scopes.length := offPath_root scopes s.id
      exact visit_steps scopes.length hno hroom 0 below out) [] ""
  have hroots : subtrees (fun s => treeOf scopes scopes.length {s.id} s) ∅
      (scopes.filter fun s => s.parent.isNone) = forest scopes := by
    simp [subtrees, forest]
  have hlen : (scopes.filter fun s => s.parent.isNone).length ≤ scopes.length :=
    List.length_filter_le _ _
  have hfuel : m ≤ renderFuel scopes.length := by
    have hpow : renderFuel scopes.length = scopes.length * (scopes.length + 2) ^ (scopes.length + 1) +
        2 * (scopes.length + 2) ^ (scopes.length + 1) := by
      rw [renderFuel]
      ring
    have hmul := Nat.mul_le_mul_right ((scopes.length + 2) ^ (scopes.length + 1)) hlen
    omega
  rw [hroots, List.append_nil] at hsteps
  have hdone := hsteps.whileM_done rfl hfuel
  rw [renderScopeTree]
  simp only [hdone, ok_bind, String.empty_append, pure_eq_ok]

/-! ## Both loops -/

/-- The tree below a scope; the path has its ancestors and itself. -/
def tree (scopes : List Scope) (path : Finset ScopeId) (s : Scope) : ScopeNode :=
  treeOf scopes scopes.length path s

/-- Deep enough is as good as deeper. -/
theorem treeOf_deeper {scopes : List Scope} {n : ℕ} {path : Finset ScopeId} (s : Scope)
    (henough : (offPath scopes path).card ≤ n) :
    treeOf scopes (n + 1) path s = treeOf scopes n path s := by
  induction n generalizing path s with
  | zero =>
    have hnone : (childrenOf scopes s.id).filter (fun c => c.id ∉ path) = [] := by
      rw [List.filter_eq_nil_iff]
      intro c hc hno
      obtain ⟨m, hm, -⟩ := offPath_insert (List.mem_filter.1 hc).1 (by simpa using hno) henough
      omega
    rw [treeOf, treeOf, subtrees, hnone, List.map_nil]
  | succ n ih =>
    rw [treeOf, treeOf, subtrees, subtrees]
    congr 1
    refine List.map_congr_left fun c hc => ?_
    obtain ⟨hchild, hno⟩ := List.mem_filter.1 hc
    obtain ⟨_, hn, hroom⟩ := offPath_insert (List.mem_filter.1 hchild).1 (by simpa using hno) henough
    obtain rfl := Nat.succ.inj hn
    exact ih c hroom

/-- **The recursion of trees**: the children of a node are the scopes with its
    id as parent, in their order, but for those on the path. -/
theorem tree_eq (scopes : List Scope) (path : Finset ScopeId) (s : Scope) :
    tree scopes path s = .node s
      (((childrenOf scopes s.id).filter fun c => c.id ∉ path).map fun c =>
        tree scopes (insert c.id path) c) := by
  have hroom : (offPath scopes path).card ≤ scopes.length := by
    have hsub : offPath scopes path ⊆ (scopes.map (·.id)).toFinset := Finset.sdiff_subset
    simpa using (Finset.card_le_card hsub).trans (List.toFinset_card_le _)
  rw [tree, ← treeOf_deeper s hroom]
  rfl

/-- **Both traversals are the recursive definition**: they end on every list of
    scopes, `scope_tree` with the forest of its roots and `render_scope_tree`
    with the listing of this forest. -/
theorem traversals_agree (scopes : List Scope) :
    ∃ forest, forest = (scopes.filter fun s => s.parent.isNone).map (fun s => tree scopes {s.id} s) ∧
      (∀ path s, tree scopes path s = .node s
        (((childrenOf scopes s.id).filter fun c => c.id ∉ path).map fun c =>
          tree scopes (insert c.id path) c)) ∧
      scopeTree scopes = .ok forest ∧
      renderScopeTree scopes = .ok (listingText (preorderAll 0 forest)) :=
  ⟨_, rfl, tree_eq scopes, scopeTree_eq scopes, renderScopeTree_eq scopes⟩

example : renderScopeTree [⟨⟨1⟩, none, 0, some "root", some 1, .none⟩,
    ⟨⟨2⟩, some ⟨1⟩, 0, some "child", some 1, .none⟩] = .ok "root#1\n  child#2\n" := rfl

end Eventline
