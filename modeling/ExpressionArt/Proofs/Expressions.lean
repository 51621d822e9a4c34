import ExpressionArt.Expr

/-!
# Properties of expressions

What may be said of an expression node by node, and how deep it is.
-/

namespace ExpressionArt

namespace Tree

variable {α : Type} {P Q : α → Prop}

/-- Every label satisfies a property. -/
inductive All (P : α → Prop) : Tree α → Prop where
  | node {a : α} {ts : List (Tree α)} : P a → (∀ t ∈ ts, All P t) → All P (.node a ts)

theorem all_node {a : α} {ts : List (Tree α)} :
    All P (.node a ts) ↔ P a ∧ ∀ t ∈ ts, All P t := by
  refine ⟨?_, fun h => .node h.1 h.2⟩
  rintro ⟨ha, hts⟩
  exact ⟨ha, hts⟩

theorem All.mono {t : Tree α} (h : t.All P) (imp : ∀ a, P a → Q a) : t.All Q := by
  induction h with
  | node ha _ ih => exact .node (imp _ ha) ih

theorem All.and {t : Tree α} (hp : t.All P) (hq : t.All Q) : t.All fun a => P a ∧ Q a := by
  induction hp with
  | node ha _ ih =>
    obtain ⟨hb, hts⟩ := all_node.1 hq
    exact .node ⟨ha, hb⟩ fun t ht => ih t ht (hts t ht)

theorem foldl_max_le {ns : List Nat} {n d : Nat} :
    ns.foldl max n ≤ d ↔ n ≤ d ∧ ∀ k ∈ ns, k ≤ d := by
  induction ns generalizing n with
  | nil => simp
  | cons k ns ih =>
    rw [List.foldl_cons, ih, Nat.max_le, List.forall_mem_cons, and_assoc]

/-- A node is no deeper than one more than its children are. -/
theorem depth_node_le {a : α} {ts : List (Tree α)} {d : Nat} :
    depth (.node a ts) ≤ d + 1 ↔ ∀ t ∈ ts, t.depth ≤ d := by
  have step : 1 + (ts.map depth).foldl max 0 ≤ d + 1 ↔ (ts.map depth).foldl max 0 ≤ d := by omega
  rw [depth_node, step, foldl_max_le]
  simp

end Tree

namespace Expr

variable {ω : Type}

/-- Every node is of one of some productions. -/
def Over (ps : List (Production ω)) (e : Expr ω) : Prop := e.All (·.production ∈ ps)

end Expr

end ExpressionArt
