import ExpressionArt.Proofs.Expressions
import Mathlib.Data.List.Basic

/-!
# Forests and their post-orders

The post-orders of some trees, one after the other, tell the trees: they are assembled again on a
stack of trees, where each label takes as many trees from the top as it has children.
-/

namespace ExpressionArt

namespace Tree

variable {α β : Type}

/-! ## Labels replaced -/

/-- The tree with each label replaced. -/
def relabel (f : α → β) : Tree α → Tree β := fold fun a ts => .node (f a) ts

theorem relabel_node (f : α → β) (a : α) (ts : List (Tree α)) :
    relabel f (.node a ts) = .node (f a) (ts.map (relabel f)) := fold_node ..

theorem postorder_relabel (f : α → β) (t : Tree α) :
    (t.relabel f).postorder = t.postorder.map fun (a, n) => (f a, n) := by
  induction t using Tree.induct with
  | node a ts ih =>
    rw [relabel_node, postorder_node, postorder_node, List.map_map, List.length_map,
      List.map_append, List.map_flatten, List.map_map]
    congr 2
    exact List.map_congr_left ih

theorem eq_of_map_eq {f : α → β} {xs ys : List α}
    (inj : ∀ x ∈ xs, ∀ y ∈ ys, f x = f y → x = y) (same : xs.map f = ys.map f) : xs = ys := by
  induction xs generalizing ys with
  | nil => exact (List.map_eq_nil_iff.1 same.symm).symm
  | cons x xs ih =>
    cases ys with
    | nil => cases same
    | cons y ys =>
      rw [List.map_cons, List.map_cons, List.cons.injEq] at same
      rw [inj x (by simp) y (by simp) same.1,
        ih (fun x hx y hy => inj x (by simp [hx]) y (by simp [hy])) same.2]

/-- Trees are told by their new labels if these tell the old ones apart. -/
theorem relabel_inj {f : α → β} {P : α → Prop} (inj : ∀ a b, P a → P b → f a = f b → a = b)
    {t u : Tree α} (ht : t.All P) (hu : u.All P) (same : t.relabel f = u.relabel f) : t = u := by
  induction ht generalizing u with
  | @node a ts ha _ ih =>
    obtain ⟨b, us⟩ := u
    obtain ⟨hb, hus⟩ := all_node.1 hu
    rw [relabel_node, relabel_node, Tree.node.injEq] at same
    rw [inj a b ha hb same.1, eq_of_map_eq (fun t ht u hu => ih t ht (hus u hu)) same.2]

/-! ## Trees assembled -/

/-- Assembles labels on a stack of trees, the last one on top. -/
def assemble : List (α × Nat) → List (Tree α) → Option (List (Tree α))
  | [], stack => some stack
  | (a, n) :: rest, stack =>
    if n ≤ stack.length then assemble rest (.node a (stack.take n).reverse :: stack.drop n)
    else none

theorem assemble_children (ts : List (Tree α)) (rest : List (α × Nat)) (stack : List (Tree α))
    (each : ∀ t ∈ ts, ∀ rest stack,
      assemble (t.postorder ++ rest) stack = assemble rest (t :: stack)) :
    assemble (ts.flatMap postorder ++ rest) stack = assemble rest (ts.reverse ++ stack) := by
  induction ts generalizing stack with
  | nil => rfl
  | cons t ts ih =>
    rw [List.flatMap_cons, List.append_assoc, each t (by simp),
      ih _ fun u hu => each u (by simp [hu])]
    simp

/-- The post-order of a tree puts it on the stack, before whatever follows. -/
theorem assemble_postorder (t : Tree α) (rest : List (α × Nat)) (stack : List (Tree α)) :
    assemble (t.postorder ++ rest) stack = assemble rest (t :: stack) := by
  induction t using Tree.induct generalizing rest stack with
  | node a ts ih =>
    rw [postorder_node, ← List.flatMap_def, List.append_assoc, assemble_children ts _ _ ih,
      List.singleton_append, assemble, if_pos (by simp), List.take_left' (by simp),
      List.drop_left' (by simp), List.reverse_reverse]

theorem assemble_forest (ts : List (Tree α)) :
    assemble (ts.flatMap postorder) [] = some ts.reverse := by
  have all := assemble_children ts [] [] fun t _ => assemble_postorder t
  rwa [List.append_nil, List.append_nil] at all

/-- Post-orders, one after the other, tell the trees and their order. -/
theorem forest_injective {ts us : List (Tree α)}
    (same : ts.flatMap postorder = us.flatMap postorder) : ts = us := by
  have assembled := assemble_forest ts
  rw [same, assemble_forest us] at assembled
  exact List.reverse_injective (Option.some.inj assembled).symm

end Tree

end ExpressionArt
