import ExpressionArt.Proofs.Vocabulary.Values

/-!
# Evaluation of typed expressions

A program evaluates its expression at the coordinates seen from their common shape. Tensors of
coordinates give a tensor for a number and the three component planes for a vector; two plain
numbers give one number, or three.
-/

namespace ExpressionArt

namespace Program

variable {α : Type} [Scalar α] {e : Expr (Option Operation)} {x y : Tensor α} {s : Shape}

theorem evaluate_compile (shape : x.shape.broadcast? y.shape = some s) :
    e.compile.evaluate x y =
      (Meaning.operands α).value (.numbers s x.see) (.numbers s y.see) e := by
  rw [evaluate, shape]
  exact (Meaning.operands α).execute_eq_value _ _ .malformed e

theorem callGrid_number {f : α → α → α} (h : e.IsNumber f)
    (shape : x.shape.broadcast? y.shape = some s) :
    e.compile.callGrid x y = .ok (.single (.ofFn s fun p => f (x.see p) (y.see p))) := by
  rw [callGrid, evaluate_compile shape, h]
  simp [Operand.numbers, Operand.shaped?, hasComponents, shape]

/-- The components of a vector, each a plane of its own. -/
theorem callGrid_vector {v : α → α → Nat → α} (h : e.IsVector v)
    (shape : x.shape.broadcast? y.shape = some s) :
    e.compile.callGrid x y = .ok (.components ((List.range 3).map fun c =>
      .ofFn s fun p => v (x.see p) (y.see p) c)) := by
  rw [callGrid, evaluate_compile shape, h]
  simp [Operand.vectors, Operand.shaped?, hasComponents, shape, Tensor.unbind_ofComponents]

theorem itemOf_ofFn {β : Type} (f : Position → β) : itemOf (.ofFn [] f) = .ok (f []) := by
  simp [itemOf, Tensor.item?, Tensor.ofFn, Shape.positions]

theorem see_scalar (a : α) : (Tensor.scalar a).see [] = a :=
  Tensor.see_ofFn _ (by simp [Shape.positions])

theorem callPoint_number {f : α → α → α} (h : e.IsNumber f) (a b : α) :
    e.compile.callPoint a b = .ok (.single (f a b)) := by
  rw [callPoint, callGrid_number (s := []) h rfl]
  simp only [ok_bind, itemOf_ofFn, see_scalar]
  rfl

theorem callPoint_vector {v : α → α → Nat → α} (h : e.IsVector v) (a b : α) :
    e.compile.callPoint a b = .ok (.components ((List.range 3).map (v a b))) := by
  have items : ((List.range 3).map fun c => Tensor.ofFn [] fun p =>
      v ((Tensor.scalar a).see p) ((Tensor.scalar b).see p) c).mapM itemOf =
        .ok ((List.range 3).map (v a b)) := by
    rw [mapM_eq_ok, List.forall₂_map_left_iff, List.forall₂_map_right_iff, List.forall₂_same]
    intro c _
    rw [itemOf_ofFn, see_scalar, see_scalar]
  rw [callPoint, callGrid_vector (s := []) h rfl]
  simp only [ok_bind, items]
  rfl

end Program

end ExpressionArt
