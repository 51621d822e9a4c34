import ExpressionArt.Proofs.Machine.Compilation
import ExpressionArt.Proofs.Vocabulary.Operations

/-!
# Readings

What an expression comes to at two single numbers, with no tensor in sight: each operation is
arithmetic on one number or on the three components of a vector, and a tree is read by recursion.
Each operation of the vocabulary does at every position of tensors what it does to readings.
-/

namespace ExpressionArt

variable {α : Type} [Scalar α]

/-- One number, or one vector. -/
inductive Reading (α : Type) where
  | number (a : α)
  | vector (r g b : α)

namespace Operation

/-- An operation on readings. A mixture goes from the first vector to the second, component by
component. -/
def read : Operation → List (Reading α) → Except EvalError (Reading α)
  | .x, [a, _] => .ok a
  | .y, [_, b] => .ok b
  | .constant, [_, _, v] => .ok v
  | .add, [.number a, .number b] => .ok (.number (a + b))
  | .sub, [.number a, .number b] => .ok (.number (a - b))
  | .mul, [.number a, .number b] => .ok (.number (a * b))
  | .div, [.number a, .number b] => .ok (.number (a / b))
  | .mod, [.number a, .number b] => .ok (.number (Arith.mod a b))
  | .sin, [.number a] => .ok (.number (Scalar.sin a))
  | .sqrt, [.number a] => .ok (.number (Scalar.sqrt a))
  | .vec3, [.number r, .number g, .number b] => .ok (.vector r g b)
  | .mix, [.vector r g b, .vector r' g' b', .number t] =>
    .ok (.vector ((r' - r) * t + r) ((g' - g) * t + g) ((b' - b) * t + b))
  | _, _ => .error .arguments

end Operation

/-- Operations over readings. -/
def Meaning.readings (α : Type) [Scalar α] :
    Meaning (Option Operation) (Reading α) EvalError where
  apply op args :=
    match op with
    | some op => op.read args
    | none => .error .undefined
  lift p := .number (Scalar.ofFloat p)

/-- The reading of an expression at two numbers, by recursion on its tree. -/
def Expr.reading (e : Expr (Option Operation)) (a b : α) : Except EvalError (Reading α) :=
  (Meaning.readings α).value (.number a) (.number b) e

namespace Operation

open Operand

/-- Arithmetic on two numbers is done at each position. -/
theorem apply_binary {op : Operation} (h : op ∈ [add, sub, mul, div, mod]) :
    ∃ k : α → α → α,
      (∀ s f g, op.apply [numbers s f, numbers s g] = .ok (numbers s fun p => k (f p) (g p))) ∧
      ∀ a b, op.read [.number a, .number b] = .ok (.number (k a b)) := by
  simp only [List.mem_cons, List.not_mem_nil, or_false] at h
  obtain rfl | rfl | rfl | rfl | rfl := h
  · exact ⟨(· + ·), combine_numbers _, fun a b => rfl⟩
  · exact ⟨(· - ·), combine_numbers _, fun a b => rfl⟩
  · exact ⟨(· * ·), combine_numbers _, fun a b => rfl⟩
  · exact ⟨(· / ·), divide_numbers, fun a b => rfl⟩
  · exact ⟨Arith.mod, combine_numbers _, fun a b => rfl⟩

/-- So is a function of one number. -/
theorem apply_unary {op : Operation} (h : op ∈ [sin, sqrt]) :
    ∃ k : α → α,
      (∀ s f, op.apply [numbers s f] = .ok (numbers s fun p => k (f p))) ∧
      ∀ a, op.read [.number a] = .ok (.number (k a)) := by
  simp only [List.mem_cons, List.not_mem_nil, or_false] at h
  obtain rfl | rfl := h
  · exact ⟨Scalar.sin, fun s f => by simp [apply, entrywise, numbers, tensor?, Except.map],
      fun a => rfl⟩
  · exact ⟨Scalar.sqrt, fun s f => by simp [apply, entrywise, numbers, tensor?, Except.map],
      fun a => rfl⟩

end Operation

end ExpressionArt
