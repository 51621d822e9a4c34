import ExpressionArt.Vocabulary.Operand

/-!
# Operations

The numeric vocabulary of expressions, over tensors of any scalars. Numbers are tensors shaped
like the coordinates; vectors have one more dimension, of three. Every operation is pointwise
under broadcasting, so no result entry ever mixes two pixels.
-/

namespace ExpressionArt

inductive Operation where
  | x | y | constant
  | add | sub | mul | div | mod
  | sin | sqrt
  | lerp | vec3 | mix
deriving DecidableEq, Repr

namespace Operation

variable {α : Type} [Scalar α]

/-- The number of arguments of an operation. Constants take both coordinates and their value. -/
def argumentCount : Operation → Nat
  | .sin | .sqrt => 1
  | .x | .y | .add | .sub | .mul | .div | .mod => 2
  | .constant | .lerp | .vec3 | .mix => 3

/-- A function of each entry of a tensor. -/
def entrywise (f : α → α) (a : Operand α) : Except EvalError (Operand α) :=
  a.tensor?.map fun t => .tensor (t.map f)

/-- A tensor shaped like the first coordinate, with one number everywhere. -/
def fill (x value : Operand α) : Except EvalError (Operand α) := do
  match ← x.tensor?, value.number? with
  | t, some a => .ok (.tensor (Tensor.full t.shape a))
  | _, none => .error .arguments

/-- Three tensors as the components of vectors. -/
def stack (r g b : Operand α) : Except EvalError (Operand α) := do
  match Tensor.stack? [← r.tensor?, ← g.tensor?, ← b.tensor?] with
  | some t => .ok (.tensor t)
  | none => .error .shapes

def apply : Operation → List (Operand α) → Except EvalError (Operand α)
  | .x, [a, _] => .ok a
  | .y, [_, b] => .ok b
  | .constant, [a, _, v] => fill a v
  | .add, [a, b] => a.combine (· + ·) b
  | .sub, [a, b] => a.combine (· - ·) b
  | .mul, [a, b] => a.combine (· * ·) b
  | .div, [a, b] => a.divide b
  | .mod, [a, b] => do Operand.combine Arith.mod (.tensor (← a.tensor?)) b
  | .sin, [a] => entrywise Scalar.sin a
  | .sqrt, [a] => entrywise Scalar.sqrt a
  | .lerp, [a, b, t] => a.lerp b t
  | .vec3, [r, g, b] => stack r g b
  | .mix, [a, b, t] => do a.lerp b (.tensor (← t.shaped?).unsqueeze)
  | _, _ => .error .arguments

theorem apply_of_length_ne (op : Operation) (args : List (Operand α))
    (h : args.length ≠ op.argumentCount) : op.apply args = .error .arguments := by
  cases op <;> rcases args with _ | ⟨a, _ | ⟨b, _ | ⟨c, _ | ⟨d, args⟩⟩⟩⟩ <;>
    first | rfl | simp [argumentCount] at h

end Operation

end ExpressionArt
