import ExpressionArt.Scalar.Basic
import ExpressionArt.Tensor.Basic

/-!
# Operands

What operations work on. Values made of coordinates are tensors; the parameters of nodes are
plain numbers, and arithmetic among plain numbers stays plain. Next to a tensor a plain number
stands for itself at every position. Two rules tell the kinds apart: a plain number is divided
by a tensor by way of the reciprocals of its entries, and a plain number is never divided by a
plain zero.
-/

namespace ExpressionArt

/-- Why an expression has no value at some coordinates. -/
inductive EvalError where
  /-- An operation was given the wrong arguments. -/
  | arguments
  /-- A production without an operation was evaluated. -/
  | undefined
  /-- Shapes do not broadcast. -/
  | shapes
  /-- The program left another number of values than one. -/
  | malformed (left : Nat)
  /-- A tensor was to be one number and is not. -/
  | notOneNumber
  /-- A plain number was divided by a plain zero. -/
  | divisionByZero
  /-- A plain number stands where the shape of a tensor is asked for. -/
  | shapeless
deriving DecidableEq, Repr

def EvalError.message : EvalError → String
  | .arguments => "wrong arguments"
  | .undefined => "no operation"
  | .shapes => "shapes do not broadcast"
  | .malformed left => s!"Malformed program left {left} values on the stack"
  | .notOneNumber => "not one number"
  | .divisionByZero => "division by zero"
  | .shapeless => "a plain number has no shape"

inductive Operand (α : Type) where
  | plain (a : α)
  | tensor (t : Tensor α)

namespace Operand

variable {α : Type} [Scalar α]

/-- The operand as a tensor, which has no dimensions if it is a plain number. -/
def toTensor : Operand α → Tensor α
  | .plain a => .scalar a
  | .tensor t => t

/-- The tensor that an operation insists on. -/
def tensor? : Operand α → Except EvalError (Tensor α)
  | .plain _ => .error .arguments
  | .tensor t => .ok t

/-- The tensor of an operand whose shape is asked for. -/
def shaped? : Operand α → Except EvalError (Tensor α)
  | .plain _ => .error .shapeless
  | .tensor t => .ok t

/-- The one number that an operand stands for: a plain one, or a tensor without dimensions. -/
def number? : Operand α → Option α
  | .plain a => some a
  | .tensor t => if t.shape = [] then t.item? else none

/-- An entry-by-entry operation on tensors that broadcast. -/
def pointwise (f : α → α → α) (a b : Tensor α) : Except EvalError (Tensor α) :=
  match Tensor.zip? f a b with
  | some t => .ok t
  | none => .error .shapes

def combine (f : α → α → α) : Operand α → Operand α → Except EvalError (Operand α)
  | .plain a, .plain b => .ok (.plain (f a b))
  | .plain a, .tensor t => .ok (.tensor (t.map (f a ·)))
  | .tensor t, .plain b => .ok (.tensor (t.map (f · b)))
  | .tensor a, .tensor b => (pointwise f a b).map .tensor

def divide : Operand α → Operand α → Except EvalError (Operand α)
  | .plain a, .plain b => if Scalar.isZero b then .error .divisionByZero else .ok (.plain (a / b))
  | .plain a, .tensor t => .ok (.tensor (t.map fun b => Scalar.ofNat 1 / b * a))
  | a, b => combine (· / ·) a b

/-- The operand on the way from `a` to `b` at `t`. -/
def lerp (a b t : Operand α) : Except EvalError (Operand α) := do
  let way ← combine (· - ·) b a
  let part ← combine (· * ·) way t
  combine (· + ·) part a

end Operand

end ExpressionArt
