/-!
# Scalars

The arithmetic that expressions are evaluated in. Nothing is assumed of it: every law about
evaluation holds for any interpretation of these operations.
-/

namespace ExpressionArt

/-- Addition with a remainder whose quotient is cut towards zero. -/
class Remainder (α : Type) extends Add α where
  rem : α → α → α

/-- The modulo of `a` by `b`, made of two truncated remainders. -/
def floorMod {α : Type} [Remainder α] (a b : α) : α := Remainder.rem (Remainder.rem a b + b) b

/-- Exact numbers. -/
instance : Remainder Rat where
  rem a b := a - b * (if 0 ≤ a / b then (a / b).floor else (a / b).ceil)

class Arith (α : Type) extends Add α, Sub α, Mul α, Div α where
  mod : α → α → α

/-- The point at `t` on the way from `a` to `b`. -/
def lerp {α : Type} [Arith α] (a b t : α) : α := (b - a) * t + a

/-- What the vocabulary needs of numbers: arithmetic, two functions, a test for zero, the
parameters of nodes and the counts of pixels. -/
class Scalar (α : Type) extends Arith α, Inhabited α where
  sin : α → α
  sqrt : α → α
  isZero : α → Bool
  ofFloat : Float → α
  ofNat : Nat → α

end ExpressionArt
