import ExpressionArt.Number.Nearest
import ExpressionArt.Scalar.Basic

/-!
# Doubles as scalars

The arithmetic that pictures are computed in. The modulo is computed on the parts of doubles,
where the remainder is exact; all else is the machine's.
-/

namespace ExpressionArt

instance : Remainder Binary64 where
  add := Binary64.add
  rem := Binary64.rem

/-- The modulo of doubles. -/
def floatMod (a b : Float) : Float := (floorMod (Binary64.ofFloat a) (.ofFloat b)).toFloat

instance : Scalar Float where
  mod := floatMod
  sin := Float.sin
  sqrt := Float.sqrt
  isZero a := a == 0
  ofFloat := id
  ofNat := Float.ofNat

end ExpressionArt
