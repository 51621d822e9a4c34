import ExpressionArt.Number.Extended
import ExpressionArt.Number.Rounding

/-!
# Colour channels

A channel value becomes a byte: its magnitude is scaled to 255, no number becomes 0, what is
above 255 becomes 255, and the rest is rounded to the nearest level, a half to the even one.
-/

namespace ExpressionArt

/-- The number of the brightest level. -/
def maxLevel : Nat := 255

/-- The level of a channel value that is scaled already. -/
def level : Extended → Nat
  | .nan => 0
  | .infinite negative => if negative then 0 else maxLevel
  | .finite q =>
    if q ≤ 0 then 0
    else if (maxLevel : Rat) ≤ q then maxLevel
    else roundDiv q.num.toNat q.den

/-- A magnitude scaled to levels, the product rounded by `round`. -/
def scaleWith (round : Rat → Extended) (v : Extended) : Extended :=
  match v.abs with
  | .finite q => round (q * maxLevel)
  | v => v

/-- The level of a channel value when products are rounded by `round`. -/
def levelWith (round : Rat → Extended) (v : Extended) : Nat := level (scaleWith round v)

/-- Scalars that a picture can show. -/
class Channel (α : Type) where
  toByte : α → UInt8

/-- Products of doubles are rounded to the nearest double. -/
instance : Channel Float where
  toByte x := (levelWith Extended.nearest (.ofFloat x)).toUInt8

end ExpressionArt
