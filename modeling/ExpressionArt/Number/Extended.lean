import ExpressionArt.Number.Nearest

/-!
# Extended rationals

The numbers that doubles stand for: rationals, two infinities, and no number at all.
-/

namespace ExpressionArt

inductive Extended where
  | nan
  | infinite (negative : Bool)
  | finite (q : Rat)
deriving DecidableEq

namespace Extended

def ofBinary64 : Binary64 → Extended
  | .nan => .nan
  | .infinite s => .infinite s
  | .finite s m q =>
    let (n, d) := Binary64.ratio m q
    .finite (mkRat (if s then -n else n) d)

def ofFloat (x : Float) : Extended := ofBinary64 (.ofFloat x)

/-- A rational rounded to the nearest double. -/
def nearest (q : Rat) : Extended := ofBinary64 (.nearest (q < 0) q.num.natAbs q.den)

/-- The magnitude, which forgets the sign of an infinity too. -/
def abs : Extended → Extended
  | .nan => .nan
  | .infinite _ => .infinite false
  | .finite q => .finite (if q < 0 then -q else q)

end Extended

end ExpressionArt
