import ExpressionArt.Number.Binary64
import ExpressionArt.Number.Rounding

/-!
# Nearest doubles

A quotient of naturals rounded to a double: to the nearest one, a half going to the even
mantissa. The doubles around a quotient form a grid of powers of two, as fine as a mantissa of
53 bits allows and never finer than the least double. Sums, and products with naturals, are
exact results rounded this way.
-/

namespace ExpressionArt

namespace Binary64

/-- The exponent of the least double, and of all below `2 ^ -1021`. -/
def leastExponent : Int := -1074

/-- The exponent of the doubles from `2 ^ 1023` on. -/
def greatestExponent : Int := 971

/-- Whether `n / d` is below `2 ^ e`. -/
def isBelowPower (n d : Nat) (e : Int) : Bool :=
  n * Nat.pow 2 (-e).toNat < d * Nat.pow 2 e.toNat

/-- The `e` with `2 ^ e ≤ n / d < 2 ^ (e + 1)`, for a positive quotient. -/
def binade (n d : Nat) : Int :=
  let e := (n.log2 : Int) - (d.log2 : Int)
  if isBelowPower n d e then e - 1 else e

/-- The exponent of the doubles around `n / d`. -/
def gridExponent (n d : Nat) : Int := max (binade n d - 52) leastExponent

/-- `n / d` rounded to a number of units of `2 ^ q`. -/
def units (n d : Nat) (q : Int) : Nat :=
  roundDiv (n * Nat.pow 2 (-q).toNat) (d * Nat.pow 2 q.toNat)

/-- The double nearest to `n / d`, with a sign; above all doubles it is infinite. -/
def nearest (negative : Bool) (n d : Nat) : Binary64 :=
  let q := gridExponent n d
  let m := units n d q
  let (m, q) := if m = Nat.pow 2 53 then (Nat.pow 2 52, q + 1) else (m, q)
  if greatestExponent < q then .infinite negative else .finite negative m q

/-- The product with a natural. -/
def times : Binary64 → Nat → Binary64
  | .nan, _ => .nan
  | .infinite s, n => if n = 0 then .nan else .infinite s
  | .finite s m q, n =>
    let (a, d) := ratio m q
    nearest s (a * n) d

/-- The sum of two multiples of `2 ^ e`. What cancels out is zero, and not a negative one. -/
def addOn (e : Int) (s : Bool) (a : Nat) (t : Bool) (b : Nat) : Binary64 :=
  let rounded := fun (negative : Bool) (k : Nat) =>
    let (n, d) := ratio k e
    nearest negative n d
  if s = t then rounded s (a + b)
  else if a = b then .finite false 0 e
  else if b < a then rounded s (a - b)
  else rounded t (b - a)

def add : Binary64 → Binary64 → Binary64
  | .nan, _ | _, .nan => .nan
  | .infinite s, .infinite t => if s = t then .infinite s else .nan
  | .infinite s, .finite .. | .finite .., .infinite s => .infinite s
  | .finite s m q, .finite t n r =>
    let e := min q r
    addOn e s (m * Nat.pow 2 (q - e).toNat) t (n * Nat.pow 2 (r - e).toNat)

/-- Twice the count of units is within one of twice the quotient in units. -/
theorem units_bounds (n : Nat) {d : Nat} (q : Int) (hd : 0 < d) :
    2 * (n * Nat.pow 2 (-q).toNat) ≤ (2 * units n d q + 1) * (d * Nat.pow 2 q.toNat) ∧
      2 * units n d q * (d * Nat.pow 2 q.toNat) ≤
        2 * (n * Nat.pow 2 (-q).toNat) + d * Nat.pow 2 q.toNat :=
  roundDiv_bounds _ (Nat.mul_pos hd (Nat.pow_pos (by decide)))

end Binary64

end ExpressionArt
