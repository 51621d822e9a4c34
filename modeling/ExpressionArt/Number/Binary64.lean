/-!
# Binary doubles

A double taken apart into a sign, a natural mantissa and a power of two, and put
together again. Whatever the hardware does not offer exactly (the truncated
remainder, decimal text, a cut to an integer) is computed on the parts.
-/

namespace ExpressionArt

/-- `finite s m q` stands for `m · 2 ^ q`, negated when `s` holds. -/
inductive Binary64 where
  | nan
  | infinite (negative : Bool)
  | finite (negative : Bool) (mantissa : Nat) (exponent : Int)
deriving DecidableEq, Repr

namespace Binary64

/-- The parts of a bit pattern: one sign bit, eleven of exponent, fifty-two of fraction. -/
def ofBits (bits : Nat) : Binary64 :=
  let negative := bits / Nat.pow 2 63 % 2 == 1
  let exponent : Nat := bits / Nat.pow 2 52 % Nat.pow 2 11
  let fraction := bits % Nat.pow 2 52
  if exponent = 0x7FF then
    if fraction = 0 then .infinite negative else .nan
  else if exponent = 0 then .finite negative fraction (-1074)
  else .finite negative (Nat.pow 2 52 + fraction) ((exponent : Int) - 1075)

def ofFloat (x : Float) : Binary64 := ofBits x.toBits.toNat

/-- The pattern without its sign of `m · 2 ^ q`, for a value that a double can hold. -/
def magnitudeBits (m : Nat) (q : Int) : Nat :=
  if m = 0 then 0
  else
    let shift := min (52 - m.log2) (q + 1074).toNat
    let m := m * Nat.pow 2 shift
    let q := q - shift
    if m < Nat.pow 2 52 then m else (q + 1075).toNat * Nat.pow 2 52 + (m - Nat.pow 2 52)

def signBit (negative : Bool) : Nat := if negative then Nat.pow 2 63 else 0

def toBits : Binary64 → Nat
  | .nan => 0x7FF8000000000000
  | .infinite s => signBit s + 0x7FF0000000000000
  | .finite s m q => signBit s + magnitudeBits m q

/-- Exact for every value that a double can hold. -/
def toFloat (b : Binary64) : Float := Float.ofBits (UInt64.ofNat b.toBits)

/-- The remainder of a division whose quotient is cut towards zero. It is exact, has the sign
of the dividend and is the dividend itself under an infinite divisor. -/
def rem : Binary64 → Binary64 → Binary64
  | .finite s m q, .infinite _ => .finite s m q
  | .finite s m q, .finite _ n r =>
    if n = 0 then .nan
    else
      let e := min q r
      .finite s ((m * Nat.pow 2 (q - e).toNat) % (n * Nat.pow 2 (r - e).toNat)) e
  | _, _ => .nan

/-- The value cut towards zero. -/
def truncate (negative : Bool) (m : Nat) (q : Int) : Int :=
  let n := if 0 ≤ q then m * Nat.pow 2 q.toNat else m / Nat.pow 2 (-q).toNat
  if negative then -n else n

/-- Why a double has no integer part. -/
inductive CutError where
  | notANumber
  | infinite
deriving DecidableEq, Repr

def CutError.message : CutError → String
  | .notANumber => "cannot convert float NaN to integer"
  | .infinite => "cannot convert float infinity to integer"

/-- A double cut towards zero. -/
def cut : Binary64 → Except CutError Int
  | .nan => .error .notANumber
  | .infinite _ => .error .infinite
  | .finite s m q => .ok (truncate s m q)

/-- The quotient of naturals that `m · 2 ^ q` is. -/
def ratio (m : Nat) (q : Int) : Nat × Nat :=
  (m * Nat.pow 2 q.toNat, Nat.pow 2 (-q).toNat)

theorem ratio_den_pos (m : Nat) (q : Int) : 0 < (ratio m q).2 :=
  Nat.pow_pos (by decide)

end Binary64

end ExpressionArt
