import ExpressionArt.Number.Rounding
import ExpressionArt.Number.Shortest

/-!
# Text of doubles

Two written forms: the shortest one, positional for middling magnitudes and scientific
for the rest, and the one with a fixed number of places. Parameters, cells and messages show
the shortest one.
-/

namespace ExpressionArt

/-- Which decimal exponents are written positionally, and the least number of digits of a
written exponent. -/
structure PointStyle where
  low : Int
  high : Int
  exponentDigits : Nat
deriving Repr

/-- Positional from `1e-4` up to below `1e16`; exponents have two digits or more. -/
def PointStyle.plain : PointStyle := ⟨-4, 15, 2⟩

/-- `text` with zeros in front up to `width` characters. -/
def zeroPad (width : Nat) (text : String) : String :=
  String.ofList (List.replicate (width - text.length) '0') ++ text

def zeros (n : Nat) : String := String.ofList (List.replicate n '0')

namespace Decimal

/-- Zeros at the end of the digits moved into the exponent; the count bounds the digits. -/
def dropZeros : Nat → Decimal → Decimal
  | 0, d => d
  | n + 1, d =>
    if d.digits ≠ 0 ∧ d.digits % 10 = 0 then dropZeros n ⟨d.digits / 10, d.exponent + 1⟩ else d

def exponentText (style : PointStyle) (x : Int) : String :=
  (if x < 0 then "-" else "+") ++ zeroPad style.exponentDigits (toString x.natAbs)

/-- The digits of a positive decimal with a point among, before or after them. -/
def text (style : PointStyle) (d : Decimal) : String :=
  let d := dropZeros (digitCount d.digits) d
  let ds := Nat.toDigits 10 d.digits
  let x : Int := d.exponent + ds.length - 1
  if style.low ≤ x ∧ x ≤ style.high then
    if x < 0 then "0." ++ zeros (-x - 1).toNat ++ String.ofList ds
    else
      let whole := ds.take (x + 1).toNat
      let rest := ds.drop (x + 1).toNat
      String.ofList whole ++ zeros ((x + 1).toNat - whole.length) ++ "." ++
        (if rest.isEmpty then "0" else String.ofList rest)
  else
    let rest := ds.drop 1
    String.ofList (ds.take 1) ++ (if rest.isEmpty then "" else "." ++ String.ofList rest) ++
      "e" ++ exponentText style x

end Decimal

namespace Binary64

/-- The text of a double, given the text of what is finite without its sign. -/
def textWith (finite : Nat → Int → String) : Binary64 → String
  | .nan => "nan"
  | .infinite s => if s then "-inf" else "inf"
  | .finite s m q => (if s then "-" else "") ++ finite m q

/-- The shortest text that reads back as the same double. -/
def text : Binary64 → String :=
  textWith fun m q => if m = 0 then "0.0" else (Decimal.shortest m q).text .plain

/-- `m · 2 ^ q` with `places` digits after the point, a half going to the even neighbour. -/
def fixedMagnitude (places m : Nat) (q : Int) : String :=
  let (n, d) := ratio m q
  let scaled := roundDiv (n * Nat.pow 10 places) d
  toString (scaled / Nat.pow 10 places) ++ "." ++
    zeroPad places (toString (scaled % Nat.pow 10 places))

def fixedText (places : Nat) : Binary64 → String := textWith (fixedMagnitude places)

end Binary64

/-- The shortest text of a double. -/
def floatText (x : Float) : String := (Binary64.ofFloat x).text

/-- The text of a double with a fixed number of places. -/
def floatFixed (places : Nat) (x : Float) : String := (Binary64.ofFloat x).fixedText places

end ExpressionArt
