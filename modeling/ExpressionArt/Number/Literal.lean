import ExpressionArt.Text.Integer

/-!
# Reading doubles

A literal is a sign, then `inf`, `infinity`, `nan` or decimal digits with an optional point
and an optional exponent. Blanks may stand around it, digits may be of any script, and single
underscores may stand between digits. It names the double nearest to the decimal it writes.
-/

namespace ExpressionArt

/-- A digit of any script as one of the ten common ones. -/
def commonDigit (c : Char) : Char :=
  match digitValue? c with
  | some d => Char.ofNat ('0'.toNat + d)
  | none => c

/-- Drops underscores, each of which must stand between digits. -/
def dropUnderscores? : List Char → Option (List Char)
  | [] => some []
  | a :: '_' :: b :: cs =>
    if a.isDigit && b.isDigit then (dropUnderscores? (b :: cs)).map (a :: ·) else none
  | c :: cs => if c = '_' then none else (dropUnderscores? cs).map (c :: ·)

/-- The value of a run of decimal digits. -/
def digitsValue (ds : List Char) : Nat :=
  ds.foldl (fun n c => 10 * n + (c.toNat - '0'.toNat)) 0

/-- The exponent part at the end of a literal; nothing at all is the exponent zero. -/
def readExponent? : List Char → Option Int
  | [] => some 0
  | c :: cs =>
    if c = 'e' ∨ c = 'E' then
      let (negative, ds) := match cs with
        | '-' :: ds => (true, ds)
        | '+' :: ds => (false, ds)
        | ds => (false, ds)
      if ds.isEmpty || !ds.all Char.isDigit then none
      else some (if negative then -(digitsValue ds) else digitsValue ds)
    else none

/-- Decimals of at least this power of ten have no finite double nearest to them, and those below
its reciprocal are nearest to zero. -/
def maxDecimalExponent : Nat := 400

/-- The double nearest to `digits · 10 ^ exponent`. -/
def nearestDouble (digits : Nat) (exponent : Int) : Float :=
  let top := (Nat.toDigits 10 digits).length + exponent
  if digits = 0 ∨ top < -maxDecimalExponent then 0
  else if maxDecimalExponent < top then 1 / 0
  else Float.ofScientific digits (exponent < 0) exponent.natAbs

/-- A literal without its sign. -/
def readMagnitude? (cs : List Char) : Option Float := do
  let word := String.ofList (cs.map Char.toLower)
  if word = "inf" ∨ word = "infinity" then some (1 / 0)
  else if word = "nan" then some (0 / 0)
  else
    let whole := cs.takeWhile Char.isDigit
    let (fraction, rest) := match cs.dropWhile Char.isDigit with
      | '.' :: cs => (cs.takeWhile Char.isDigit, cs.dropWhile Char.isDigit)
      | cs => ([], cs)
    if whole.isEmpty && fraction.isEmpty then none
    let e ← readExponent? rest
    some (nearestDouble (digitsValue (whole ++ fraction)) (e - fraction.length))

def readDouble? (text : String) : Option Float := do
  match ← dropUnderscores? ((trimBlanks text.toList).map commonDigit) with
  | '-' :: cs => (readMagnitude? cs).map Float.neg
  | '+' :: cs => readMagnitude? cs
  | cs => readMagnitude? cs

end ExpressionArt
