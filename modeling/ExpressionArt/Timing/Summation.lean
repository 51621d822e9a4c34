/-!
# Summation

The sum of a list of doubles, with every addition in a fixed place. A short list is added from
left to right. A longer one is dealt out to eight running sums, which are then added in pairs,
and a very long one is cut in two first, so that rounding errors stay small.
-/

namespace ExpressionArt

namespace Summation

/-- The number of running sums. -/
def lanes : Nat := 8

/-- Lists longer than this are cut in two. -/
def maxBlock : Nat := 128

/-- Deals numbers out to running sums, as long as there is one for each, and says what is left. -/
def deal (sums xs : List Float) : List Float × List Float :=
  if lanes ≤ xs.length then deal (List.zipWith (· + ·) sums (xs.take lanes)) (xs.drop lanes)
  else (sums, xs)
termination_by xs.length
decreasing_by simp [lanes] at *; omega

/-- Adds neighbours. -/
def pairs : List Float → List Float
  | a :: b :: xs => (a + b) :: pairs xs
  | xs => xs

def sequential (start : Float) (xs : List Float) : Float := xs.foldl (· + ·) start

/-- The sum of a list that is not cut. -/
def block (xs : List Float) : Float :=
  if xs.length < lanes then sequential 0 xs
  else
    let (sums, rest) := deal (xs.take lanes) (xs.drop lanes)
    sequential (sequential 0 (pairs (pairs (pairs sums)))) rest

/-- The sum of any list. Where it is cut, both parts hold whole deals but for the end. -/
def sum (xs : List Float) : Float :=
  if xs.length ≤ maxBlock then block xs
  else
    let half := xs.length / 2 - xs.length / 2 % lanes
    sum (xs.take half) + sum (xs.drop half)
termination_by xs.length
decreasing_by all_goals simp [lanes, maxBlock] at *; omega

end Summation

end ExpressionArt
