import ExpressionArt.Number.Text
import ExpressionArt.Timing.Ranking
import ExpressionArt.Timing.Summation

/-!
# Timings

Durations by name, names in the order in which they first came up. Each name has a summary of
its durations, and a report lists the summaries by total, the largest first.
-/

namespace ExpressionArt

abbrev Timings := List (String × Array Float)

namespace Timings

/-- Makes a name come up, without a duration. -/
def touch (t : Timings) (name : String) : Timings :=
  if t.any (·.1 == name) then t else t ++ [(name, #[])]

/-- Adds a duration to a name. -/
def record (t : Timings) (name : String) (duration : Float) : Timings :=
  (t.touch name).map fun e => if e.1 = name then (e.1, e.2.push duration) else e

/-- The number of durations of a name. -/
def count (t : Timings) (name : String) : Nat := ((t.lookup name).map Array.size).getD 0

end Timings

/-! ## Summaries -/

def total (xs : List Float) : Float := Summation.sum xs

def mean (xs : List Float) : Float := total xs / Float.ofNat xs.length

/-- The one of two numbers that `better` prefers, the second unless the first is better. What is
no number wins. -/
def extreme (better : Float → Float → Bool) (a b : Float) : Float :=
  if a.isNaN || (!b.isNaN && better a b) then a else b

def extremum (better : Float → Float → Bool) : List Float → Float
  | [] => 0
  | x :: xs => xs.foldl (extreme better) x

/-- The middle of the sorted numbers, or the mean of the two in the middle. -/
def median (xs : List Float) : Float :=
  if xs.any Float.isNaN then 0 / 0
  else
    let sorted := xs.mergeSort fun a b => decide (a ≤ b)
    let n := xs.length
    mean (if n % 2 = 1 then (sorted.drop (n / 2)).take 1 else (sorted.drop (n / 2 - 1)).take 2)

/-- The root of the mean squared distance from the mean. -/
def deviation (xs : List Float) : Float :=
  let m := mean xs
  (mean (xs.map fun x => (x - m) * (x - m))).sqrt

structure Summary where
  name : String
  mean : Float
  median : Float
  deviation : Float
  min : Float
  max : Float
  calls : Nat
  total : Float

namespace Summary

def ofDurations (name : String) (xs : List Float) : Summary where
  name
  mean := ExpressionArt.mean xs
  median := ExpressionArt.median xs
  deviation := ExpressionArt.deviation xs
  min := extremum (fun a b => decide (a < b)) xs
  max := extremum (fun a b => decide (b < a)) xs
  calls := xs.length
  total := ExpressionArt.total xs

/-- `text` with blanks behind it up to `width` characters. -/
def padded (width : Nat) (text : String) : String :=
  text ++ String.ofList (List.replicate (width - text.length) ' ')

/-- A line of the report: name, total, calls, mean, deviation. -/
def columns (name total calls mean deviation : String) : String :=
  " ".intercalate [padded 40 name, padded 12 total, padded 8 calls, padded 10 mean,
    padded 10 deviation]

def line (s : Summary) : String :=
  columns s.name (floatFixed 4 s.total) (toString s.calls) (floatFixed 4 s.mean)
    (floatFixed 4 s.deviation)

def heading : String := columns "function" "total(s)" "calls" "mean(s)" "std(s)"

end Summary

namespace Timings

/-- The summaries of the names that have durations. -/
def summaries (t : Timings) : List Summary :=
  (t.filter (!·.2.isEmpty)).map fun (name, xs) => .ofDurations name xs.toList

/-- The summaries by total, largest first; equal totals stay in order. A total that is no number
is not less than any other nor any other less than it; where there is one, the summaries are
arranged from the last to the first. -/
def ranked (t : Timings) : List Summary :=
  if t.summaries.any (·.total.isNaN) then
    (Ranking.arrange (fun a b => decide (a.total < b.total)) t.summaries.reverse).reverse
  else t.summaries.mergeSort fun a b => !decide (a.total < b.total)

def report (t : Timings) : String :=
  "\n".intercalate (Summary.heading :: t.ranked.map Summary.line)

end Timings

end ExpressionArt
