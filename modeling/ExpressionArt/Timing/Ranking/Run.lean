import ExpressionArt.Timing.Ranking.Search

/-!
# Runs

A list cut into runs, each of them in order. A run is as long as the items rise by themselves, or
strictly fall and are turned round. One that is too short takes in the items behind it, each of
which finds its place by bisection, behind those it is not less than.
-/

namespace ExpressionArt

namespace Ranking

variable {α : Type}

/-- Puts an item at its place. -/
def insert (less : α → α → Bool) (items : List α) (x : α) : List α :=
  let place := bisect (fun y => !less x y) items 0 0 items.length
  items.take place ++ x :: items.drop place

/-- The longest run of items behind `x`, each of which `follows` holds of with the one before it,
and what comes behind the run. -/
def run (follows : α → α → Bool) (x : α) : List α → List α × List α
  | [] => ([], [])
  | y :: ys =>
    if follows x y then
      let (found, rest) := run follows y ys
      (y :: found, rest)
    else ([], y :: ys)

theorem length_run (follows : α → α → Bool) (x : α) (ys : List α) :
    (run follows x ys).1.length + (run follows x ys).2.length = ys.length := by
  induction ys generalizing x with
  | nil => rfl
  | cons y ys ih =>
    simp only [run]
    split
    · have := ih y
      simp only [List.length_cons]
      omega
    · simp

/-- The run that `x` begins, in order, and what comes behind it. -/
def leadingRun (less : α → α → Bool) (x : α) : List α → List α × List α
  | [] => ([x], [])
  | y :: ys =>
    if less y x then
      let (found, rest) := run (fun a b => less b a) x (y :: ys)
      ((x :: found).reverse, rest)
    else
      let (found, rest) := run (fun a b => !less b a) x (y :: ys)
      (x :: found, rest)

theorem length_leadingRun_lt (less : α → α → Bool) (x : α) (ys : List α) :
    (leadingRun less x ys).2.length < ys.length + 1 := by
  cases ys with
  | nil => simp [leadingRun]
  | cons y ys =>
    have falling := length_run (fun a b => less b a) x (y :: ys)
    have rising := length_run (fun a b => !less b a) x (y :: ys)
    simp only [leadingRun]
    split <;> simp only <;> omega

/-- The same run, with items from behind it up to a least length. -/
def extendedRun (less : α → α → Bool) (least : Nat) (x : α) (xs : List α) : List α × List α :=
  let (found, rest) := leadingRun less x xs
  let missing := least - found.length
  ((rest.take missing).foldl (insert less) found, rest.drop missing)

theorem length_extendedRun_lt (less : α → α → Bool) (least : Nat) (x : α) (xs : List α) :
    (extendedRun less least x xs).2.length < xs.length + 1 := by
  have := length_leadingRun_lt less x xs
  simp only [extendedRun, List.length_drop]
  omega

/-- The runs of a list; all but the last have a least length. -/
def runs (less : α → α → Bool) (least : Nat) : List α → List (List α)
  | [] => []
  | x :: xs =>
    (extendedRun less least x xs).1 :: runs less least (extendedRun less least x xs).2
termination_by items => items.length
decreasing_by simpa using length_extendedRun_lt less least x xs

/-- Lists shorter than this are one run. -/
def maxLeast : Nat := 64

/-- The least length of the runs of a list of length `n`: its leading bits, and one more if the
bits behind them are not all zero. `lost` tells whether one has been left out. -/
def leastLength (n : Nat) (lost : Nat) : Nat :=
  if n < maxLeast then n + lost else leastLength (n / 2) (max lost (n % 2))
termination_by n
decreasing_by simp only [maxLeast] at *; omega

end Ranking

end ExpressionArt
