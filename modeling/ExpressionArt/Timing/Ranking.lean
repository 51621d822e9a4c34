import ExpressionArt.Timing.Ranking.Merge
import ExpressionArt.Timing.Ranking.Run

/-!
# Ranking

A stable order for items that may defy comparison: the list is cut into runs, and neighbouring
runs are merged until one is left. Where the comparison orders all items this is the sorted
order; where it does not, the result still depends on nothing but the comparisons that are made.

Which runs are merged when follows from where they meet. The border of two runs has a rank, the
number of halvings of the whole list until their middles come apart, and borders of a higher rank
go first.
-/

namespace ExpressionArt

namespace Ranking

variable {α : Type}

/-- The number of halvings of a list of length `n` that it takes to tell the places `a / 2` and
`b / 2` apart. -/
def rank (n a b : Nat) : Nat :=
  if _h : 0 < n ∧ a < b ∧ a / n = b / n then rank n (2 * a) (2 * b) + 1 else 1
termination_by n - (b - a)
decreasing_by
  have ha := Nat.div_add_mod a n
  have hb := Nat.div_add_mod b n
  have bound := Nat.mod_lt b _h.1
  rw [_h.2.2] at ha
  omega

/-- A run that waits to be merged, with the rank of the border behind it. -/
structure Waiting (α : Type) where
  items : List α
  rank : Nat

/-- Merges a run with those that wait before it, the latest first, as long as the borders between
them have a higher rank than the border behind. -/
def collapse (less : α → α → Bool) (rank : Nat) (items : List α) :
    List (Waiting α) → StateM Nat (List α × List (Waiting α))
  | [] => return (items, [])
  | w :: ws => do
    if rank < w.rank then collapse less rank (← merge less w.items items) ws
    else return (items, w :: ws)

/-- Merges all runs, the latest first in the list. The last two are merged, or the two before the
last if that is longer than the first of them. -/
def finish (less : α → α → Bool) : List (List α) → StateM Nat (List α)
  | [] => return []
  | [a] => return a
  | [b, a] => merge less a b
  | c :: b :: a :: rest => do
    if a.length < c.length then finish less (c :: (← merge less a b) :: rest)
    else finish less ((← merge less b c) :: a :: rest)
termination_by runs => runs.length

/-- Goes through the runs of a list of length `n`, of which `items` begins at place `start`. -/
def mergeRuns (less : α → α → Bool) (n start : Nat) (items : List α) (waiting : List (Waiting α)) :
    List (List α) → StateM Nat (List α)
  | [] => finish less (items :: waiting.map (·.items))
  | next :: rest => do
    let middle := 2 * start + items.length
    let border := rank n middle (middle + items.length + next.length)
    let (merged, waiting) ← collapse less border items waiting
    mergeRuns less n (start + items.length) next (⟨merged, border⟩ :: waiting) rest

/-- The items in order. -/
def arrange (less : α → α → Bool) (items : List α) : List α :=
  match runs less (leastLength items.length 0) items with
  | [] => []
  | first :: rest => ((mergeRuns less items.length 0 first [] rest).run initialPatience).1

theorem arrange_nil (less : α → α → Bool) : arrange less ([] : List α) = [] := by
  simp [arrange, runs]

end Ranking

end ExpressionArt
