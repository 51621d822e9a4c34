/-!
# Search

Two searches for the place in a list behind which a test fails, for lists on which it fails from
some place on. Both look at few items and believe the test everywhere, so on other lists they
still end at a place, which depends on nothing but the items that they look at.
-/

namespace ExpressionArt

namespace Ranking

variable {α : Type}

/-- Where bisection between two places ends: it turns right at an item that has passed and left
at one that has not. Of two items in the middle it takes the later one, or the earlier one if it
leans by one. -/
def bisect (passed : α → Bool) (items : List α) (lean left right : Nat) : Nat :=
  if left < right then
    let middle := left + (right - left - lean) / 2
    if items[middle]?.any passed then bisect passed items lean (middle + 1) right
    else bisect passed items lean left middle
  else left
termination_by right - left

/-- Goes on from place to place, each time twice as far and one more, as long as items pass. The
result is the last place that was passed, and the one behind it or the end. -/
def stride (passed : α → Bool) (items : List α) (last next : Nat) : Nat × Nat :=
  if next < items.length then
    if items[next]?.any passed then stride passed items next (2 * next + 1) else (last, next)
  else (last, items.length)
termination_by items.length - next

/-- The number of items in front that pass, found by strides and then by bisection. -/
def gallop (passed : α → Bool) (lean : Nat) (items : List α) : Nat :=
  if items.head?.any passed then
    let (last, next) := stride passed items 0 1
    bisect passed items lean (last + 1) next
  else 0

theorem gallop_nil (passed : α → Bool) (lean : Nat) : gallop passed lean [] = 0 := rfl

end Ranking

end ExpressionArt
