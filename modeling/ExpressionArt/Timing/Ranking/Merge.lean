import ExpressionArt.Timing.Ranking.Search

/-!
# Merging

Two runs that follow each other become one. What is in place already stays: the head of the first
run and the tail of the second. The rest is laid out item by item, and in leaps while one run
wins many times in a row. The shorter of the two is the one that is set aside: a first run is
merged from the front, a second one from the end, as if seen in a mirror.

How many wins in a row it takes to leap is learnt on the way: it falls while leaping pays and
rises when it stops to.
-/

namespace ExpressionArt

namespace Ranking

variable {α : Type}

inductive Side where
  | first
  | second
deriving DecidableEq

def Side.opposite : Side → Side
  | .first => .second
  | .second => .first

/-- Two runs that are being laid out. Of equal items that of the first comes first. -/
structure Piles (α : Type) where
  /-- What has been laid out, the latest item first. -/
  laid : List α
  first : List α
  second : List α

namespace Piles

def size (p : Piles α) : Nat := p.first.length + p.second.length

/-- Lays out items from one of the piles. -/
def lay (p : Piles α) (n : Nat) : Side → Piles α
  | .first => { p with laid := (p.first.take n).reverse ++ p.laid, first := p.first.drop n }
  | .second => { p with laid := (p.second.take n).reverse ++ p.laid, second := p.second.drop n }

/-- There is nothing left to compare. The last item of the first pile is known to come last. -/
def isOver (p : Piles α) : Bool := p.second.isEmpty || decide (p.first.length ≤ 1)

/-- All items, in the order of the layout. -/
def items (p : Piles α) : List α := p.laid.reverse ++ p.second ++ p.first

theorem lay_zero (p : Piles α) (s : Side) : p.lay 0 s = p := by
  cases s <;> simp [lay]

theorem size_lay_le (p : Piles α) (n : Nat) (s : Side) : (p.lay n s).size ≤ p.size := by
  cases s <;> simp only [lay, size, List.length_drop] <;> omega

theorem size_lay_lt {p : Piles α} (h : p.isOver = false) {n : Nat} (hn : 0 < n) (s : Side) :
    (p.lay n s).size < p.size := by
  simp only [isOver, Bool.or_eq_false_iff, decide_eq_false_iff_not, List.isEmpty_eq_false_iff]
    at h
  have := List.length_pos_iff.2 h.1
  cases s <;> simp only [lay, size, List.length_drop] <;> omega

end Piles

/-- A direction of laying out. -/
structure Sweep (α : Type) where
  /-- The comparison as it looks in this direction. -/
  less : α → α → Bool
  /-- How bisection leans. -/
  lean : Nat
  /-- The pile that leaps first. -/
  opener : Side

namespace Sweep

def forward (less : α → α → Bool) : Sweep α := ⟨less, 0, .first⟩

def backward (less : α → α → Bool) : Sweep α := ⟨fun x y => less y x, 1, .second⟩

/-- The pile that the next item comes from. -/
def winner (s : Sweep α) (p : Piles α) : Side :=
  match p.first, p.second with
  | x :: _, y :: _ => if s.less y x then .second else .first
  | _, _ => .first

/-- The number of items of a pile that come before the other pile. -/
def lead (s : Sweep α) (p : Piles α) : Side → Nat
  | .first => (p.second.head?.map fun y => gallop (fun x => !s.less y x) s.lean p.first).getD 0
  | .second => (p.first.head?.map fun x => gallop (s.less · x) s.lean p.second).getD 0

/-- Lays out all items of a pile that come before the other pile, and one of that. Says how many
there were. -/
def leap (s : Sweep α) (side : Side) (p : Piles α) : Nat × Piles α :=
  let n := s.lead p side
  let q := p.lay n side
  (n, if q.isOver then q else q.lay 1 side.opposite)

theorem size_leap_lt (s : Sweep α) (side : Side) {p : Piles α} (h : p.isOver = false) :
    (s.leap side p).2.size < p.size := by
  simp only [leap]
  split
  · rename_i ended
    have moved : 0 < s.lead p side := by
      rcases Nat.eq_zero_or_pos (s.lead p side) with zero | pos
      · rw [zero, Piles.lay_zero, h] at ended
        cases ended
      · exact pos
    exact Piles.size_lay_lt h moved side
  · rename_i ended
    have one := Piles.size_lay_lt (Bool.eq_false_iff.2 ended) Nat.one_pos side.opposite
    have all := p.size_lay_le (s.lead p side) side
    omega

/-- A leap of each pile. Says how far the longer one went. -/
def round (s : Sweep α) (p : Piles α) : Nat × Piles α :=
  let (m, q) := s.leap s.opener p
  if q.isOver then (m, q)
  else
    let (n, r) := s.leap s.opener.opposite q
    (max m n, r)

theorem size_round_lt (s : Sweep α) {p : Piles α} (h : p.isOver = false) :
    (s.round p).2.size < p.size := by
  have once := s.size_leap_lt s.opener h
  simp only [round]
  split
  · exact once
  · rename_i ended
    exact Nat.lt_trans (s.size_leap_lt s.opener.opposite (Bool.eq_false_iff.2 ended)) once

end Sweep

/-- How items are laid out: one at a time, where one side has won the last so many times, or in
leaps. -/
inductive Pace where
  | steps (side : Side) (wins : Nat)
  | leaps

/-- As many wins in a row it takes to leap at first. Leaping pays if a leap is as long. -/
def initialPatience : Nat := 7

/-- Lays out two piles. `patience` is the number of wins in a row that it takes to leap, and is
handed on. -/
def Sweep.layOut (s : Sweep α) (pace : Pace) (p : Piles α) (patience : Nat) : List α × Nat :=
  if _h : p.isOver then (p.items, patience)
  else
    match pace with
    | .steps side wins =>
      let winner := s.winner p
      let wins := if winner = side then wins + 1 else 1
      s.layOut (if patience ≤ wins then .leaps else .steps winner wins) (p.lay 1 winner) patience
    | .leaps =>
      if (s.round p).2.isOver then ((s.round p).2.items, patience)
      else if initialPatience ≤ (s.round p).1 then
        s.layOut .leaps (s.round p).2 (max 1 (patience - 1))
      else s.layOut (.steps .first 0) (s.round p).2 (patience + 1)
termination_by p.size
decreasing_by
  · exact Piles.size_lay_lt (Bool.eq_false_iff.2 _h) Nat.one_pos _
  · exact s.size_round_lt (Bool.eq_false_iff.2 _h)
  · exact s.size_round_lt (Bool.eq_false_iff.2 _h)

/-- Lays out two runs of which the first item of the second and the last item of the first are
known to change places. -/
def interleave (less : α → α → Bool) (xs ys : List α) (patience : Nat) : List α × Nat :=
  if xs.length ≤ ys.length then
    (Sweep.forward less).layOut (.steps .first 0) (Piles.lay ⟨[], xs, ys⟩ 1 .second) patience
  else
    let (items, patience) := (Sweep.backward less).layOut (.steps .first 0)
      (Piles.lay ⟨[], ys.reverse, xs.reverse⟩ 1 .second) patience
    (items.reverse, patience)

/-- One run of two. -/
def merge (less : α → α → Bool) (xs ys : List α) : StateM Nat (List α) := fun patience =>
  let start := (ys.head?.map fun y => gallop (fun x => !less y x) 0 xs).getD 0
  let early := xs.take start
  let xs := xs.drop start
  match xs.getLast? with
  | none => (early ++ ys, patience)
  | some x =>
    let stop := ys.length - gallop (fun y => !less y x) 1 ys.reverse
    let late := ys.drop stop
    let ys := ys.take stop
    if ys.isEmpty then (early ++ xs ++ late, patience)
    else
      let (items, patience) := interleave less xs ys patience
      (early ++ items ++ late, patience)

end Ranking

end ExpressionArt
