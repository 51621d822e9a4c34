/-!
# Steps

Counts of expansion steps. The count of a type is infinite while no way is known to complete
an expression of that type.
-/

namespace ExpressionArt

inductive Steps where
  | finite (n : Nat)
  | infinite
deriving DecidableEq, Repr

namespace Steps

def lt : Steps → Steps → Bool
  | .finite m, .finite n => m < n
  | .finite _, .infinite => true
  | .infinite, _ => false

def min (a b : Steps) : Steps := if b.lt a then b else a

def max (a b : Steps) : Steps := if a.lt b then b else a

def succ : Steps → Steps
  | .finite n => .finite (n + 1)
  | .infinite => .infinite

/-- Whether a count is finite and less than a budget. -/
def below (s : Steps) (budget : Int) : Bool :=
  match s with
  | .finite n => n < budget
  | .infinite => false

/-- A finite count; zero stands for an infinite one. -/
def toNat : Steps → Nat
  | .finite n => n
  | .infinite => 0

theorem below_iff {s : Steps} {d : Int} : s.below d ↔ ∃ n : Nat, s = .finite n ∧ n < d := by
  cases s <;> simp [below]

theorem pos_of_below {s : Steps} {d : Int} (h : s.below d) : 0 < d := by
  obtain ⟨n, -, less⟩ := below_iff.1 h
  omega

end Steps

end ExpressionArt
