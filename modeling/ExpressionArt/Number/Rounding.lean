/-!
# Rounding to nearest

A quotient of naturals rounded to the nearest natural, a half going to the even
neighbour. Bytes of a picture and decimals of a report are both rounded this way.
-/

namespace ExpressionArt

/-- `n / d` rounded to the nearest natural; a half goes to the even neighbour. -/
def roundDiv (n d : Nat) : Nat :=
  let q := n / d
  let r := n % d
  if 2 * r < d ∨ (2 * r = d ∧ q % 2 = 0) then q else q + 1

/-- Twice the rounded quotient is within one of twice the exact one. -/
theorem roundDiv_bounds (n : Nat) {d : Nat} (hd : 0 < d) :
    2 * n ≤ (2 * roundDiv n d + 1) * d ∧ 2 * roundDiv n d * d ≤ 2 * n + d := by
  have h := Nat.div_add_mod n d
  have hr := Nat.mod_lt n hd
  have e : (2 * (n / d) + 1) * d = 2 * (d * (n / d)) + d := by
    rw [Nat.add_mul, Nat.mul_assoc, Nat.mul_comm (n / d) d, Nat.one_mul]
  have e' : 2 * (n / d) * d = 2 * (d * (n / d)) := by
    rw [Nat.mul_assoc, Nat.mul_comm (n / d) d]
  unfold roundDiv
  dsimp only
  split
  · rw [e, e']; omega
  · rw [Nat.mul_add, Nat.add_mul, Nat.add_mul, e']; omega

end ExpressionArt
