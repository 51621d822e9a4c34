import ExpressionArt.Proofs.Number.Rounded
import ExpressionArt.Scalar.Double

/-!
# Floored modulo

The first remainder has the sign of the dividend. The sum with the divisor has the sign of the
divisor, so that its quotient by it is not negative and the second remainder is cut to the floor.
The sum differs from the dividend by a multiple of the divisor, which a floored remainder does not
see. The remainder of doubles is the exact one.
-/

namespace ExpressionArt

/-- A rational cut towards zero. -/
def truncated (x : ℚ) : ℤ := if 0 ≤ x then ⌊x⌋ else ⌈x⌉

theorem truncated_neg (x : ℚ) : truncated (-x) = -truncated x := by
  obtain less | rfl | more := lt_trichotomy x 0
  · rw [truncated, truncated, if_pos (neg_nonneg.2 less.le), if_neg (not_le.2 less), Int.floor_neg]
  · simp [truncated]
  · rw [truncated, truncated, if_neg (by simpa using more), if_pos more.le, Int.ceil_neg]

/-- What is cut off is less than one. -/
theorem neg_one_lt_sub_truncated (x : ℚ) : -1 < x - truncated x := by
  unfold truncated
  split
  · linarith [Int.floor_le x]
  · linarith [Int.ceil_lt_add_one x]

/-! ## Exact numbers -/

variable {a b : ℚ}

theorem rem_eq (a b : ℚ) : Remainder.rem a b = a - b * truncated (a / b) := by
  have ceil (x : ℚ) : x.ceil = ⌈x⌉ := Rat.ceil_eq_neg_floor_neg x
  simp only [Remainder.rem, ceil]
  rfl

theorem rem_neg_left (a b : ℚ) : Remainder.rem (-a) b = -Remainder.rem a b := by
  rw [rem_eq, rem_eq, neg_div, truncated_neg]
  push_cast
  ring

theorem rem_neg_right (a b : ℚ) : Remainder.rem a (-b) = Remainder.rem a b := by
  rw [rem_eq, rem_eq, div_neg, truncated_neg]
  push_cast
  ring

/-- A remainder of a quotient that is not negative is a fraction of the divisor. -/
theorem rem_of_div_nonneg (hb : b ≠ 0) (h : 0 ≤ a / b) :
    Remainder.rem a b = b * Int.fract (a / b) := by
  rw [rem_eq, truncated, if_pos h, Int.fract, mul_sub, mul_div_cancel₀ _ hb]

theorem floorMod_eq_mul_fract (hb : b ≠ 0) : floorMod a b = b * Int.fract (a / b) := by
  have quotient : (Remainder.rem a b + b) / b = a / b - truncated (a / b) + (1 : ℤ) := by
    rw [rem_eq]
    field_simp
    push_cast
    ring
  have nonneg : 0 ≤ (Remainder.rem a b + b) / b := by
    rw [quotient, Int.cast_one]
    linarith [neg_one_lt_sub_truncated (a / b)]
  rw [floorMod, rem_of_div_nonneg hb nonneg, quotient, Int.fract_add_intCast, Int.fract_sub_intCast]

/-! ## Doubles -/

namespace Binary64

/-- Multiples of one power of two are divided like integers. -/
theorem rem_exactly (m n : ℕ) (e : ℤ) (hn : n ≠ 0) :
    Remainder.rem (exactly m e) (exactly n e) = exactly (m % n) e := by
  have unit : (2 : ℚ) ^ e ≠ 0 := by positivity
  have divisor : exactly n e ≠ 0 := by
    unfold exactly
    positivity
  have quotient : exactly m e / exactly n e = (m : ℚ) / n := mul_div_mul_right _ _ unit
  rw [rem_of_div_nonneg divisor (by rw [quotient]; positivity), quotient,
    Int.fract_div_natCast_eq_div_natCast_mod, exactly, exactly]
  field_simp

/-- The remainder of doubles is the exact one. -/
theorem ofBinary64_rem {x y : Binary64} (hx : Extended.ofBinary64 x = .finite a)
    (hy : Extended.ofBinary64 y = .finite b) (hb : b ≠ 0) :
    Extended.ofBinary64 (rem x y) = .finite (Remainder.rem a b) := by
  match x, y with
  | .finite s m q, .finite t n r =>
    rw [ofBinary64_finite] at hx hy
    obtain rfl := Extended.finite.inj hx
    obtain rfl := Extended.finite.inj hy
    have hn : n ≠ 0 := by
      rintro rfl
      simp [exactly] at hb
    have shifted : n * Nat.pow 2 (r - min q r).toNat ≠ 0 :=
      Nat.mul_ne_zero hn (Nat.pow_pos (by decide)).ne'
    simp only [rem, if_neg hn]
    rw [ofBinary64_finite, ← rem_exactly _ _ _ shifted, exactly_shift _ (min_le_left q r),
      exactly_shift _ (min_le_right q r)]
    cases s <;> cases t <;> simp [rem_neg_left, rem_neg_right]

end Binary64

/-- Two remainders that are cut towards zero make a floored one. -/
theorem floorMod_floored (a : ℚ) {b : ℚ} (hb : b ≠ 0) :
    floorMod a b = a - b * ⌊a / b⌋ ∧
    (0 < b → 0 ≤ floorMod a b ∧ floorMod a b < b) ∧
    (b < 0 → b < floorMod a b ∧ floorMod a b ≤ 0) ∧
    (∃ k : ℤ, a - floorMod a b = k * b) ∧
    ∀ x y : Binary64, Extended.ofBinary64 x = .finite a → Extended.ofBinary64 y = .finite b →
      Extended.ofBinary64 (Remainder.rem x y) = .finite (a - b * truncated (a / b)) := by
  have floored : floorMod a b = a - b * ⌊a / b⌋ := by
    rw [floorMod_eq_mul_fract hb, Int.fract, mul_sub, mul_div_cancel₀ _ hb]
  have least := Int.fract_nonneg (a / b)
  have most := Int.fract_lt_one (a / b)
  refine ⟨floored, fun positive => ?_, fun negative => ?_, ⟨⌊a / b⌋, ?_⟩, fun x y hx hy => ?_⟩
  · rw [floorMod_eq_mul_fract hb]
    exact ⟨by positivity, by nlinarith⟩
  · rw [floorMod_eq_mul_fract hb]
    exact ⟨by nlinarith, mul_nonpos_of_nonpos_of_nonneg negative.le least⟩
  · rw [floored]
    ring
  · rw [← rem_eq]
    exact Binary64.ofBinary64_rem hx hy hb

theorem floorMod_unlike_signs :
    (3 : ℚ) ≠ 0 ∧ floorMod (-1 : ℚ) 3 = 2 ∧ floorMod (7 : ℚ) (-3) = -2 := by
  have divisor : (3 : ℚ) ≠ 0 := by decide
  have left : ⌊(-1 : ℚ) / 3⌋ = -1 := by norm_num
  have right : ⌊(7 : ℚ) / -3⌋ = -3 := by norm_num
  refine ⟨divisor, ?_, ?_⟩
  · rw [(floorMod_floored (-1) divisor).1, left]
    norm_num
  · rw [(floorMod_floored 7 (neg_ne_zero.2 divisor)).1, right]
    norm_num

end ExpressionArt
