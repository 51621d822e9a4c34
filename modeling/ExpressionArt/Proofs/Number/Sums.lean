import ExpressionArt.Proofs.Number.Rounded

/-!
# Sums of doubles

A sum of doubles is the exact sum, rounded. It goes to infinity from the middle between the greatest
double and the next power of two on.
-/

namespace ExpressionArt

/-- A number is rounded up to an even one from the middle below it on. -/
theorem roundEven_lt_iff {x : ℚ} {k : ℤ} (even : k % 2 = 0) : roundEven x < k ↔ x < k - 1 / 2 := by
  refine ⟨fun less => ?_, fun less => ?_⟩
  · by_contra above
    have middle : roundEven ((k : ℚ) - 1 / 2) = k := by
      have whole : ⌊(k : ℚ) - 1 / 2⌋ = k - 1 := by
        rw [Int.floor_eq_iff]
        push_cast
        constructor <;> linarith
      have rest : Int.fract ((k : ℚ) - 1 / 2) = 1 / 2 := by
        rw [Int.fract, whole]
        push_cast
        ring
      have odd : ¬ (k - 1) % 2 = 0 := by omega
      rw [roundEven, whole, rest, if_neg (by norm_num [odd])]
      ring
    have least := roundEven_mono (not_lt.1 above)
    omega
  · have below : ⌊x⌋ < k := by
      rw [Int.floor_lt]
      linarith
    obtain last | further : ⌊x⌋ = k - 1 ∨ ⌊x⌋ < k - 1 := by omega
    · have rest : 2 * Int.fract x < 1 := by
        rw [Int.fract, last]
        push_cast
        linarith
      rw [roundEven, if_pos (.inl rest)]
      exact below
    · have most := roundEven_le_floor x
      omega

theorem Binary64.ceiling_pos : 0 < Binary64.ceiling := by
  unfold Binary64.ceiling
  positivity

namespace Extended

/-- The magnitude of a number decides whether the double nearest to it is finite. -/
theorem nearest_eq (q : ℚ) : nearest q = if Binary64.rounded |q| < Binary64.ceiling then
      .finite (if q < 0 then -Binary64.rounded |q| else Binary64.rounded |q|)
    else .infinite (q < 0) := by
  have quotient : (q.num.natAbs : ℚ) / q.den = |q| := by
    conv_rhs => rw [← Rat.num_div_den q, abs_div, Nat.abs_cast]
    rw [Nat.cast_natAbs, Int.cast_abs]
  rw [nearest, Binary64.ofBinary64_nearest _ q.den_pos, quotient]
  simp only [decide_eq_true_eq]

theorem nearest_of_nonneg {q : ℚ} (nonneg : 0 ≤ q) : nearest q =
    if Binary64.rounded q < Binary64.ceiling then .finite (Binary64.rounded q)
    else .infinite false := by
  have sign : ¬ q < 0 := not_lt.2 nonneg
  simp only [nearest_eq, abs_of_nonneg nonneg, sign, if_false, decide_false]

theorem nearest_zero : nearest 0 = .finite 0 := by
  rw [nearest_of_nonneg le_rfl, Binary64.rounded_zero, if_pos Binary64.ceiling_pos]

end Extended

namespace Binary64

/-- The least number that is rounded to infinity: the middle between the greatest double and the
next power of two. -/
def overflow : ℚ := 2 ^ 1024 - 2 ^ 970

theorem zpow_greatest_add (k : ℕ) :
    (2 : ℚ) ^ (greatestExponent + k) = 2 ^ k * 2 ^ greatestExponent := by
  rw [zpow_add₀ two_ne_zero, zpow_natCast, mul_comm]

theorem ceiling_eq : ceiling = 2 ^ 53 * 2 ^ greatestExponent := zpow_greatest_add 53

theorem overflow_eq : overflow = (2 ^ 53 - 1 / 2) * 2 ^ greatestExponent := by
  have power (k : ℕ) : (2 : ℚ) ^ (970 + k) = 2 ^ 970 * 2 ^ k := pow_add _ _ _
  have unit : (2 : ℚ) ^ greatestExponent = 2 ^ 970 * 2 ^ 1 := power 1
  rw [overflow, unit, power 54]
  generalize (2 : ℚ) ^ 970 = half
  ring

theorem rounded_lt_ceiling_iff {x : ℚ} (nonneg : 0 ≤ x) : rounded x < ceiling ↔ x < overflow := by
  have unit : (0 : ℚ) < 2 ^ greatestExponent := by positivity
  have last : (2 : ℚ) ^ (greatestExponent + 52) = 2 ^ 52 * 2 ^ greatestExponent :=
    zpow_greatest_add 52
  obtain below | above := lt_or_ge x (2 ^ (greatestExponent + 52))
  · -- Nothing below the last binade is rounded beyond it.
    have most : rounded x ≤ 2 ^ (greatestExponent + 52) := by
      have power : rounded (2 ^ (greatestExponent + 52)) = 2 ^ (greatestExponent + 52) := by
        simpa [exactly] using rounded_exactly (m := 1) (by norm_num) (by decide)
      exact power ▸ rounded_mono nonneg below.le
    refine iff_of_true ?_ ?_
    · rw [ceiling_eq]
      nlinarith
    · rw [overflow_eq]
      nlinarith
  obtain inside | beyond := lt_or_ge x ceiling
  · have positive : 0 < x := lt_of_lt_of_le (by positivity) above
    have least := (Int.zpow_le_iff_le_log one_lt_two positive).1 (by exact_mod_cast above)
    have most := (Int.lt_zpow_iff_log_lt one_lt_two positive).1 (by exact_mod_cast inside)
    have grid : gridOf x = greatestExponent := by
      unfold gridOf leastExponent greatestExponent at *
      omega
    have whole : ((2 ^ 53 : ℤ) : ℚ) = 2 ^ 53 := by norm_num
    rw [rounded, grid, roundOn, ceiling_eq, ← whole, mul_lt_mul_iff_left₀ unit, Int.cast_lt,
      roundEven_lt_iff (by norm_num), whole, overflow_eq, div_lt_iff₀ unit]
  · have least := zpow_le_rounded beyond (by decide)
    refine iff_of_false (not_lt.2 least) (not_lt.2 (le_trans ?_ beyond))
    rw [overflow_eq, ceiling_eq]
    nlinarith

theorem overflow_pos : 0 < overflow := by
  rw [overflow_eq]
  have unit : (0 : ℚ) < 2 ^ greatestExponent := by positivity
  nlinarith

theorem nearest_of_lt {q : ℚ} (nonneg : 0 ≤ q) (inside : q < overflow) :
    Extended.nearest q = .finite (rounded q) := by
  rw [Extended.nearest_of_nonneg nonneg, if_pos ((rounded_lt_ceiling_iff nonneg).2 inside)]

theorem nearest_of_overflow {q : ℚ} (beyond : overflow ≤ q) :
    Extended.nearest q = .infinite false := by
  have nonneg : 0 ≤ q := overflow_pos.le.trans beyond
  rw [Extended.nearest_of_nonneg nonneg,
    if_neg (mt (rounded_lt_ceiling_iff nonneg).1 (not_lt.2 beyond))]

/-- A magnitude with its sign. -/
def signed (negative : Bool) (x : ℚ) : ℚ := if negative then -x else x

theorem exactly_nonneg (m : ℕ) (e : ℤ) : 0 ≤ exactly m e := by
  unfold exactly
  positivity

theorem ofBinary64_nearest_ratio (negative : Bool) (k : ℕ) (e : ℤ) :
    Extended.ofBinary64 (nearest negative (ratio k e).1 (ratio k e).2) =
      .nearest (signed negative (exactly k e)) := by
  rw [ofBinary64_nearest negative (ratio_den_pos k e), ← exactly_eq_ratio]
  cases negative with
  | false => exact (Extended.nearest_of_nonneg (exactly_nonneg k e)).symm
  | true =>
    have magnitude : |-exactly k e| = exactly k e := by
      rw [abs_neg, abs_of_nonneg (exactly_nonneg k e)]
    obtain zero | positive := (exactly_nonneg k e).eq_or_lt
    · rw [← zero, rounded_zero, signed, neg_zero, ite_self, Extended.nearest_zero,
        if_pos ceiling_pos]
    · simp [signed, Extended.nearest_eq, magnitude, positive]

theorem exactly_add (a b : ℕ) (e : ℤ) : exactly (a + b) e = exactly a e + exactly b e := by
  rw [exactly, exactly, exactly, Nat.cast_add, add_mul]

theorem exactly_sub {a b : ℕ} (h : b ≤ a) (e : ℤ) :
    exactly (a - b) e = exactly a e - exactly b e := by
  rw [exactly, exactly, exactly, Nat.cast_sub h, sub_mul]

theorem ofBinary64_addOn (e : ℤ) (s t : Bool) (a b : ℕ) :
    Extended.ofBinary64 (addOn e s a t b) =
      .nearest (signed s (exactly a e) + signed t (exactly b e)) := by
  unfold addOn
  dsimp only
  split_ifs with same cancel less
  · subst same
    rw [ofBinary64_nearest_ratio, exactly_add]
    cases s <;> simp [signed, add_comm]
  · obtain rfl : t = !s := by cases s <;> cases t <;> simp_all
    have none : signed s (exactly a e) + signed (!s) (exactly b e) = 0 := by
      cases s <;> simp [signed, cancel]
    rw [none, Extended.nearest_zero, ofBinary64_finite]
    simp [exactly]
  · obtain rfl : t = !s := by cases s <;> cases t <;> simp_all
    rw [ofBinary64_nearest_ratio, exactly_sub less.le]
    cases s <;> simp [signed, sub_eq_add_neg, add_comm]
  · obtain rfl : t = !s := by cases s <;> cases t <;> simp_all
    rw [ofBinary64_nearest_ratio, exactly_sub (by omega)]
    cases s <;> simp [signed, sub_eq_add_neg, add_comm]

variable {x y : Binary64} {p q : ℚ}

/-- The sum of doubles is the exact sum, rounded. -/
theorem ofBinary64_add (hx : Extended.ofBinary64 x = .finite p)
    (hy : Extended.ofBinary64 y = .finite q) :
    Extended.ofBinary64 (add x y) = .nearest (p + q) := by
  match x, y with
  | .finite s m e, .finite t n r =>
    rw [ofBinary64_finite] at hx hy
    obtain rfl := Extended.finite.inj hx
    obtain rfl := Extended.finite.inj hy
    rw [add, ofBinary64_addOn, exactly_shift _ (min_le_left e r),
      exactly_shift _ (min_le_right e r)]
    rfl

end Binary64

end ExpressionArt
