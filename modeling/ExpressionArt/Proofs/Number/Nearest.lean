import ExpressionArt.Number.Nearest
import Mathlib.Algebra.Order.Field.Power
import Mathlib.Data.Rat.Floor
import Mathlib.Tactic.FieldSimp
import Mathlib.Tactic.Linarith
import Mathlib.Tactic.NormNum
import Mathlib.Tactic.Positivity
import Mathlib.Tactic.Ring

/-!
# Rounding to the nearest double

The double nearest to a quotient is within half a unit of its grid, as rationals. The grid is told
by any power of two above the quotient.
-/

namespace ExpressionArt

namespace Binary64

/-- The rational that a mantissa and an exponent stand for. -/
def exactly (m : Nat) (q : Int) : ℚ := m * 2 ^ q

theorem zpow_eq_div (q : Int) : (2 : ℚ) ^ q = 2 ^ q.toNat / 2 ^ (-q).toNat := by
  obtain ⟨k, rfl | rfl⟩ := q.eq_nat_or_neg
  · simp
  · simp

theorem exactly_eq_ratio (m : Nat) (q : Int) :
    exactly m q = ((ratio m q).1 : ℚ) / (ratio m q).2 := by
  simp only [exactly, ratio, Nat.pow_eq, Nat.cast_mul, Nat.cast_pow, Nat.cast_ofNat]
  rw [zpow_eq_div, mul_div_assoc]

/-- A mantissa is shifted to a finer power of two. -/
theorem exactly_shift (m : ℕ) {e q : ℤ} (h : e ≤ q) :
    exactly (m * Nat.pow 2 (q - e).toNat) e = exactly m q := by
  obtain ⟨k, rfl⟩ := Int.le.dest h
  have shift : (e + k - e).toNat = k := by omega
  rw [shift, exactly, exactly, zpow_add₀ two_ne_zero, zpow_natCast, Nat.pow_eq]
  push_cast
  ring

/-- Cutting a positive double leaves its integer part. -/
theorem truncate_eq_floor (m : Nat) (q : Int) : truncate false m q = ⌊exactly m q⌋ := by
  obtain ⟨k, rfl | rfl⟩ := q.eq_nat_or_neg
  · have whole : exactly m k = ((m * 2 ^ k : Nat) : ℚ) := by simp [exactly]
    rw [whole, Int.floor_natCast]
    simp [truncate]
  · by_cases zero : k = 0
    · subst zero
      simp [truncate, exactly]
    · have split : exactly m (-k) = (m : ℚ) / ((2 ^ k : Nat) : ℚ) := by
        simp [exactly, div_eq_mul_inv]
      have negative : ¬ (0 : Int) ≤ -k := by omega
      rw [split, Rat.floor_natCast_div_natCast, truncate, if_neg negative]
      simp

variable {n d : Nat}

theorem isBelowPower_iff (hd : 0 < d) (e : Int) :
    isBelowPower n d e ↔ (n : ℚ) / d < 2 ^ e := by
  have hd' : (0 : ℚ) < d := by exact_mod_cast hd
  have cross : isBelowPower n d e ↔ n * 2 ^ (-e).toNat < d * 2 ^ e.toNat := by
    simp [isBelowPower]
  rw [cross, zpow_eq_div, div_lt_div_iff₀ hd' (by positivity), mul_comm _ (d : ℚ)]
  exact_mod_cast Iff.rfl

/-- A quotient is not below the power of two of its binade. -/
theorem zpow_binade_le (hn : 0 < n) (hd : 0 < d) : (2 : ℚ) ^ binade n d ≤ (n : ℚ) / d := by
  have hd' : (0 : ℚ) < d := by exact_mod_cast hd
  simp only [binade]
  split
  · have low : (2 : ℚ) ^ n.log2 ≤ n := by exact_mod_cast Nat.log2_self_le hn.ne'
    have high : (d : ℚ) ≤ 2 ^ (d.log2 + 1) := by exact_mod_cast Nat.lt_log2_self.le
    rw [le_div_iff₀ hd']
    calc (2 : ℚ) ^ ((n.log2 : Int) - d.log2 - 1) * d
        ≤ 2 ^ ((n.log2 : Int) - d.log2 - 1) * 2 ^ (d.log2 + 1) := by gcongr
      _ = 2 ^ n.log2 := by
        rw [← zpow_natCast, ← zpow_natCast, ← zpow_add₀ two_ne_zero]
        congr 1
        push_cast
        omega
      _ ≤ n := low
  · next above =>
    rw [isBelowPower_iff hd] at above
    exact not_lt.1 above

/-- The grid of a quotient below `2 ^ k` is finer by the length of a mantissa. -/
theorem gridExponent_le (hd : 0 < d) {k : Nat} (below : (n : ℚ) / d < 2 ^ k) :
    gridExponent n d ≤ k - 53 := by
  have less : binade n d < k := by
    obtain rfl | hn := n.eq_zero_or_pos
    · have zero : isBelowPower 0 d (-d.log2) := by
        rw [isBelowPower_iff hd]
        simp
      simp only [binade, Nat.log2_zero, Nat.cast_zero, zero_sub, zero, if_true]
      omega
    · have power : (2 : ℚ) ^ binade n d < 2 ^ (k : Int) := by
        rw [zpow_natCast]
        exact (zpow_binade_le hn hd).trans_lt below
      exact (zpow_lt_zpow_iff_right₀ one_lt_two).1 power
  unfold gridExponent leastExponent
  omega

/-- A count of units is within half a unit of the quotient. -/
theorem units_near (hd : 0 < d) (q : Int) :
    |exactly (units n d q) q - (n : ℚ) / d| ≤ 2 ^ q / 2 := by
  obtain ⟨low, high⟩ := units_bounds n q hd
  have hd' : (0 : ℚ) < d := by exact_mod_cast hd
  simp only [Nat.pow_eq] at low high
  have low' : 2 * ((n : ℚ) * 2 ^ (-q).toNat) ≤ (2 * units n d q + 1) * (d * 2 ^ q.toNat) := by
    exact_mod_cast low
  have high' : 2 * (units n d q : ℚ) * (d * 2 ^ q.toNat) ≤
      2 * (n * 2 ^ (-q).toNat) + d * 2 ^ q.toNat := by
    exact_mod_cast high
  have positive : (0 : ℚ) < 2 ^ (-q).toNat := by positivity
  rw [exactly, zpow_eq_div, abs_le]
  constructor
  · rw [neg_le_sub_iff_le_add, div_le_iff₀ hd']
    field_simp
    linarith
  · rw [sub_le_iff_le_add]
    field_simp
    linarith

/-- What is below `2 ^ 1000` rounds to a double within half a unit of its grid. -/
theorem nearest_near (negative : Bool) (hd : 0 < d) {k : Nat} (below : (n : ℚ) / d < 2 ^ k)
    (small : k ≤ 1000) :
    ∃ m q, nearest negative n d = .finite negative m q ∧
      |exactly m q - (n : ℚ) / d| ≤ 2 ^ ((k : Int) - 53) / 2 := by
  have grid := gridExponent_le hd below
  have near : |exactly (units n d (gridExponent n d)) (gridExponent n d) - (n : ℚ) / d| ≤
      2 ^ ((k : Int) - 53) / 2 := by
    refine (units_near hd _).trans ?_
    gcongr
    exact one_le_two
  by_cases full : units n d (gridExponent n d) = Nat.pow 2 53
  · have range : ¬ greatestExponent < gridExponent n d + 1 := by
      unfold greatestExponent
      omega
    have same : exactly (Nat.pow 2 52) (gridExponent n d + 1) =
        exactly (units n d (gridExponent n d)) (gridExponent n d) := by
      rw [full, exactly, exactly, zpow_add_one₀ two_ne_zero]
      norm_num
      ring
    refine ⟨Nat.pow 2 52, gridExponent n d + 1, ?_, same ▸ near⟩
    simp only [nearest, full, if_true, if_neg range]
  · have range : ¬ greatestExponent < gridExponent n d := by
      unfold greatestExponent
      omega
    refine ⟨_, _, ?_, near⟩
    simp only [nearest, if_neg full, if_neg range]

theorem ratio_mul (m : Nat) (q : Int) (count : Nat) :
    (((ratio m q).1 * count : Nat) : ℚ) / (ratio m q).2 = exactly m q * count := by
  rw [exactly_eq_ratio, Nat.cast_mul]
  ring

/-- The product of a double below one with a count is within half a unit of the count's grid. -/
theorem times_near (negative : Bool) {m count k : Nat} {q : Int} (below : exactly m q < 1)
    (few : count ≤ 2 ^ k) (small : k ≤ 1000) :
    ∃ m' q', (finite negative m q).times count = .finite negative m' q' ∧
      |exactly m' q' - exactly m q * count| ≤ 2 ^ ((k : Int) - 53) / 2 := by
  have bound : (((ratio m q).1 * count : Nat) : ℚ) / (ratio m q).2 < 2 ^ k := by
    have few' : (count : ℚ) ≤ 2 ^ k := by exact_mod_cast few
    rw [ratio_mul]
    obtain rfl | any := count.eq_zero_or_pos
    · simp
    · have any' : (0 : ℚ) < count := by exact_mod_cast any
      calc exactly m q * count < 1 * count := by gcongr
        _ ≤ 2 ^ k := by rwa [one_mul]
  obtain ⟨m', q', eq, near⟩ := nearest_near negative (ratio_den_pos m q) bound small
  rw [ratio_mul] at near
  exact ⟨m', q', eq, near⟩

end Binary64

end ExpressionArt
