import ExpressionArt.Number.Shortest
import ExpressionArt.Proofs.Number.Nearest
import ExpressionArt.Proofs.Number.Parts
import Mathlib.Data.Nat.Cast.Order.Field

/-!
# Shortest decimals read back

The shortest decimal of a double lies in the interval of the reals that round to it: seventeen
digits leave a grid so fine that a neighbour of the value on it cannot miss the interval. The
intervals of two doubles have at most an end in common, and that end belongs to one of them only. So
a shortest decimal is one double's, not another's.
-/

namespace ExpressionArt

namespace Decimal

open Binary64

/-- The rational that a decimal stands for. -/
def value (d : Decimal) : ℚ := d.digits * 10 ^ d.exponent

theorem zpow_eq_div (e : Int) : (10 : ℚ) ^ e = 10 ^ e.toNat / 10 ^ (-e).toNat := by
  obtain ⟨k, rfl | rfl⟩ := e.eq_nat_or_neg
  · simp
  · simp

theorem value_eq_ratio (d : Decimal) : d.value = (d.ratio.1 : ℚ) / d.ratio.2 := by
  simp only [value, Decimal.ratio, Nat.pow_eq, Nat.cast_mul, Nat.cast_pow, Nat.cast_ofNat]
  rw [zpow_eq_div, mul_div_assoc]

theorem ratio_pos (d : Decimal) : 0 < d.ratio.2 := Nat.pow_pos (by decide)

section

variable {a b : Nat × Nat} (ha : 0 < a.2) (hb : 0 < b.2)
include ha hb

theorem ratioLe_iff : ratioLe a b ↔ (a.1 : ℚ) / a.2 ≤ (b.1 : ℚ) / b.2 := by
  have ha' : (0 : ℚ) < a.2 := by exact_mod_cast ha
  have hb' : (0 : ℚ) < b.2 := by exact_mod_cast hb
  rw [div_le_div_iff₀ ha' hb', ratioLe, decide_eq_true_iff]
  exact_mod_cast Iff.rfl

theorem ratioLt_iff : ratioLt a b ↔ (a.1 : ℚ) / a.2 < (b.1 : ℚ) / b.2 := by
  have ha' : (0 : ℚ) < a.2 := by exact_mod_cast ha
  have hb' : (0 : ℚ) < b.2 := by exact_mod_cast hb
  rw [div_lt_div_iff₀ ha' hb', ratioLt, decide_eq_true_iff]
  exact_mod_cast Iff.rfl

end

variable {d : Decimal} {m m' : Nat} {q q' : Int}

/-- The lower end of the interval of `m · 2 ^ q`. -/
def lower (m : Nat) (q : Int) : ℚ := exactly (lowerQuarters m q) (q - 2)

/-- The upper end of the interval of `m · 2 ^ q`. -/
def upper (m : Nat) (q : Int) : ℚ := exactly (upperQuarters m) (q - 2)

/-- A decimal rounds to a double if it lies between the ends, which count for an even mantissa. -/
theorem readsAs_iff : d.readsAs m q ↔
    lower m q ≤ d.value ∧ d.value ≤ upper m q ∧
      (m % 2 = 1 → lower m q ≠ d.value ∧ d.value ≠ upper m q) := by
  have low := ratio_den_pos (lowerQuarters m q) (q - 2)
  have high := ratio_den_pos (upperQuarters m) (q - 2)
  have here := ratio_pos d
  rw [lower, upper, exactly_eq_ratio, exactly_eq_ratio, value_eq_ratio, readsAs]
  split
  · next even =>
    rw [Bool.and_eq_true, ratioLe_iff low here, ratioLe_iff here high]
    have : ¬ m % 2 = 1 := by omega
    tauto
  · next odd =>
    rw [Bool.and_eq_true, ratioLt_iff low here, ratioLt_iff here high, lt_iff_le_and_ne,
      lt_iff_le_and_ne]
    have : m % 2 = 1 := by omega
    tauto

theorem exactly_add (n k : Nat) (q : Int) : exactly n (q + k) = exactly (n * 2 ^ k) q := by
  rw [exactly, exactly, zpow_add₀ two_ne_zero, zpow_natCast]
  push_cast
  ring

theorem exactly_lt {a b : Nat} (h : a < b) (q : Int) : exactly a q < exactly b q := by
  unfold exactly
  gcongr

theorem exactly_le {a b : Nat} (h : a ≤ b) (q : Int) : exactly a q ≤ exactly b q := by
  unfold exactly
  gcongr

/-- The interval of a double ends where that of any greater one starts, or before; if they meet, one
of the mantissas is odd. -/
theorem upper_le_lower (small : Canonical m q) (large : Canonical m' q')
    (order : q < q' ∨ q = q' ∧ m < m') :
    upper m q < lower m' q' ∨ upper m q ≤ lower m' q' ∧ (m % 2 = 1 ∨ m' % 2 = 1) := by
  obtain ⟨short, least, leading⟩ := small
  obtain ⟨-, -, leading'⟩ := large
  obtain ⟨k, rfl⟩ : ∃ k : Nat, q' = q + k := ⟨(q' - q).toNat, by omega⟩
  have scaled : lower m' (q + k) = exactly (lowerQuarters m' (q + k) * 2 ^ k) (q - 2) := by
    rw [lower, ← exactly_add]
    congr 1
    omega
  have quarters : upperQuarters m < lowerQuarters m' (q + k) * 2 ^ k ∨
      upperQuarters m ≤ lowerQuarters m' (q + k) * 2 ^ k ∧ (m % 2 = 1 ∨ m' % 2 = 1) := by
    simp only [upperQuarters, lowerQuarters, Nat.pow_eq]
    cases k with
    | zero => split <;> omega
    | succ k =>
      -- A coarser grid at least doubles the quarters.
      have double : 2 ≤ 2 ^ (k + 1) := Nat.le_self_pow (by omega) 2
      have coarse := Nat.mul_le_mul_left (lowerQuarters m' (q + (k + 1 : Nat))) double
      simp only [lowerQuarters, Nat.pow_eq] at coarse
      split at coarse <;> split <;> omega
  rw [scaled, upper]
  exact quarters.imp (exactly_lt · _) fun ⟨le, odd⟩ => ⟨exactly_le le _, odd⟩

/-- No number rounds to two doubles. -/
theorem readsAs_unique {d' : Decimal} (h : Canonical m q) (h' : Canonical m' q')
    (reads : d.readsAs m q) (reads' : d'.readsAs m' q') (same : d.value = d'.value) :
    m = m' ∧ q = q' := by
  have apart : ∀ {d d' : Decimal} {m m' : Nat} {q q' : Int}, Canonical m q → Canonical m' q' →
      d.readsAs m q → d'.readsAs m' q' → d.value = d'.value → ¬(q < q' ∨ q = q' ∧ m < m') := by
    intro d d' m m' q q' h h' reads reads' same order
    obtain ⟨-, below, inner⟩ := readsAs_iff.1 reads
    obtain ⟨above, -, inner'⟩ := readsAs_iff.1 reads'
    rw [← same] at above inner'
    obtain less | ⟨le, odd | odd⟩ := upper_le_lower h h' order
    · exact absurd (above.trans below) (not_le.2 less)
    · exact (inner odd).2 (below.antisymm (le.trans above))
    · exact (inner' odd).1 (above.antisymm (below.trans le))
  have less := apart h h' reads reads' same
  have greater := apart h' h reads' reads same.symm
  omega

/-! ## Some neighbour reads back -/

theorem digitCount_le_iff {n k : Nat} (hk : 0 < k) : digitCount n ≤ k ↔ n < 10 ^ k :=
  Nat.length_toDigits_le_iff (by decide) hk

theorem lt_pow_digitCount (n : Nat) : n < 10 ^ digitCount n :=
  (digitCount_le_iff Nat.length_toDigits_pos).1 (Nat.le_refl _)

theorem pow_le_of_digitCount {n : Nat} (hn : 0 < n) : 10 ^ (digitCount n - 1) ≤ n := by
  by_contra! less
  have some : 0 < digitCount n - 1 := by
    by_contra! none
    rw [Nat.le_zero.1 none, Nat.pow_zero] at less
    omega
  have shorter := (digitCount_le_iff some).2 less
  omega

/-- A positive double is at least the power of ten that its magnitude names. -/
theorem zpow_magnitude_le (hm : 0 < m) (q : Int) :
    (10 : ℚ) ^ (magnitude m q - 1) ≤ exactly m q := by
  have hd := ratio_den_pos m q
  have hn : 0 < (Binary64.ratio m q).1 := Nat.mul_pos hm (Nat.pow_pos (by decide))
  rw [exactly_eq_ratio, magnitude]
  generalize Binary64.ratio m q = r at hd hn ⊢
  obtain ⟨n, d⟩ := r
  dsimp only at hd hn ⊢
  have hd' : (0 : ℚ) < d := by exact_mod_cast hd
  have hn' : (0 : ℚ) < n := by exact_mod_cast hn
  split
  · next whole =>
    have low := pow_le_of_digitCount (Nat.div_pos whole hd)
    have some : 0 < digitCount (n / d) := Nat.length_toDigits_pos
    have power : ((digitCount (n / d) : Nat) : Int) - 1 = (digitCount (n / d) - 1 : Nat) := by
      omega
    rw [power, zpow_natCast]
    calc ((10 : ℚ) ^ (digitCount (n / d) - 1)) ≤ ((n / d : Nat) : ℚ) := by exact_mod_cast low
      _ ≤ n / d := Nat.cast_div_le
  · next fraction =>
    have high := (Nat.div_lt_iff_lt_mul hn).1 (lt_pow_digitCount (d / n))
    have power : (1 - (digitCount (d / n) : Int)) - 1 = -(digitCount (d / n) : Int) := by omega
    rw [power, zpow_neg, zpow_natCast, le_div_iff₀ hd', inv_mul_le_iff₀ (by positivity)]
    exact_mod_cast high.le

/-- A double lies between its neighbours on a decimal grid. -/
theorem floorOn_bounds (e : Int) (m : Nat) (q : Int) :
    (floorOn e m q).value ≤ exactly m q ∧ exactly m q < (floorOn e m q).value + 10 ^ e := by
  have hd := ratio_den_pos m q
  rw [exactly_eq_ratio, floorOn, value, zpow_eq_div]
  generalize Binary64.ratio m q = r at hd ⊢
  obtain ⟨n, d⟩ := r
  dsimp only [Nat.pow_eq] at hd ⊢
  have hd' : (0 : ℚ) < d := by exact_mod_cast hd
  generalize (-e).toNat = up
  generalize e.toNat = down
  have low : (n * 10 ^ up / (d * 10 ^ down)) * (d * 10 ^ down) ≤ n * 10 ^ up :=
    Nat.div_mul_le_self ..
  have high : n * 10 ^ up < (n * 10 ^ up / (d * 10 ^ down) + 1) * (d * 10 ^ down) := by
    rw [Nat.add_one_mul]
    exact Nat.lt_div_mul_add (Nat.mul_pos hd (by positivity))
  generalize n * 10 ^ up / (d * 10 ^ down) = k at low high
  have low' : (k : ℚ) * (d * 10 ^ down) ≤ n * 10 ^ up := by exact_mod_cast low
  have high' : (n : ℚ) * 10 ^ up < (k + 1) * (d * 10 ^ down) := by exact_mod_cast high
  constructor
  · rw [← mul_div_assoc, div_le_div_iff₀ (by positivity) hd']
    linarith
  · rw [← add_one_mul, ← mul_div_assoc, div_lt_div_iff₀ hd' (by positivity)]
    linarith

theorem exactly_quarters (m : Nat) (q : Int) : exactly m q = exactly (4 * m) (q - 2) := by
  have shifted := exactly_add m 2 (q - 2)
  rw [Nat.cast_ofNat, Int.sub_add_cancel, Nat.mul_comm] at shifted
  exact shifted

theorem lower_lt (hm : 0 < m) (q : Int) : lower m q < exactly m q := by
  rw [lower, exactly_quarters m]
  refine exactly_lt ?_ _
  unfold lowerQuarters
  split <;> omega

theorem lt_upper (m : Nat) (q : Int) : exactly m q < upper m q := by
  rw [upper, exactly_quarters m]
  exact exactly_lt (Nat.lt_add_of_pos_right (by decide)) _

/-- No interval of a double is as narrow as a grid of seventeen digits. -/
theorem lt_upper_sub_lower (h : Canonical m q) (hm : 0 < m) {step : ℚ}
    (fine : step * 10 ^ 16 ≤ exactly m q) : step < upper m q - lower m q := by
  have quarters : 4 * m < (upperQuarters m - lowerQuarters m q) * 10 ^ 16 := by
    have short := h.short
    simp only [upperQuarters, lowerQuarters, Nat.pow_eq]
    split <;> omega
  have order : lowerQuarters m q ≤ upperQuarters m := by
    simp only [upperQuarters, lowerQuarters]
    split <;> omega
  have wide : exactly m q < (upper m q - lower m q) * 10 ^ 16 := by
    calc exactly m q = exactly (4 * m) (q - 2) := exactly_quarters m q
      _ < exactly ((upperQuarters m - lowerQuarters m q) * 10 ^ 16) (q - 2) :=
        exactly_lt quarters _
      _ = (upper m q - lower m q) * 10 ^ 16 := by
        rw [upper, lower, exactly, exactly, exactly]
        push_cast [order]
        ring
  linarith

theorem value_pos_of_readsAs (hm : 0 < m) (reads : d.readsAs m q) : 0 < d.value := by
  refine lt_of_lt_of_le ?_ (readsAs_iff.1 reads).1
  have some : 0 < lowerQuarters m q := by
    unfold lowerQuarters
    split <;> omega
  have quarters : (0 : ℚ) < lowerQuarters m q := by exact_mod_cast some
  unfold lower exactly
  positivity

theorem readsAs_of_inside (low : lower m q < d.value) (high : d.value < upper m q) :
    d.readsAs m q :=
  readsAs_iff.2 ⟨low.le, high.le, fun _ => ⟨low.ne, high.ne⟩⟩

theorem nearest?_isSome_of_readsAs {e : Int} (h : (floorOn e m q).readsAs m q ∨
    (⟨(floorOn e m q).digits + 1, e⟩ : Decimal).readsAs m q) : (nearest? e m q).isSome := by
  unfold nearest?
  dsimp only
  split <;> simp_all

/-- A grid of seventeen digits has a decimal that reads back. -/
theorem nearest?_isSome (h : Canonical m q) (hm : 0 < m) :
    (nearest? (magnitude m q - (16 + 1 : Nat)) m q).isSome := by
  have fine : (10 : ℚ) ^ (magnitude m q - (16 + 1 : Nat)) * 10 ^ 16 ≤ exactly m q := by
    calc (10 : ℚ) ^ (magnitude m q - (16 + 1 : Nat)) * 10 ^ 16
        = 10 ^ (magnitude m q - 1) := by
          rw [← zpow_natCast, ← zpow_add₀ (by norm_num)]
          congr 1
          push_cast
          omega
      _ ≤ exactly m q := zpow_magnitude_le hm q
  have narrow := lt_upper_sub_lower h hm fine
  generalize magnitude m q - (16 + 1 : Nat) = e at narrow ⊢
  obtain ⟨below, above⟩ := floorOn_bounds e m q
  have next : (⟨(floorOn e m q).digits + 1, e⟩ : Decimal).value =
      (floorOn e m q).value + 10 ^ e := by
    simp only [value, floorOn]
    push_cast
    ring
  rw [← next] at above
  -- Were both neighbours outside, the grid would be as wide as the interval.
  apply nearest?_isSome_of_readsAs
  by_contra! outside
  obtain ⟨low, high⟩ := outside
  have low : (floorOn e m q).value ≤ lower m q := by
    by_contra! inside
    exact low (readsAs_of_inside inside (below.trans_lt (lt_upper m q)))
  have high : upper m q ≤ (⟨(floorOn e m q).digits + 1, e⟩ : Decimal).value := by
    by_contra! inside
    exact high (readsAs_of_inside ((lower_lt hm q).trans above) inside)
  rw [next] at high
  linarith

/-- The shortest decimal of a positive double reads back as this double. -/
theorem readsAs_shortest_of_canonical (h : Canonical m q) (hm : 0 < m) :
    (shortest m q).readsAs m q = true :=
  readsAs_shortest (by decide) (nearest?_isSome h hm)

end Decimal

end ExpressionArt
