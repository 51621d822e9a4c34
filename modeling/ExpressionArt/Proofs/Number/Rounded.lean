import ExpressionArt.Number.Extended
import ExpressionArt.Proofs.Number.Nearest
import Mathlib.Data.Int.Log

/-!
# Rounding as a function of rationals

Rounding to the nearest integer, a half to the even one, gives rounding to multiples of a power of
two, and this gives rounding to 53 significant bits and to the grid of the doubles around a number.
The double nearest to a quotient depends on the quotient alone, keeps the order, and is the quotient
itself where that is a double.
-/

namespace ExpressionArt

/-! ## Integers -/

/-- The integer nearest to a rational; a half goes to the even neighbour. -/
def roundEven (x : ℚ) : ℤ :=
  if 2 * Int.fract x < 1 ∨ (2 * Int.fract x = 1 ∧ ⌊x⌋ % 2 = 0) then ⌊x⌋ else ⌊x⌋ + 1

theorem floor_le_roundEven (x : ℚ) : ⌊x⌋ ≤ roundEven x := by
  unfold roundEven
  split_ifs <;> omega

theorem roundEven_le_floor (x : ℚ) : roundEven x ≤ ⌊x⌋ + 1 := by
  unfold roundEven
  split_ifs <;> omega

@[simp] theorem roundEven_intCast (k : ℤ) : roundEven k = k := by
  simp [roundEven]

theorem roundEven_mono {x y : ℚ} (h : x ≤ y) : roundEven x ≤ roundEven y := by
  obtain same | less := (Int.floor_le_floor h).eq_or_lt
  · have rest : Int.fract x ≤ Int.fract y := by
      rw [Int.fract, Int.fract, same]
      exact sub_le_sub_right h _
    by_cases down : 2 * Int.fract y < 1 ∨ (2 * Int.fract y = 1 ∧ ⌊y⌋ % 2 = 0)
    · -- Where the larger number is rounded down, the smaller one is too.
      have down' : 2 * Int.fract x < 1 ∨ (2 * Int.fract x = 1 ∧ ⌊x⌋ % 2 = 0) := by
        obtain below | ⟨half, even⟩ := down
        · exact .inl (by linarith)
        · obtain less | equal := rest.lt_or_eq
          · exact .inl (by linarith)
          · exact .inr ⟨by linarith, same ▸ even⟩
      rw [roundEven, roundEven, if_pos down, if_pos down', same]
    · calc roundEven x ≤ ⌊x⌋ + 1 := roundEven_le_floor x
        _ = roundEven y := by rw [same, roundEven, if_neg down]
  · calc roundEven x ≤ ⌊x⌋ + 1 := roundEven_le_floor x
      _ ≤ ⌊y⌋ := less
      _ ≤ roundEven y := floor_le_roundEven y

theorem roundDiv_eq_roundEven (n : ℕ) {d : ℕ} (hd : 0 < d) :
    (roundDiv n d : ℤ) = roundEven ((n : ℚ) / d) := by
  have hd' : (0 : ℚ) < d := by exact_mod_cast hd
  have whole : ⌊(n : ℚ) / d⌋ = ((n / d : ℕ) : ℤ) := Rat.floor_natCast_div_natCast n d
  have rest : Int.fract ((n : ℚ) / d) = ((n % d : ℕ) : ℚ) / d :=
    Int.fract_div_natCast_eq_div_natCast_mod
  have below : 2 * Int.fract ((n : ℚ) / d) < 1 ↔ 2 * (n % d) < d := by
    rw [rest, ← mul_div_assoc, div_lt_one hd']
    exact_mod_cast Iff.rfl
  have half : 2 * Int.fract ((n : ℚ) / d) = 1 ↔ 2 * (n % d) = d := by
    rw [rest, ← mul_div_assoc, div_eq_one_iff_eq hd'.ne']
    exact_mod_cast Iff.rfl
  have even : ((n / d : ℕ) : ℤ) % 2 = 0 ↔ n / d % 2 = 0 := by omega
  unfold roundDiv roundEven
  simp only [below, half, whole, even]
  split_ifs <;> simp

/-! ## Multiples of a power of two -/

/-- A number rounded to a multiple of `2 ^ q`. -/
def roundOn (q : ℤ) (x : ℚ) : ℚ := roundEven (x / 2 ^ q) * 2 ^ q

theorem roundOn_mono (q : ℤ) {x y : ℚ} (h : x ≤ y) : roundOn q x ≤ roundOn q y := by
  have positive : (0 : ℚ) < 2 ^ q := by positivity
  have quotients : x / 2 ^ q ≤ y / 2 ^ q := by gcongr
  unfold roundOn
  gcongr
  exact roundEven_mono quotients

/-- A multiple of a coarser power of two stays as it is. -/
theorem roundOn_exactly {m : ℕ} {p q : ℤ} (h : q ≤ p) :
    roundOn q (Binary64.exactly m p) = Binary64.exactly m p := by
  obtain ⟨k, rfl⟩ := Int.le.dest h
  have multiple : Binary64.exactly m (q + k) = ((m * 2 ^ k : ℤ) : ℚ) * 2 ^ q := by
    rw [Binary64.exactly, zpow_add₀ two_ne_zero, zpow_natCast]
    push_cast
    ring
  have positive : (2 : ℚ) ^ q ≠ 0 := by positivity
  rw [multiple, roundOn, mul_div_cancel_right₀ _ positive, roundEven_intCast]

theorem roundOn_zpow {p q : ℤ} (h : q ≤ p) : roundOn q (2 ^ p) = 2 ^ p := by
  simpa [Binary64.exactly] using roundOn_exactly (m := 1) h

theorem roundOn_nonneg (q : ℤ) {x : ℚ} (h : 0 ≤ x) : 0 ≤ roundOn q x := by
  have zero : roundOn q 0 = 0 := by simp [roundOn, roundEven]
  exact zero ▸ roundOn_mono q h

/-- A positive number rounded to 53 significant bits. -/
def significant (x : ℚ) : ℚ := roundOn (Int.log 2 x - 52) x

/-! ## Doubles -/

namespace Binary64

/-- The exponent of the doubles around a positive number. -/
def gridOf (x : ℚ) : ℤ := max (Int.log 2 x - 52) leastExponent

/-- What a positive number is rounded to as long as no exponent is too great. -/
def rounded (x : ℚ) : ℚ := roundOn (gridOf x) x

/-- The power of two above all doubles. -/
def ceiling : ℚ := 2 ^ (greatestExponent + 53)

@[simp] theorem rounded_zero : rounded 0 = 0 := by
  simp [rounded, roundOn, roundEven]

theorem rounded_nonneg {x : ℚ} (h : 0 ≤ x) : 0 ≤ rounded x := roundOn_nonneg _ h

/-- What is not below the least normal double is rounded to 53 significant bits. -/
theorem rounded_eq_significant {x : ℚ} (h : x = 0 ∨ 2 ^ (leastExponent + 52) ≤ x) :
    rounded x = significant x := by
  obtain rfl | normal := h
  · simp [significant, roundOn, roundEven]
  · have positive : 0 < x := lt_of_lt_of_le (by positivity) normal
    have log := (Int.zpow_le_iff_le_log one_lt_two positive).1 (by exact_mod_cast normal)
    have grid : gridOf x = Int.log 2 x - 52 := by
      unfold gridOf
      omega
    rw [rounded, grid, significant]

theorem rounded_exactly {m : ℕ} {q : ℤ} (short : m < 2 ^ 53) (least : leastExponent ≤ q) :
    rounded (exactly m q) = exactly m q := by
  obtain rfl | any := m.eq_zero_or_pos
  · simp [exactly]
  · have any' : (0 : ℚ) < m := by exact_mod_cast any
    have short' : (m : ℚ) < 2 ^ 53 := by exact_mod_cast short
    have below : exactly m q < 2 ^ (q + 53) := by
      rw [exactly, zpow_add₀ two_ne_zero, mul_comm]
      gcongr
      exact_mod_cast short'
    have positive : 0 < exactly m q := by
      unfold exactly
      positivity
    have log := (Int.lt_zpow_iff_log_lt one_lt_two positive).1 (by exact_mod_cast below)
    refine roundOn_exactly ?_
    unfold gridOf
    omega

theorem rounded_natCast {n : ℕ} (h : n < 2 ^ 53) : rounded n = n := by
  simpa [exactly] using rounded_exactly (q := 0) h (by decide)

theorem rounded_mono {x y : ℚ} (nonneg : 0 ≤ x) (h : x ≤ y) : rounded x ≤ rounded y := by
  obtain rfl | positive := nonneg.eq_or_lt
  · rw [rounded_zero]
    exact rounded_nonneg h
  · have logs : Int.log 2 x ≤ Int.log 2 y := Int.log_mono_right positive h
    obtain same | finer : gridOf x = gridOf y ∨ gridOf x < gridOf y := by
      unfold gridOf
      omega
    · rw [rounded, rounded, same]
      exact roundOn_mono _ h
    · -- A power of two lies on both grids and between the two numbers.
      have left : x ≤ 2 ^ (gridOf x + 53) := by
        refine (Int.lt_zpow_succ_log_self one_lt_two x).le.trans ?_
        refine zpow_le_zpow_right₀ one_lt_two.le ?_
        unfold gridOf
        omega
      have right : (2 : ℚ) ^ (gridOf y + 52) ≤ y := by
        refine le_trans ?_ (Int.zpow_log_le_self one_lt_two (positive.trans_le h))
        refine zpow_le_zpow_right₀ one_lt_two.le ?_
        unfold gridOf at *
        omega
      calc rounded x ≤ roundOn (gridOf x) (2 ^ (gridOf x + 53)) := roundOn_mono _ left
        _ = 2 ^ (gridOf x + 53) := roundOn_zpow (by omega)
        _ ≤ 2 ^ (gridOf y + 52) := zpow_le_zpow_right₀ one_lt_two.le (by omega)
        _ = roundOn (gridOf y) (2 ^ (gridOf y + 52)) := (roundOn_zpow (by omega)).symm
        _ ≤ rounded y := roundOn_mono _ right

/-- Rounding keeps a number below an integer that is a double. -/
theorem rounded_le_natCast {x : ℚ} {k : ℕ} (nonneg : 0 ≤ x) (h : x ≤ k) (short : k < 2 ^ 53) :
    rounded x ≤ k :=
  rounded_natCast short ▸ rounded_mono nonneg h

theorem zpow_le_rounded {x : ℚ} {p : ℤ} (h : 2 ^ p ≤ x) (least : leastExponent ≤ p) :
    2 ^ p ≤ rounded x := by
  have power : rounded (2 ^ p) = 2 ^ p := by
    simpa [exactly] using rounded_exactly (m := 1) (by norm_num) least
  exact power ▸ rounded_mono (by positivity) h

variable {n d : ℕ}

theorem lt_zpow_binade (hd : 0 < d) : (n : ℚ) / d < 2 ^ (binade n d + 1) := by
  have hd' : (0 : ℚ) < d := by exact_mod_cast hd
  simp only [binade]
  split
  · next below => rwa [sub_add_cancel, ← isBelowPower_iff hd]
  · have low : (2 : ℚ) ^ d.log2 ≤ d := by exact_mod_cast Nat.log2_self_le hd.ne'
    have high : (n : ℚ) < 2 ^ (n.log2 + 1) := by exact_mod_cast Nat.lt_log2_self
    rw [div_lt_iff₀ hd']
    calc (n : ℚ) < 2 ^ (n.log2 + 1) := high
      _ = 2 ^ ((n.log2 : Int) - d.log2 + 1) * 2 ^ d.log2 := by
        rw [← zpow_natCast, ← zpow_natCast, ← zpow_add₀ two_ne_zero]
        congr 1
        push_cast
        omega
      _ ≤ 2 ^ ((n.log2 : Int) - d.log2 + 1) * d := by gcongr

theorem binade_eq_log (hn : 0 < n) (hd : 0 < d) : binade n d = Int.log 2 ((n : ℚ) / d) := by
  have positive : (0 : ℚ) < (n : ℚ) / d := by positivity
  have above := (Int.zpow_le_iff_le_log one_lt_two positive).1
    (by exact_mod_cast zpow_binade_le hn hd)
  have below := (Int.lt_zpow_iff_log_lt one_lt_two positive).1
    (by exact_mod_cast lt_zpow_binade (n := n) hd)
  omega

theorem gridExponent_eq_gridOf (hn : 0 < n) (hd : 0 < d) :
    gridExponent n d = gridOf ((n : ℚ) / d) := by
  rw [gridExponent, gridOf, binade_eq_log hn hd]

theorem units_eq_roundEven (hd : 0 < d) (q : Int) :
    (units n d q : ℤ) = roundEven ((n : ℚ) / d / 2 ^ q) := by
  have scaled : 0 < d * Nat.pow 2 q.toNat := Nat.mul_pos hd (Nat.pow_pos (by decide))
  rw [units, roundDiv_eq_roundEven _ scaled, zpow_eq_div]
  congr 1
  simp only [Nat.pow_eq, Nat.cast_mul, Nat.cast_pow, Nat.cast_ofNat]
  field_simp

/-- The units of a quotient on the grid around it make up what it is rounded to. -/
theorem exactly_units (hd : 0 < d) :
    exactly (units n d (gridExponent n d)) (gridExponent n d) = rounded ((n : ℚ) / d) := by
  have count := units_eq_roundEven (n := n) hd (gridExponent n d)
  obtain rfl | hn := n.eq_zero_or_pos
  · have none : units 0 d (gridExponent 0 d) = 0 := by simpa [roundEven] using count
    rw [none]
    simp [exactly]
  · rw [rounded, roundOn, ← gridExponent_eq_gridOf hn hd, ← count, exactly, Int.cast_natCast]

/-- Rounding may fill the mantissa, but no more. -/
theorem units_le (hd : 0 < d) : units n d (gridExponent n d) ≤ 2 ^ 53 := by
  have grid : binade n d + 1 ≤ 53 + gridExponent n d := by
    unfold gridExponent
    omega
  have below : (n : ℚ) / d / 2 ^ gridExponent n d ≤ ((2 ^ 53 : ℤ) : ℚ) := by
    rw [div_le_iff₀ (by positivity)]
    calc (n : ℚ) / d ≤ 2 ^ (binade n d + 1) := (lt_zpow_binade hd).le
      _ ≤ 2 ^ (53 + gridExponent n d) := zpow_le_zpow_right₀ one_lt_two.le grid
      _ = ((2 ^ 53 : ℤ) : ℚ) * 2 ^ gridExponent n d := by
        rw [zpow_add₀ two_ne_zero]
        norm_num
  have count := units_eq_roundEven (n := n) hd (gridExponent n d)
  have bound := roundEven_mono below
  rw [roundEven_intCast] at bound
  omega

/-- The grid around zero is fine, so that a coarse one is around a positive quotient. -/
theorem pos_of_coarse (hd : 0 < d) (coarse : 0 ≤ gridExponent n d) : 0 < n := by
  by_contra none
  obtain rfl := Nat.eq_zero_of_not_pos none
  have fine := gridExponent_le (n := 0) (k := 0) hd (by simp)
  omega

/-- Away from the least exponent the leading bit is set. -/
theorem le_units (hn : 0 < n) (hd : 0 < d) (normal : leastExponent < gridExponent n d) :
    2 ^ 52 ≤ units n d (gridExponent n d) := by
  have grid : 52 + gridExponent n d = binade n d := by
    unfold gridExponent at *
    omega
  have above : ((2 ^ 52 : ℤ) : ℚ) ≤ (n : ℚ) / d / 2 ^ gridExponent n d := by
    rw [le_div_iff₀ (by positivity)]
    calc ((2 ^ 52 : ℤ) : ℚ) * 2 ^ gridExponent n d = 2 ^ (52 + gridExponent n d) := by
          rw [zpow_add₀ two_ne_zero]
          norm_num
      _ = 2 ^ binade n d := by rw [grid]
      _ ≤ (n : ℚ) / d := zpow_binade_le hn hd
  have count := units_eq_roundEven (n := n) hd (gridExponent n d)
  have bound := roundEven_mono above
  rw [roundEven_intCast] at bound
  omega

theorem ofBinary64_finite (s : Bool) (m : ℕ) (q : ℤ) :
    Extended.ofBinary64 (.finite s m q) =
      .finite (if s then -exactly m q else exactly m q) := by
  rw [exactly_eq_ratio]
  simp only [Extended.ofBinary64, Rat.mkRat_eq_div]
  cases s
  · simp
  · simp [neg_div]

theorem exactly_of_ofBinary64 {m : ℕ} {q : ℤ} {x : ℚ}
    (h : Extended.ofBinary64 (.finite false m q) = .finite x) : exactly m q = x := by
  rw [ofBinary64_finite] at h
  exact Extended.finite.inj h

theorem exactly_lt_ceiling {m : ℕ} {q : ℤ} (short : m < 2 ^ 53) (range : q ≤ greatestExponent) :
    exactly m q < ceiling := by
  have short' : (m : ℚ) < 2 ^ 53 := by exact_mod_cast short
  calc exactly m q < 2 ^ 53 * 2 ^ q := by
        unfold exactly
        gcongr
    _ ≤ 2 ^ 53 * 2 ^ greatestExponent := by
      gcongr
      exact one_le_two
    _ = ceiling := by
      rw [ceiling, zpow_add₀ two_ne_zero, mul_comm]
      norm_cast

theorem natCast_lt_ceiling {k : ℕ} (short : k < 2 ^ 53) : (k : ℚ) < ceiling := by
  have double := exactly_lt_ceiling (q := 0) short (by decide)
  rwa [exactly, zpow_zero, mul_one] at double

theorem ceiling_le_exactly {m : ℕ} {q : ℤ} (leading : 2 ^ 52 ≤ m) (range : greatestExponent < q) :
    ceiling ≤ exactly m q := by
  have leading' : (2 : ℚ) ^ 52 ≤ m := by exact_mod_cast leading
  calc ceiling = 2 ^ 52 * 2 ^ (greatestExponent + 1) := by
        rw [ceiling, ← zpow_natCast, ← zpow_add₀ two_ne_zero]
        congr 1
    _ ≤ 2 ^ 52 * 2 ^ q := by
      gcongr
      · exact one_le_two
      · omega
    _ ≤ exactly m q := by
      unfold exactly
      gcongr

/-- The nearest double depends on the quotient alone. -/
theorem nearest_congr (negative : Bool) {n' d' : ℕ} (hn : 0 < n) (hd : 0 < d) (hn' : 0 < n')
    (hd' : 0 < d') (same : (n : ℚ) / d = n' / d') :
    nearest negative n d = nearest negative n' d' := by
  have grids : gridExponent n d = gridExponent n' d' := by
    rw [gridExponent_eq_gridOf hn hd, gridExponent_eq_gridOf hn' hd', same]
  have counts : units n d (gridExponent n' d') = units n' d' (gridExponent n' d') := by
    have left := units_eq_roundEven (n := n) hd (gridExponent n' d')
    rw [same, ← units_eq_roundEven hd'] at left
    exact_mod_cast left
  simp only [nearest, grids, counts]

/-- A full mantissa is halved and its exponent raised. -/
theorem nearest_of_full (negative : Bool) (full : units n d (gridExponent n d) = 2 ^ 53) :
    nearest negative n d = if greatestExponent < gridExponent n d + 1 then .infinite negative
      else .finite negative (2 ^ 52) (gridExponent n d + 1) := by
  have full' : units n d (gridExponent n d) = Nat.pow 2 53 := full
  simp only [nearest, full', if_true]
  rfl

theorem nearest_of_short (negative : Bool) (short : units n d (gridExponent n d) < 2 ^ 53) :
    nearest negative n d = if greatestExponent < gridExponent n d then .infinite negative
      else .finite negative (units n d (gridExponent n d)) (gridExponent n d) := by
  have short' : units n d (gridExponent n d) ≠ Nat.pow 2 53 := short.ne
  simp only [nearest, if_neg short']

/-- The double nearest to a quotient. -/
theorem ofBinary64_nearest (negative : Bool) (hd : 0 < d) :
    Extended.ofBinary64 (nearest negative n d) = if rounded ((n : ℚ) / d) < ceiling then
      .finite (if negative then -rounded ((n : ℚ) / d) else rounded ((n : ℚ) / d))
    else .infinite negative := by
  have value := exactly_units (n := n) hd
  obtain full | short := (units_le (n := n) hd).eq_or_lt
  · have carried : exactly (2 ^ 52) (gridExponent n d + 1) = rounded ((n : ℚ) / d) := by
      rw [← value, full, exactly, exactly, zpow_add_one₀ two_ne_zero]
      push_cast
      ring
    rw [nearest_of_full negative full, ← carried]
    by_cases range : greatestExponent < gridExponent n d + 1
    · rw [if_pos range, if_neg (not_lt.2 (ceiling_le_exactly le_rfl range))]
      rfl
    · rw [if_neg range, if_pos (exactly_lt_ceiling (by norm_num) (not_lt.1 range)),
        ofBinary64_finite]
  · rw [nearest_of_short negative short, ← value]
    by_cases range : greatestExponent < gridExponent n d
    · have coarse : 0 ≤ gridExponent n d := le_trans (by decide) range.le
      have leading := le_units (pos_of_coarse hd coarse) hd (lt_trans (by decide) range)
      rw [if_pos range, if_neg (not_lt.2 (ceiling_le_exactly leading range))]
      rfl
    · rw [if_neg range, if_pos (exactly_lt_ceiling short (not_lt.1 range)), ofBinary64_finite]

/-- A quotient that is at most an integer of 53 bits does not overflow. -/
theorem ofBinary64_nearest_of_le {k : ℕ} (hd : 0 < d) (h : (n : ℚ) / d ≤ k) (short : k < 2 ^ 53) :
    Extended.ofBinary64 (nearest false n d) = .finite (rounded ((n : ℚ) / d)) := by
  have below : rounded ((n : ℚ) / d) < ceiling :=
    (rounded_le_natCast (by positivity) h short).trans_lt (natCast_lt_ceiling short)
  rw [ofBinary64_nearest false hd, if_pos below]
  rfl

theorem ofBinary64_times_of_le {m count k : ℕ} {q : ℤ} (h : exactly m q * count ≤ k)
    (short : k < 2 ^ 53) :
    Extended.ofBinary64 ((finite false m q).times count) =
      .finite (rounded (exactly m q * count)) := by
  rw [← ratio_mul] at h ⊢
  exact ofBinary64_nearest_of_le (ratio_den_pos m q) h short

end Binary64

end ExpressionArt
