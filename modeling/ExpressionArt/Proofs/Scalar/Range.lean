import ExpressionArt.Proofs.Number.Bits
import ExpressionArt.Proofs.Number.Order
import ExpressionArt.Proofs.Number.Sums
import ExpressionArt.Proofs.Scalar.Modulo

/-!
# The range of the modulo of doubles

Both remainders of a modulo are exact, and the sum between them is rounded. However it is rounded,
the second remainder brings it back below the divisor, also where it went up to the divisor or to
twice the divisor. Only where it goes to infinity there is nothing to bring back: a divisor beyond
half the range of doubles then has a modulo that is no number.
-/

namespace ExpressionArt

namespace Binary64

/-! ## Results fit -/

theorem fits_rem {x y : Binary64} (hx : Fits x) (hy : Fits y) : Fits (rem x y) := by
  match x, y with
  | .nan, _ | .infinite _, _ | .finite .., .nan => exact trivial
  | .finite .., .infinite _ => exact hx
  | .finite s m q, .finite t n r =>
    obtain ⟨shortM, leastM, greatestM⟩ := hx
    obtain ⟨shortN, leastN, greatestN⟩ := hy
    obtain rfl | some := n.eq_zero_or_pos
    · exact trivial
    · have shifted : 0 < n * Nat.pow 2 (r - min q r).toNat :=
        Nat.mul_pos some (Nat.pow_pos (by decide))
      simp only [rem, if_neg some.ne']
      refine ⟨?_, le_min leastM leastN, (min_le_left q r).trans greatestM⟩
      obtain fine | coarse := le_total q r
      · -- The dividend is not shifted and is no smaller than its remainder.
        refine (Nat.mod_le _ _).trans_lt ?_
        simpa [min_eq_left fine] using shortM
      · -- The divisor is not shifted and is greater than the remainder.
        refine (Nat.mod_lt _ shifted).trans ?_
        simpa [min_eq_right coarse] using shortN

theorem fits_nearest (negative : Bool) {n d : ℕ} (hd : 0 < d) : Fits (nearest negative n d) := by
  have least : leastExponent ≤ gridExponent n d := le_max_right _ _
  obtain full | short := (units_le (n := n) hd).eq_or_lt
  · rw [nearest_of_full negative full]
    split
    · exact trivial
    · next range => exact ⟨by norm_num, by omega, not_lt.1 range⟩
  · rw [nearest_of_short negative short]
    split
    · exact trivial
    · next range => exact ⟨short, least, not_lt.1 range⟩

theorem fits_addOn {e : ℤ} (least : leastExponent ≤ e) (greatest : e ≤ greatestExponent)
    (s t : Bool) (a b : ℕ) : Fits (addOn e s a t b) := by
  unfold addOn
  dsimp only
  split_ifs
  · exact fits_nearest _ (ratio_den_pos _ _)
  · exact ⟨by norm_num, least, greatest⟩
  · exact fits_nearest _ (ratio_den_pos _ _)
  · exact fits_nearest _ (ratio_den_pos _ _)

theorem fits_add {x y : Binary64} (hx : Fits x) (hy : Fits y) : Fits (add x y) := by
  match x, y with
  | .nan, _ | .infinite _, .nan | .finite .., .nan => exact trivial
  | .infinite s, .infinite t =>
    rw [add]
    split <;> exact trivial
  | .infinite _, .finite .. | .finite .., .infinite _ => exact trivial
  | .finite s m q, .finite t n r =>
    exact fits_addOn (le_min hx.least hy.least) ((min_le_left q r).trans hx.greatest) ..

/-- The modulo of doubles is computed on their parts. -/
theorem ofFloat_floatMod (a b : Float) :
    Extended.ofFloat (floatMod a b) = Extended.ofBinary64 (floorMod (ofFloat a) (ofFloat b)) :=
  ofFloat_toFloat (fits_rem (fits_add (fits_rem (fits_ofBits _) (fits_ofBits _)) (fits_ofBits _))
    (fits_ofBits _))

end Binary64

/-! ## Remainders of exact numbers -/

variable {p q : ℚ}

theorem neg_lt_rem (positive : 0 < q) : -q < Remainder.rem p q := by
  have cut := neg_one_lt_sub_truncated (p / q)
  have value : Remainder.rem p q = q * (p / q - truncated (p / q)) := by
    rw [rem_eq]
    field_simp
  rw [value]
  nlinarith

theorem rem_lt (positive : 0 < q) : Remainder.rem p q < q := by
  have mirrored := neg_lt_rem (p := -p) positive
  rw [rem_neg_left] at mirrored
  linarith

theorem rem_mem_of_nonneg (nonneg : 0 ≤ p) (positive : 0 < q) :
    0 ≤ Remainder.rem p q ∧ Remainder.rem p q < q := by
  refine ⟨?_, rem_lt positive⟩
  rw [rem_of_div_nonneg positive.ne' (by positivity)]
  positivity

theorem rem_of_lt (nonneg : 0 ≤ p) (less : p < q) : Remainder.rem p q = p := by
  have positive : 0 < q := nonneg.trans_lt less
  have quotient : 0 ≤ p / q := by positivity
  rw [rem_of_div_nonneg positive.ne' quotient,
    Int.fract_eq_self.2 ⟨quotient, (div_lt_one positive).2 less⟩, mul_div_cancel₀ _ positive.ne']

/-! ## Modulo of doubles -/

section

open Binary64

variable {a b : Float}

/-- The sum of the first remainder with the divisor is rounded, and its remainder is exact. -/
theorem ofFloat_floatMod_of_lt (ha : Extended.ofFloat a = .finite p)
    (hb : Extended.ofFloat b = .finite q) (positive : 0 < q)
    (inside : Remainder.rem p q + q < overflow) : Extended.ofFloat (floatMod a b) =
      .finite (Remainder.rem (rounded (Remainder.rem p q + q)) q) := by
  have nonneg : 0 ≤ Remainder.rem p q + q := by
    linarith [neg_lt_rem (p := p) positive]
  have sum := ofBinary64_add (ofBinary64_rem ha hb positive.ne') hb
  rw [nearest_of_lt nonneg inside] at sum
  rw [ofFloat_floatMod]
  exact ofBinary64_rem sum hb positive.ne'

/-- An infinite sum has no remainder. -/
theorem ofFloat_floatMod_of_overflow (ha : Extended.ofFloat a = .finite p)
    (hb : Extended.ofFloat b = .finite q) (positive : 0 < q)
    (beyond : overflow ≤ Remainder.rem p q + q) : Extended.ofFloat (floatMod a b) = .nan := by
  have sum := ofBinary64_add (ofBinary64_rem ha hb positive.ne') hb
  rw [nearest_of_overflow beyond] at sum
  rw [ofFloat_floatMod]
  change Extended.ofBinary64 (rem (add (rem (ofFloat a) (ofFloat b)) (ofFloat b)) (ofFloat b)) = _
  cases infinite : add (rem (ofFloat a) (ofFloat b)) (ofFloat b) with
  | nan => rfl
  | infinite s => rfl
  | finite s m e =>
    rw [infinite, ofBinary64_finite] at sum
    cases sum

theorem floatMod_mem_of_lt (ha : Extended.ofFloat a = .finite p)
    (hb : Extended.ofFloat b = .finite q) (positive : 0 < q)
    (inside : Remainder.rem p q + q < overflow) : 0 ≤ floatMod a b ∧ floatMod a b < b := by
  have modulo := ofFloat_floatMod_of_lt ha hb positive inside
  have nonneg : 0 ≤ Remainder.rem p q + q := by
    linarith [neg_lt_rem (p := p) positive]
  obtain ⟨least, most⟩ := rem_mem_of_nonneg (rounded_nonneg nonneg) positive
  exact ⟨(le_iff_of_finite ofFloat_zero modulo).2 least, (lt_iff_of_finite modulo hb).2 most⟩

/-! ### The last power of two -/

theorem last_eq : (2 : ℚ) ^ 1023 = 2 ^ 52 * 2 ^ greatestExponent :=
  (zpow_natCast 2 1023).symm.trans (zpow_greatest_add 52)

/-- The double before the last power of two. -/
def beforeLast : Float := toFloat (.finite false (2 ^ 53 - 1) (greatestExponent - 1))

theorem ofFloat_beforeLast :
    Extended.ofFloat beforeLast = .finite ((2 ^ 52 - 1 / 2) * 2 ^ greatestExponent) := by
  have holds : Fits (.finite false (2 ^ 53 - 1) (greatestExponent - 1)) :=
    ⟨by norm_num, by decide, by decide⟩
  rw [beforeLast, ofFloat_toFloat holds, ofBinary64_finite, if_neg Bool.false_ne_true, exactly,
    zpow_sub_one₀ two_ne_zero]
  congr 1
  norm_num
  ring

/-- No double lies between that one and the power. -/
theorem le_of_lt_last (hb : Extended.ofFloat b = .finite q) (small : q < 2 ^ 1023) :
    q ≤ (2 ^ 52 - 1 / 2) * 2 ^ greatestExponent := by
  have unit : (0 : ℚ) < 2 ^ greatestExponent := by positivity
  cases parts : ofFloat b with
  | nan => rw [Extended.ofFloat, parts] at hb; cases hb
  | infinite s => rw [Extended.ofFloat, parts] at hb; cases hb
  | finite s n r =>
    obtain ⟨short, -, leading⟩ := canonical_of_ofBits parts
    rw [Extended.ofFloat, parts, ofBinary64_finite] at hb
    obtain rfl := Extended.finite.inj hb
    cases s with
    | true =>
      rw [if_pos rfl]
      nlinarith [exactly_nonneg n r]
    | false =>
      rw [if_neg Bool.false_ne_true] at small ⊢
      have fine : r ≤ greatestExponent - 1 := by
        by_contra coarse
        have full : (2 : ℚ) ^ 52 ≤ n := by
          exact_mod_cast leading (by unfold greatestExponent at coarse; omega)
        have large : (2 : ℚ) ^ greatestExponent ≤ 2 ^ r :=
          zpow_le_zpow_right₀ one_lt_two.le (by omega)
        rw [last_eq, exactly] at small
        nlinarith
      have most : (n : ℚ) ≤ 2 ^ 53 - 1 := by
        have short' : n + 1 ≤ 2 ^ 53 := short
        rw [le_sub_iff_add_le]
        exact_mod_cast short'
      have power : (2 : ℚ) ^ r ≤ 2 ^ (greatestExponent - 1) :=
        zpow_le_zpow_right₀ one_lt_two.le fine
      calc exactly n r ≤ (2 ^ 53 - 1) * 2 ^ (greatestExponent - 1) :=
          mul_le_mul most power (by positivity) (by norm_num)
        _ = (2 ^ 52 - 1 / 2) * 2 ^ greatestExponent := by
          rw [zpow_sub_one₀ two_ne_zero]
          ring

/-- The modulo of a finite double by a positive one is a number from zero on and below the divisor,
unless the sum between the two remainders reaches the middle between the greatest double and the
next power of two: there it is no number. That happens to no dividend if the divisor is below the
last power of two, and to some dividend from there on. -/
theorem floatMod_mem_range_iff (hb : Extended.ofFloat b = .finite q) (positive : 0 < q) :
    (∀ a p, Extended.ofFloat a = .finite p →
      (Remainder.rem p q + q < overflow → 0 ≤ floatMod a b ∧ floatMod a b < b) ∧
      (overflow ≤ Remainder.rem p q + q → (floatMod a b).isNaN = true)) ∧
    ((∀ a p, Extended.ofFloat a = .finite p → 0 ≤ floatMod a b ∧ floatMod a b < b) ↔
      q < 2 ^ 1023) := by
  have unit : (0 : ℚ) < 2 ^ greatestExponent := by positivity
  refine ⟨fun a p ha => ⟨floatMod_mem_of_lt ha hb positive, fun beyond => ?_⟩,
    fun each => ?_, fun small a p ha => ?_⟩
  · exact isNaN_eq_true_iff.2 (ofFloat_floatMod_of_overflow ha hb positive beyond)
  · -- The double before the last power of two is its own remainder, and its sum overflows.
    by_contra large
    rw [last_eq, not_lt] at large
    have rest := rem_of_lt (p := (2 ^ 52 - 1 / 2) * 2 ^ greatestExponent) (q := q)
      (mul_nonneg (by norm_num) unit.le) (by nlinarith)
    have beyond : overflow ≤ Remainder.rem ((2 ^ 52 - 1 / 2) * 2 ^ greatestExponent) q + q := by
      rw [rest, overflow_eq]
      nlinarith
    have nan := ofFloat_floatMod_of_overflow ofFloat_beforeLast hb positive beyond
    exact not_le_of_isNaN (isNaN_eq_true_iff.2 nan) (each beforeLast _ ofFloat_beforeLast).1
  · have most := le_of_lt_last hb small
    refine floatMod_mem_of_lt ha hb positive ?_
    rw [overflow_eq]
    nlinarith [rem_lt (p := p) positive]

theorem floatMod_mem_range_three : Extended.ofFloat 3 = .finite 3 ∧ (0 : ℚ) < 3 ∧
    ∀ a p, Extended.ofFloat a = .finite p → 0 ≤ floatMod a 3 ∧ floatMod a 3 < 3 := by
  have three : Extended.ofFloat 3 = .finite 3 := by
    have parts : ofFloat 3 = .finite false (3 * 2 ^ 51) (-51) := rfl
    rw [Extended.ofFloat, parts, ofBinary64_finite]
    norm_num [exactly]
  have small : (3 : ℚ) < 2 ^ 1023 :=
    lt_of_lt_of_le (by norm_num : (3 : ℚ) < 2 ^ 2) (pow_le_pow_right₀ one_le_two (by norm_num))
  exact ⟨three, by norm_num, (floatMod_mem_range_iff three (by norm_num)).2.2 small⟩

/-- Two finite doubles may have a sum that is infinite, and then no modulo. -/
theorem floatMod_outside_range : ¬ ∀ a b : Float, a.isFinite = true → b.isFinite = true → 0 < b →
    (floatMod a b).isNaN = false ∧ 0 ≤ floatMod a b ∧ floatMod a b < b := by
  intro each
  have nan : (floatMod 1.6e308 1.7e308).isNaN = true := by decide +kernel
  have number := (each 1.6e308 1.7e308 (by decide +kernel) (by decide +kernel)
    (by decide +kernel)).1
  rw [nan] at number
  cases number

end

end ExpressionArt
