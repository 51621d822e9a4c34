import ExpressionArt.Proofs.Number.Parts
import ExpressionArt.Proofs.Number.Rounded

/-!
# Rounding of long quotients

The machine divides with an integer quotient that is long enough, a bit behind it and a mark for all
bits behind that one. Shifting keeps their meaning, and they tell how the exact quotient is rounded:
what comes out is the double nearest to it.
-/

namespace ExpressionArt

namespace Binary64

open Float.Model UnpackedFloat

/-! ## Normal doubles -/

/-- The mantissa has its leading bit and the exponent is in range. -/
structure Normal (m : Nat) (e : Int) : Prop where
  leading : 2 ^ 52 ≤ m
  short : m < 2 ^ 53
  least : leastExponent ≤ e
  greatest : e ≤ greatestExponent

namespace Normal

variable {m : Nat} {e : Int}

theorem positive (h : Normal m e) : 0 < m := lt_of_lt_of_le (by norm_num) h.leading

theorem log2_eq (h : Normal m e) : m.log2 = 52 :=
  (Nat.log2_eq_iff h.positive.ne').2 ⟨h.leading, h.short⟩

/-- The exponent with its bias is a field that stands neither for small doubles nor for special
ones. -/
theorem exists_field (h : Normal m e) :
    ∃ field : Nat, e + 1075 = field ∧ 0 < field ∧ field < 2047 := by
  obtain ⟨-, -, least, greatest⟩ := h
  unfold leastExponent greatestExponent at *
  exact ⟨(e + 1075).toNat, by omega, by omega, by omega⟩

/-- A normal double comes back from its bits. -/
theorem unpack_pack (h : Normal m e) (s : Sign) {some : 0 < m} :
    UnpackedFloat.unpack .binary64 (UnpackedFloat.pack .binary64 (.finite s m e some)) =
      .finite s m e some := by
  obtain ⟨field, equal, any, ordinary⟩ := h.exists_field
  have packed : UnpackedFloat.pack .binary64 (.finite s m e some) =
      packComponents .binary64 s (BitVec.ofNat _ field) (BitVec.ofNat _ m) := by
    have exponent : (e + (Format.binary64.exponentBias : Int) +
        (Format.binary64.mantissaBitsWithoutImplicit : Int)).toNat = field := by
      simp only [Format.exponentBias]
      omega
    have inside : ¬2 ^ Format.binary64.exponentBits ≤ field + 1 := by
      simp only [not_le]
      omega
    have full : m.log2 + 1 = Format.binary64.mantissaBits := by
      rw [h.log2_eq]
      rfl
    simp only [UnpackedFloat.pack, exponent, if_neg inside, if_pos full]
  have back : (BitVec.ofNat Format.binary64.exponentBits field).toNat = field := by
    rw [BitVec.toNat_ofNat, Nat.mod_eq_of_lt (by simp only; omega)]
  have notOnes : BitVec.ofNat Format.binary64.exponentBits field ≠ -1#_ := by
    rw [ne_eq, ← BitVec.toNat_inj, back]
    exact ordinary.ne
  have notZeros : BitVec.ofNat Format.binary64.exponentBits field ≠ 0#_ := by
    rw [ne_eq, ← BitVec.toNat_inj, back]
    exact any.ne'
  rw [packed, UnpackedFloat.unpack]
  simp only [unpackMantissa_packComponents, unpackExponent_packComponents,
    unpackSign_packComponents, Sign.ofBitVec_toBitVec, if_neg notOnes, if_neg notZeros]
  congr 1
  · have leading := h.leading
    have short := h.short
    rw [toNat_one_append, BitVec.toNat_ofNat]
    omega
  · rw [back]
    simp only [Format.exponentBias]
    omega

end Normal

/-! ## Bits behind a quotient -/

/-- An integer quotient, the bit behind it and a mark for all bits behind that one. -/
def extended (n d : Nat) : ExtendedMantissa where
  mantissa := n / d
  roundBit := d ≤ 2 * (n % d)
  stickyBit := n % d ≠ 0 ∧ 2 * (n % d) ≠ d

variable {n d : Nat}

theorem ofMantissaAndAccuracy_eq (hd : 0 < d) :
    ExtendedMantissa.ofMantissaAndAccuracy (n / d) (accuracyOfFraction (n % d) d) =
      extended n d := by
  unfold accuracyOfFraction extended
  split
  · next exact => simp [ExtendedMantissa.ofMantissaAndAccuracy, exact, hd.ne']
  · next rest =>
    rcases order : compare (2 * (n % d)) d with _ | _ | _
    · have less := Nat.compare_eq_lt.1 order
      simp [ExtendedMantissa.ofMantissaAndAccuracy, rest, less, less.ne]
    · have equal := Nat.compare_eq_eq.1 order
      simp [ExtendedMantissa.ofMantissaAndAccuracy, equal]
    · have greater := Nat.compare_eq_gt.1 order
      simp [ExtendedMantissa.ofMantissaAndAccuracy, rest, greater.le, greater.ne']

theorem shiftRightOne_extended (hd : 0 < d) :
    (extended n d).shiftRightOne = extended n (d * 2) := by
  have below : n % d < d := Nat.mod_lt n hd
  have rest : n % (d * 2) = n % d + d * (n / d % 2) := Nat.mod_mul
  unfold extended ExtendedMantissa.shiftRightOne
  rw [ExtendedMantissa.mk.injEq]
  refine ⟨Nat.div_div_eq_div_mul n d 2, ?_, ?_⟩
  · obtain even | odd := Nat.mod_two_eq_zero_or_one (n / d)
    · simp [rest, even]
      omega
    · simp [rest, odd]
      omega
  · obtain even | odd := Nat.mod_two_eq_zero_or_one (n / d)
    · simp [rest, even]
      grind
    · simp [rest, odd]
      grind

theorem shiftRight_extended (hd : 0 < d) (k : Nat) :
    extended n d >>> k = extended n (d * 2 ^ k) := by
  induction k with
  | zero => rw [pow_zero, mul_one]; rfl
  | succ k ih =>
    calc extended n d >>> (k + 1) = (extended n d >>> k).shiftRightOne := rfl
      _ = extended n (d * 2 ^ k * 2) := by
        rw [ih, shiftRightOne_extended (Nat.mul_pos hd (Nat.two_pow_pos k))]
      _ = extended n (d * 2 ^ (k + 1)) := by rw [pow_succ, mul_assoc]

/-- The two bits behind a quotient are enough to round it. -/
theorem roundedMantissa_extended (hd : 0 < d) :
    (extended n d).roundedMantissa = roundDiv n d := by
  unfold extended ExtendedMantissa.roundedMantissa roundDiv
  obtain less | equal | greater := Nat.lt_trichotomy (2 * (n % d)) d
  · have down : ¬d ≤ 2 * (n % d) := by omega
    by_cases exact : n % d = 0
    · simp [ExtendedMantissa.accuracy, Accuracy.roundToNearestEven, exact, hd.ne']
    · simp [ExtendedMantissa.accuracy, Accuracy.roundToNearestEven, less, less.ne, exact, down]
  · simp [ExtendedMantissa.accuracy, Accuracy.roundToNearestEven, equal]
    grind
  · have rest : n % d ≠ 0 := by omega
    simp [ExtendedMantissa.accuracy, Accuracy.roundToNearestEven, greater.le, greater.ne', rest,
      greater.not_gt]

/-! ## Exponents -/

/-- The exponent of a double is told by its leading bit. -/
theorem targetExponent_eq (total : Int) :
    Format.binary64.targetExponent total = max (total - 53) leastExponent := rfl

theorem totalExponent_eq (m : Nat) (e : Int) : totalExponent m e = m.log2 + 1 + e := rfl

theorem log_mul_zpow {x : ℚ} (hx : 0 < x) (e : ℤ) : Int.log 2 (x * 2 ^ e) = Int.log 2 x + e := by
  have positive : 0 < x * 2 ^ e := by positivity
  have above : (2 : ℚ) ^ (Int.log 2 x + e) ≤ x * 2 ^ e := by
    rw [zpow_add₀ two_ne_zero]
    gcongr
    exact_mod_cast Int.zpow_log_le_self one_lt_two hx
  have below : x * 2 ^ e < (2 : ℚ) ^ (Int.log 2 x + e + 1) := by
    rw [add_right_comm, zpow_add₀ two_ne_zero]
    gcongr
    exact_mod_cast Int.lt_zpow_succ_log_self one_lt_two x
  have low := (Int.zpow_le_iff_le_log one_lt_two positive).1 (by exact_mod_cast above)
  have high := (Int.lt_zpow_iff_log_lt one_lt_two positive).1 (by exact_mod_cast below)
  omega

theorem one_le_quotient (h : 0 < n / d) : 1 ≤ (n : ℚ) / d := by
  have whole : (1 : ℚ) ≤ ((n / d : ℕ) : ℚ) := by exact_mod_cast h
  exact whole.trans Nat.cast_div_le

/-- The exponent that an integer quotient is shifted to is the one of the doubles around it. -/
theorem targetExponent_eq_gridOf (h : 0 < n / d) (e : Int) :
    Format.binary64.targetExponent (totalExponent (n / d) e) = gridOf ((n : ℚ) / d * 2 ^ e) := by
  have one : 1 ≤ (n : ℚ) / d := one_le_quotient h
  have log : Int.log 2 ((n : ℚ) / d) = (n / d).log2 := by
    rw [Int.log_of_one_le_right _ one, Nat.floor_div_eq_div, Nat.log2_eq_log_two]
  rw [gridOf, log_mul_zpow (one_pos.trans_le one), log, targetExponent_eq, totalExponent_eq]
  congr 1
  omega

theorem shiftToTargetExponent_of_short {m : Nat} {e : Int} (short : m < 2 ^ 53)
    (least : leastExponent ≤ e) :
    shiftToTargetExponent .binary64 m e .exact = (⟨m, false, false⟩, e) := by
  have log : m.log2 ≤ 52 := by
    obtain rfl | any := m.eq_zero_or_pos
    · simp
    · exact Nat.le_of_lt_succ ((Nat.log2_lt any.ne').2 short)
  have none : (Format.binary64.targetExponent (totalExponent m e) - e).toNat = 0 := by
    rw [targetExponent_eq, totalExponent_eq]
    omega
  simp only [shiftToTargetExponent, shiftToExponent, none]
  exact Prod.ext rfl (by simp)

theorem shiftToTargetExponent_of_full {e : Int} (least : leastExponent ≤ e) :
    shiftToTargetExponent .binary64 (2 ^ 53) e .exact = (⟨2 ^ 52, false, false⟩, e + 1) := by
  have one : (Format.binary64.targetExponent (totalExponent (2 ^ 53) e) - e).toNat = 1 := by
    rw [targetExponent_eq, totalExponent_eq, Nat.log2_two_pow]
    omega
  simp only [shiftToTargetExponent, shiftToExponent, one]
  rfl

/-! ## Rounding -/

/-- A quotient whose nearest double is normal. -/
structure Moderate (n d : Nat) : Prop where
  positive : 0 < n
  divisor : 0 < d
  normal : leastExponent < gridExponent n d
  bounded : gridExponent n d < greatestExponent

section

variable {k l : Nat} {e : Int}

/-- The units of a quotient, shifted once more if they fill a mantissa, are the nearest double. -/
theorem Moderate.settles (h : Moderate k l) : ∃ m q, Normal m q ∧
    shiftToTargetExponent .binary64 (units k l (gridExponent k l)) (gridExponent k l) .exact =
      (⟨m, false, false⟩, q) ∧ ∀ negative, nearest negative k l = .finite negative m q := by
  obtain ⟨hk, hl, normal, bounded⟩ := h
  obtain full | short := (units_le (n := k) hl).eq_or_lt
  · refine ⟨2 ^ 52, gridExponent k l + 1, ⟨le_rfl, by norm_num, by omega, by omega⟩, ?_, ?_⟩
    · rw [full, shiftToTargetExponent_of_full normal.le]
    · intro negative
      rw [nearest_of_full negative full, if_neg (by omega)]
  · refine ⟨_, _, ⟨le_units hk hl normal, short, normal.le, bounded.le⟩,
      shiftToTargetExponent_of_short short normal.le, ?_⟩
    intro negative
    rw [nearest_of_short negative short, if_neg (by omega)]

/-- The units of a quotient on a grid, from an integer quotient on a finer one. -/
theorem roundDiv_eq_units (hd : 0 < d) (hl : 0 < l) (value : (k : ℚ) / l = n / d * 2 ^ e)
    (shift : Nat) : roundDiv n (d * 2 ^ shift) = units k l (e + shift) := by
  have hd' : 0 < d * 2 ^ shift := Nat.mul_pos hd (Nat.two_pow_pos shift)
  have finer : (k : ℚ) / l / 2 ^ (e + shift) = n / (d * 2 ^ shift : ℕ) := by
    rw [value, zpow_add₀ two_ne_zero, zpow_natCast]
    push_cast
    field_simp
  have counts : (roundDiv n (d * 2 ^ shift) : ℤ) = units k l (e + shift) := by
    rw [roundDiv_eq_roundEven n hd', units_eq_roundEven hl, finer]
  exact_mod_cast counts

/-- A quotient that is long enough is rounded to units of the grid around the exact one. -/
theorem shiftToTargetExponent_quotient (hd : 0 < d) (hk : 0 < k) (hl : 0 < l)
    (long : 2 ^ 52 ≤ n / d) (value : (k : ℚ) / l = n / d * 2 ^ e) :
    ∃ em, shiftToTargetExponent .binary64 (n / d) e (accuracyOfFraction (n % d) d) =
      (em, gridExponent k l) ∧ em.roundedMantissa = units k l (gridExponent k l) := by
  have positive : 0 < n / d := lt_of_lt_of_le (by norm_num) long
  have log : 52 ≤ (n / d).log2 := (Nat.le_log2 positive.ne').2 long
  have target : Format.binary64.targetExponent (totalExponent (n / d) e) = gridExponent k l := by
    rw [targetExponent_eq_gridOf positive, ← value, gridExponent_eq_gridOf hk hl]
  have coarser : e ≤ gridExponent k l := by
    rw [← target, targetExponent_eq, totalExponent_eq]
    omega
  obtain ⟨shift, equal⟩ := Int.le.dest coarser
  have amount : (gridExponent k l - e).toNat = shift := by omega
  refine ⟨extended n (d * 2 ^ shift), ?_, ?_⟩
  · simp only [shiftToTargetExponent, shiftToExponent, target, amount, ofMantissaAndAccuracy_eq hd,
      shiftRight_extended hd, equal]
  · rw [roundedMantissa_extended (Nat.mul_pos hd (Nat.two_pow_pos shift)), ← equal]
    exact roundDiv_eq_units hd hl value shift

/-- Rounding a quotient that is long enough gives the double nearest to the exact one. -/
theorem parts_roundWithAccuracy (s : Sign) (h : Moderate k l) (hd : 0 < d)
    (long : 2 ^ 52 ≤ n / d) (value : (k : ℚ) / l = n / d * 2 ^ e) :
    parts (roundWithAccuracy .binary64 s (n / d) e (accuracyOfFraction (n % d) d)) =
      nearest (isNegative s) k l := by
  obtain ⟨em, first, count⟩ :=
    shiftToTargetExponent_quotient hd h.positive h.divisor long value
  obtain ⟨m, q, normal, second, nearest⟩ := h.settles
  have some : m ≠ 0 := normal.positive.ne'
  simp only [roundWithAccuracy, first, count, second, nearest, some]
  rfl

theorem parts_roundWithAccuracy_exact {m : Nat} (s : Sign) (h : Moderate k l)
    (long : 2 ^ 52 ≤ m) (value : (k : ℚ) / l = exactly m e) :
    parts (roundWithAccuracy .binary64 s m e .exact) = nearest (isNegative s) k l := by
  have whole := parts_roundWithAccuracy (n := m) (d := 1) s h one_pos
    (by rwa [Nat.div_one]) (by rw [value, exactly, Nat.cast_one, div_one])
  rwa [Nat.div_one, Nat.mod_one] at whole

/-- What has the parts of the double nearest to a moderate quotient comes back from its bits. -/
theorem Moderate.unpack_pack (h : Moderate k l) {u : UnpackedFloat} {negative : Bool}
    (same : parts u = nearest negative k l) : (Float.Model.pack u).unpack = u := by
  obtain ⟨m, q, normal, -, eq⟩ := h.settles
  rw [eq] at same
  cases u with
  | notANumber => cases same
  | infinity s => cases same
  | zero s =>
    cases same
    exact absurd normal.positive (lt_irrefl 0)
  | finite s m' e' some =>
    cases same
    exact normal.unpack_pack s

end

end Binary64

end ExpressionArt
