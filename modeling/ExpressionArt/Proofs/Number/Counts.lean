import ExpressionArt.Proofs.Number.Quotients

/-!
# Quotients of counts

A count of 53 bits is a double, and the quotient of two counts is the double nearest to the exact
one. It depends on the ratio of the counts alone.
-/

namespace ExpressionArt

namespace Binary64

open Float.Model UnpackedFloat

variable {n d : Nat}

theorem moderate_of_counts (hn : 0 < n) (hn' : n < 2 ^ 53) (hd : 0 < d) (hd' : d < 2 ^ 53) :
    Moderate n d := by
  have positive : (0 : ℚ) < n / d := by positivity
  have above : -53 ≤ Int.log 2 ((n : ℚ) / d) := by
    have one : (1 : ℚ) ≤ n := by exact_mod_cast hn
    have most : (d : ℚ) ≤ 2 ^ 53 := by exact_mod_cast hd'.le
    refine (Int.zpow_le_iff_le_log one_lt_two positive).1 ?_
    rw [le_div_iff₀ (by positivity)]
    calc (2 : ℚ) ^ (-53 : ℤ) * d ≤ 2 ^ (-53 : ℤ) * 2 ^ 53 := by gcongr
      _ = 1 := by norm_num
      _ ≤ n := one
  have below : Int.log 2 ((n : ℚ) / d) < 53 := by
    have one : (1 : ℚ) ≤ d := by exact_mod_cast hd
    have most : (n : ℚ) < 2 ^ 53 := by exact_mod_cast hn'
    refine (Int.lt_zpow_iff_log_lt one_lt_two positive).1 ?_
    rw [div_lt_iff₀ (by positivity)]
    calc (n : ℚ) < 2 ^ 53 := most
      _ = 2 ^ (53 : ℤ) * 1 := by norm_num
      _ ≤ 2 ^ (53 : ℤ) * d := by gcongr
  have grid := gridExponent_eq_gridOf hn hd
  unfold gridOf leastExponent at grid
  refine ⟨hn, hd, ?_, ?_⟩
  · unfold leastExponent
    omega
  · unfold greatestExponent
    omega

/-- A normal double that stands for a count. -/
structure Counted (n m : Nat) (e : Int) : Prop extends Normal m e where
  value : exactly m e = n
  lower : -53 < e
  upper : e < 1

theorem Normal.counted {m : Nat} {e : Int} (h : Normal m e) (hn : 0 < n) (hn' : n < 2 ^ 53)
    (value : exactly m e = n) : Counted n m e := by
  have one : (1 : ℚ) ≤ n := by exact_mod_cast hn
  have most : (n : ℚ) < 2 ^ 53 := by exact_mod_cast hn'
  have leading : (2 : ℚ) ^ 52 ≤ m := by exact_mod_cast h.leading
  have short : (m : ℚ) < 2 ^ 53 := by exact_mod_cast h.short
  have power : (0 : ℚ) < 2 ^ e := by positivity
  have above : (1 : ℚ) < 2 ^ (53 + e) := by
    calc (1 : ℚ) ≤ m * 2 ^ e := one.trans_eq value.symm
      _ < 2 ^ 53 * 2 ^ e := mul_lt_mul_of_pos_right short power
      _ = 2 ^ (53 + e) := by rw [zpow_add₀ two_ne_zero, zpow_ofNat]
  have below : (2 : ℚ) ^ (e - 1) < 1 := by
    have half : (2 : ℚ) ^ 52 * 2 ^ e < 2 ^ 52 * 2 := by
      calc (2 : ℚ) ^ 52 * 2 ^ e ≤ m * 2 ^ e := mul_le_mul_of_nonneg_right leading power.le
        _ < 2 ^ 53 := value.trans_lt most
        _ = 2 ^ 52 * 2 := by norm_num
    rw [zpow_sub_one₀ two_ne_zero]
    linarith
  rw [one_lt_zpow_iff_right₀ one_lt_two] at above
  rw [zpow_lt_one_iff_right₀ one_lt_two] at below
  exact ⟨h, value, by omega, by omega⟩

namespace Counted

variable {m m' : Nat} {e e' : Int}

/-- A mantissa is extended by its length before it is divided. -/
theorem divCore_eq (h : Counted n m e) (h' : Counted d m' e') : divCore .binary64 m e m' e' =
    (m * 2 ^ 53 / m', e - e' - 53, accuracyOfFraction (m * 2 ^ 53 % m') m') := by
  have lower := h.lower
  have upper := h'.upper
  have target : min (e - e') (Format.binary64.targetExponent
      (totalExponent m e - totalExponent m' e')) = e - e' - 53 := by
    rw [targetExponent_eq, totalExponent_eq, totalExponent_eq, h.log2_eq, h'.log2_eq]
    unfold leastExponent
    omega
  have amount : (e - e' - (e - e' - 53)).toNat = 53 := by omega
  simp only [divCore, target, amount, Nat.shiftLeft_eq]

theorem le_quotient (h : Counted n m e) (h' : Counted d m' e') : 2 ^ 52 ≤ m * 2 ^ 53 / m' :=
  calc 2 ^ 52 = 2 ^ 52 * 2 ^ 53 / 2 ^ 53 := by norm_num
    _ ≤ m * 2 ^ 53 / 2 ^ 53 := Nat.div_le_div_right (Nat.mul_le_mul_right _ h.leading)
    _ ≤ m * 2 ^ 53 / m' := Nat.div_le_div_left h'.short.le h'.positive

theorem quotient_eq (h : Counted n m e) (h' : Counted d m' e') :
    (n : ℚ) / d = ((m * 2 ^ 53 : ℕ) : ℚ) / m' * 2 ^ (e - e' - 53) := by
  have some : (m' : ℚ) ≠ 0 := by exact_mod_cast h'.positive.ne'
  rw [← h.value, ← h'.value, exactly, exactly, zpow_sub₀ two_ne_zero, zpow_sub₀ two_ne_zero]
  push_cast
  field_simp

end Counted

/-- The unpacked double with given parts. -/
theorem eq_finite_of_parts {u : UnpackedFloat} {m : Nat} {e : Int} (some : 0 < m)
    (same : parts u = .finite false m e) : u = .finite .positive m e some := by
  cases u with
  | notANumber => cases same
  | infinity s => cases same
  | zero s =>
    cases s with
    | negative => cases same
    | positive =>
      cases same
      omega
  | finite s m' e' positive =>
    cases s with
    | negative => cases same
    | positive =>
      cases same
      rfl

/-- What has the parts of a normal double comes back from its bits. -/
theorem Normal.unpack_of_parts {u : UnpackedFloat} {m : Nat} {e : Int} (h : Normal m e)
    (same : parts u = .finite false m e) :
    (Float.Model.pack u).unpack = .finite .positive m e h.positive := by
  obtain rfl := eq_finite_of_parts h.positive same
  exact h.unpack_pack .positive

theorem parts_round (hn : 0 < n) (short : n < 2 ^ 53) :
    parts (UnpackedFloat.round .binary64 .positive n 0) = nearest false n 1 := by
  have log : n.log2 < 53 := (Nat.log2_lt hn.ne').2 short
  obtain ⟨shift, length⟩ : ∃ shift, n.log2 + shift = 52 := ⟨52 - n.log2, by omega⟩
  have target : Format.binary64.targetExponent (totalExponent n 0) = -(shift : Int) := by
    rw [targetExponent_eq, totalExponent_eq]
    unfold leastExponent
    omega
  unfold UnpackedFloat.round
  simp only [target, decreaseExponent, Nat.shiftLeft_eq, zero_sub, neg_neg, Int.toNat_natCast]
  refine parts_roundWithAccuracy_exact .positive ?_ ?_ ?_
  · exact moderate_of_counts hn short one_pos (by norm_num)
  · calc 2 ^ 52 = 2 ^ n.log2 * 2 ^ shift := by rw [← pow_add, length]
      _ ≤ n * 2 ^ shift := Nat.mul_le_mul_right _ (Nat.log2_self_le hn.ne')
  · rw [exactly, zpow_neg, zpow_natCast]
    push_cast
    field_simp

theorem exists_counted (hn : 0 < n) (short : n < 2 ^ 53) :
    ∃ m e, Counted n m e ∧ nearest false n 1 = .finite false m e := by
  have moderate : Moderate n 1 := moderate_of_counts hn short one_pos (by norm_num)
  obtain ⟨m, e, normal, -, eq⟩ := moderate.settles
  have double := ofBinary64_nearest_of_le (n := n) (d := 1) (k := n) one_pos (by simp) short
  have value : exactly m e = n := by
    rw [eq] at double
    rw [exactly_of_ofBinary64 double, Nat.cast_one, div_one, rounded_natCast short]
  exact ⟨m, e, normal.counted hn short value, eq false⟩

/-- The conversion of a count multiplies a word by one. -/
theorem ofNat_eq_mul (short : n < 2 ^ 53) :
    Float.ofNat n = n.toUInt64.toFloat * Float.ofBits 0x3FF0000000000000 := by
  unfold Float.ofNat
  change Float.ofScientific n false 0 = _
  rw [Float.ofScientific, dif_pos ⟨short, by decide⟩]
  rfl

theorem toModel_toFloat (hn : 0 < n) (short : n < 2 ^ 53) : n.toUInt64.toFloat.toModel =
    Float.Model.pack (UnpackedFloat.round .binary64 .positive n 0) := by
  have word : n.toUInt64.toNat = n := by
    rw [Nat.toUInt64, UInt64.toNat_ofNat', Nat.mod_eq_of_lt (by omega)]
  change Float.Model.pack (UnpackedFloat.ofInt .binary64 n.toUInt64.toNat) = _
  rw [word, UnpackedFloat.ofInt, UnpackedFloat.normalize, Int.compare_eq_gt.2 (by omega)]
  rfl

theorem Counted.parts_mul_one {m : Nat} {e : Int} (h : Counted n m e) (hn : 0 < n)
    (short : n < 2 ^ 53) :
    parts (roundWithAccuracy .binary64 .positive (m * 2 ^ 52) (e + -52) .exact) =
      nearest false n 1 := by
  have leading := h.leading
  refine parts_roundWithAccuracy_exact .positive ?_ (by omega) ?_
  · exact moderate_of_counts hn short one_pos (by norm_num)
  · rw [← h.value, exactly, exactly, zpow_add₀ two_ne_zero]
    push_cast
    norm_num
    ring

/-- A count is converted to a normal double that stands for it. -/
theorem unpack_ofNat (hn : 0 < n) (short : n < 2 ^ 53) : ∃ m e positive,
    (Float.ofNat n).toModel.unpack = .finite .positive m e positive ∧ Counted n m e := by
  obtain ⟨m, e, counted, eq⟩ := exists_counted hn short
  have word : n.toUInt64.toFloat.toModel.unpack = .finite .positive m e counted.positive := by
    rw [toModel_toFloat hn short]
    exact counted.unpack_of_parts ((parts_round hn short).trans eq)
  have one : (Float.ofBits 0x3FF0000000000000).toModel.unpack =
      .finite .positive (2 ^ 52) (-52) (by norm_num) := rfl
  have product : (Float.ofNat n).toModel =
      Float.Model.pack (roundWithAccuracy .binary64 .positive (m * 2 ^ 52) (e + -52) .exact) := by
    rw [ofNat_eq_mul short]
    change Float.Model.pack (UnpackedFloat.mul _ _ _) = _
    rw [word, one]
    rfl
  refine ⟨m, e, counted.positive, ?_, counted⟩
  rw [product]
  exact counted.unpack_of_parts ((counted.parts_mul_one hn short).trans eq)

/-- The quotient of two counts is the double nearest to the exact one. -/
theorem ofFloat_div_ofNat (hn : 0 < n) (hn' : n < 2 ^ 53) (hd : 0 < d) (hd' : d < 2 ^ 53) :
    ofFloat (Float.ofNat n / Float.ofNat d) = nearest false n d := by
  obtain ⟨m, e, some, dividend, counted⟩ := unpack_ofNat hn hn'
  obtain ⟨m', e', some', divisor, counted'⟩ := unpack_ofNat hd hd'
  have packed : (Float.ofNat n / Float.ofNat d).toModel =
      Float.Model.pack (roundWithAccuracy .binary64 .positive (m * 2 ^ 53 / m') (e - e' - 53)
        (accuracyOfFraction (m * 2 ^ 53 % m') m')) := by
    change Float.Model.pack (UnpackedFloat.div _ _ _) = _
    rw [dividend, divisor]
    simp only [UnpackedFloat.div, counted.divCore_eq counted']
    rfl
  have moderate := moderate_of_counts hn hn' hd hd'
  have same := parts_roundWithAccuracy .positive moderate some' (counted.le_quotient counted')
    (counted.quotient_eq counted')
  rw [ofFloat_eq_parts, packed, moderate.unpack_pack same, same]
  rfl

/-- Zero divided by a positive count is zero. -/
theorem zero_div_ofNat (hd : 0 < d) (hd' : d < 2 ^ 53) :
    Float.ofNat 0 / Float.ofNat d = .ofModel (.pack (.zero .positive)) := by
  obtain ⟨m, e, some, divisor, -⟩ := unpack_ofNat hd hd'
  have zero : (Float.ofNat 0).toModel.unpack = .zero .positive := rfl
  change Float.ofModel (.pack (UnpackedFloat.div _ _ _)) = _
  rw [zero, divisor]
  rfl

/-- The quotient of two counts depends on their ratio alone. -/
theorem div_ofNat_scale {k a b : Nat} (hk : 0 < k) (short : k * b < 2 ^ 53) (inside : a < b) :
    Float.ofNat (k * a) / Float.ofNat (k * b) = Float.ofNat a / Float.ofNat b := by
  have hb : 0 < b := by omega
  have hkb : 0 < k * b := Nat.mul_pos hk hb
  have shortB : b < 2 ^ 53 := (Nat.le_mul_of_pos_left b hk).trans_lt short
  obtain rfl | ha := a.eq_zero_or_pos
  · rw [mul_zero, zero_div_ofNat hkb short, zero_div_ofNat hb shortB]
  · have hka : 0 < k * a := Nat.mul_pos hk ha
    have shortA : k * a < 2 ^ 53 := (Nat.mul_le_mul_left k inside.le).trans_lt short
    have ratio : ((k * a : ℕ) : ℚ) / (k * b : ℕ) = a / b := by
      push_cast
      field_simp
    have left := ofFloat_div_ofNat hka shortA hkb short
    have right := ofFloat_div_ofNat ha (inside.trans shortB) hb shortB
    rw [nearest_congr false hka hkb ha hb ratio] at left
    refine eq_of_ofFloat ?_ (left.trans right.symm)
    obtain ⟨m, e, -, -, eq⟩ := (moderate_of_counts ha (inside.trans shortB) hb shortB).settles
    rw [left, eq]
    exact Binary64.noConfusion

end Binary64

end ExpressionArt
