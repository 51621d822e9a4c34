import ExpressionArt.Proofs.Number.Parts
import ExpressionArt.Proofs.Number.Rounded

/-!
# Doubles from their bits

Whatever parts a number has, as long as a double can hold it, its bits are those of the same number
with canonical parts. A double that is made of these bits stands for the number.
-/

namespace ExpressionArt

namespace Binary64

/-- A double is told by its bits, but for the bits of what is no number. -/
theorem ofFloat_ofBits (bits : UInt64) : ofFloat (Float.ofBits bits) = ofBits bits.toNat := by
  have back : (Float.ofBits bits).toModel.unpack =
      Float.Model.UnpackedFloat.unpack .binary64 bits.toBitVec := by
    change Float.Model.UnpackedFloat.unpack .binary64
      (Float.Model.UnpackedFloat.pack .binary64 (.unpack .binary64 bits.toBitVec)) = _
    rw [Float.Model.UnpackedFloat.pack_unpack]
    split
    · next nan =>
      rw [Float.Model.UnpackedFloat.unpack_packedNaN]
      have special := of_decide_eq_true nan
      rw [Float.Model.UnpackedFloat.unpack]
      simp [special]
    · rfl
  rw [ofFloat_eq_parts, back]
  exact (ofBits_toNat bits.toBitVec).symm

/-- A mantissa and an exponent that a double can hold. -/
structure Holds (m : ℕ) (q : ℤ) : Prop where
  short : m < 2 ^ 53
  least : leastExponent ≤ q
  greatest : q ≤ greatestExponent

/-- The bits of a magnitude are those of its canonical parts. -/
theorem magnitudeBits_canonical {m : ℕ} {q : ℤ} (h : Holds m q) (some : 0 < m) :
    ∃ m' q', Canonical m' q' ∧ q' ≤ greatestExponent ∧ exactly m' q' = exactly m q ∧
      magnitudeBits m q =
        if m' < 2 ^ 52 then m' else (q' + 1075).toNat * 2 ^ 52 + (m' - 2 ^ 52) := by
  obtain ⟨short, least, greatest⟩ := h
  unfold leastExponent at least
  have log : m.log2 < 53 := (Nat.log2_lt some.ne').2 short
  obtain ⟨shift, amount⟩ : ∃ shift, shift = min (52 - m.log2) (q + 1074).toNat := ⟨_, rfl⟩
  have power : m * 2 ^ shift < 2 ^ 53 :=
    calc m * 2 ^ shift < 2 ^ (m.log2 + 1) * 2 ^ shift :=
          Nat.mul_lt_mul_of_pos_right Nat.lt_log2_self (by positivity)
      _ = 2 ^ (m.log2 + 1 + shift) := (pow_add ..).symm
      _ ≤ 2 ^ 53 := Nat.pow_le_pow_right two_pos (by omega)
  refine ⟨m * 2 ^ shift, q - shift, ⟨power, by omega, fun above => ?_⟩, by omega, ?_, ?_⟩
  · -- The shift stopped short of the least exponent, so that it filled the mantissa.
    have full : shift = 52 - m.log2 := by omega
    calc 2 ^ 52 = 2 ^ m.log2 * 2 ^ shift := by
          rw [← pow_add]
          congr 1
          omega
      _ ≤ m * 2 ^ shift := Nat.mul_le_mul_right _ (Nat.log2_self_le some.ne')
  · rw [exactly, exactly, zpow_sub₀ two_ne_zero, zpow_natCast]
    push_cast
    field_simp
  · simp only [magnitudeBits, Nat.pow_eq, if_neg some.ne', ← amount]

theorem signBit_eq (s : Bool) : signBit s = s.toNat * 2 ^ 63 := by cases s <;> rfl

theorem ofBits_fields (s : Bool) {field fraction : ℕ} (ordinary : field < 2047)
    (short : fraction < 2 ^ 52) : ofBits (signBit s + (field * 2 ^ 52 + fraction)) =
      if field = 0 then .finite s fraction (-1074)
      else .finite s (2 ^ 52 + fraction) (field - 1075) := by
  have one : s.toNat < 2 := s.toNat_lt
  rw [signBit_eq]
  have sign : ((s.toNat * 2 ^ 63 + (field * 2 ^ 52 + fraction)) / 2 ^ 63 % 2 == 1) = s := by
    have bit : (s.toNat * 2 ^ 63 + (field * 2 ^ 52 + fraction)) / 2 ^ 63 % 2 = s.toNat := by omega
    rw [bit]
    cases s <;> rfl
  have exponent : (s.toNat * 2 ^ 63 + (field * 2 ^ 52 + fraction)) / 2 ^ 52 % 2 ^ 11 = field := by
    omega
  have rest : (s.toNat * 2 ^ 63 + (field * 2 ^ 52 + fraction)) % 2 ^ 52 = fraction := by omega
  simp only [ofBits, Nat.pow_eq, sign, exponent, rest, if_neg ordinary.ne]

theorem ofBits_canonical (s : Bool) {m : ℕ} {q : ℤ} (h : Canonical m q)
    (greatest : q ≤ greatestExponent) : ofBits (signBit s +
      if m < 2 ^ 52 then m else (q + 1075).toNat * 2 ^ 52 + (m - 2 ^ 52)) = .finite s m q := by
  obtain ⟨short, least, leading⟩ := h
  unfold greatestExponent at greatest
  split
  · next below =>
    have small : q = -1074 := by_contra fun above => absurd (leading above) (not_le.2 below)
    have fields := ofBits_fields s (by norm_num : 0 < 2047) below
    rw [zero_mul, zero_add, if_pos rfl] at fields
    rw [fields, small]
  · next above =>
    obtain ⟨field, equal⟩ : ∃ field : ℕ, (q + 1075).toNat = field := ⟨_, rfl⟩
    have fraction : m - 2 ^ 52 < 2 ^ 52 := by omega
    have mantissa : 2 ^ 52 + (m - 2 ^ 52) = m := by omega
    have exponent : (field : ℤ) - 1075 = q := by omega
    rw [equal, ofBits_fields s (by omega) fraction, if_neg (by omega), mantissa, exponent]

theorem toBits_zero (s : Bool) (q : ℤ) : toBits (.finite s 0 q) = signBit s := by
  simp [toBits, magnitudeBits]

/-- The bits of what a double can hold make the number again. -/
theorem ofBinary64_ofBits_toBits (s : Bool) {m : ℕ} {q : ℤ} (h : Holds m q) :
    Extended.ofBinary64 (ofBits (toBits (.finite s m q))) =
      Extended.ofBinary64 (.finite s m q) := by
  obtain rfl | some := m.eq_zero_or_pos
  · have zero : ofBits (signBit s) = .finite s 0 (-1074) := by cases s <;> rfl
    rw [toBits_zero, zero, ofBinary64_finite, ofBinary64_finite]
    simp [exactly]
  · obtain ⟨m', q', canonical, greatest, value, bits⟩ := magnitudeBits_canonical h some
    rw [toBits, bits, ofBits_canonical s canonical greatest, ofBinary64_finite, ofBinary64_finite,
      value]

theorem toBits_lt (s : Bool) {m : ℕ} {q : ℤ} (h : Holds m q) :
    toBits (.finite s m q) < 2 ^ 64 := by
  have sign : signBit s ≤ 2 ^ 63 := by
    have one := s.toNat_le
    rw [signBit_eq]
    omega
  obtain rfl | some := m.eq_zero_or_pos
  · rw [toBits_zero]
    omega
  · obtain ⟨m', q', canonical, greatest, -, bits⟩ := magnitudeBits_canonical h some
    have short := canonical.short
    unfold greatestExponent at greatest
    have field : (q' + 1075).toNat ≤ 2046 := by omega
    rw [toBits, bits]
    split <;> omega

/-- What a double can hold. -/
def Fits : Binary64 → Prop
  | .finite _ m q => Holds m q
  | _ => True

theorem fits_ofBits (bits : ℕ) : Fits (ofBits bits) := by
  have field : bits / Nat.pow 2 52 % Nat.pow 2 11 < 2 ^ 11 := Nat.mod_lt _ (by norm_num)
  cases parts : ofBits bits with
  | nan => exact trivial
  | infinite s => exact trivial
  | finite s m q =>
    have canonical := canonical_of_ofBits parts
    refine ⟨canonical.short, canonical.least, ?_⟩
    unfold ofBits at parts
    unfold greatestExponent
    dsimp only at parts
    split_ifs at parts
    · cases parts
      omega
    · cases parts
      omega

/-- A double that is made of what it can hold stands for it. -/
theorem ofFloat_toFloat {x : Binary64} (h : Fits x) :
    Extended.ofFloat x.toFloat = Extended.ofBinary64 x := by
  match x with
  | .nan => rfl
  | .infinite s => cases s <;> rfl
  | .finite s m q =>
    rw [Extended.ofFloat, toFloat, ofFloat_ofBits, UInt64.toNat_ofNat',
      Nat.mod_eq_of_lt (toBits_lt s h), ofBinary64_ofBits_toBits s h]

end Binary64

end ExpressionArt
