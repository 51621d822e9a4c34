import ExpressionArt.Number.Binary64
import Mathlib

/-!
# Doubles and their parts

A double that is a number is told by its parts, and its parts are canonical: the exponent is the
least one that leaves room for the mantissa.
-/

namespace ExpressionArt

namespace Binary64

/-- The mantissa has its leading bit unless the exponent is the least one. -/
structure Canonical (m : Nat) (q : Int) : Prop where
  short : m < 2 ^ 53
  least : -1074 ≤ q
  leading : q ≠ -1074 → 2 ^ 52 ≤ m

theorem canonical_of_ofBits {bits : Nat} {s : Bool} {m : Nat} {q : Int}
    (h : ofBits bits = .finite s m q) : Canonical m q := by
  unfold ofBits at h
  dsimp only [Nat.pow_eq] at h
  have fraction : bits % 2 ^ 52 < 2 ^ 52 := Nat.mod_lt _ (by norm_num)
  split at h
  · split at h <;> cases h
  split at h
  · cases h
    exact ⟨by omega, by omega, by omega⟩
  · cases h
    exact ⟨by omega, by omega, by omega⟩

/-- The sign, the exponent and the fraction make up the bits. -/
theorem bits_eq {bits : Nat} (h : bits < 2 ^ 64) :
    bits = bits / 2 ^ 63 % 2 * 2 ^ 63 + bits / 2 ^ 52 % 2 ^ 11 * 2 ^ 52 + bits % 2 ^ 52 := by
  omega

/-- Bits that are no NaN are told by their parts. -/
theorem ofBits_injective {a b : Nat} (ha : a < 2 ^ 64) (hb : b < 2 ^ 64) (number : ofBits a ≠ .nan)
    (same : ofBits a = ofBits b) : a = b := by
  have parts : (a / 2 ^ 63 % 2 == 1) = (b / 2 ^ 63 % 2 == 1) ∧
      a / 2 ^ 52 % 2 ^ 11 = b / 2 ^ 52 % 2 ^ 11 ∧ a % 2 ^ 52 = b % 2 ^ 52 := by
    have shortA : a % 2 ^ 52 < 2 ^ 52 := Nat.mod_lt _ (by norm_num)
    have shortB : b % 2 ^ 52 < 2 ^ 52 := Nat.mod_lt _ (by norm_num)
    simp only [ofBits, Nat.pow_eq] at same number
    generalize a % 2 ^ 52 = fractionA at *
    generalize b % 2 ^ 52 = fractionB at *
    generalize a / 2 ^ 52 % 2 ^ 11 = exponentA at *
    generalize b / 2 ^ 52 % 2 ^ 11 = exponentB at *
    grind
  obtain ⟨sign, exponent, fraction⟩ := parts
  have signs : a / 2 ^ 63 % 2 = b / 2 ^ 63 % 2 := by grind
  rw [bits_eq ha, bits_eq hb, signs, exponent, fraction]

/-! ## Unpacked doubles -/

section

open Float.Model UnpackedFloat

def isNegative : Sign → Bool
  | .negative => true
  | .positive => false

/-- The parts of a double that is unpacked. -/
def parts : UnpackedFloat → Binary64
  | .notANumber => .nan
  | .infinity s => .infinite (isNegative s)
  | .zero s => .finite (isNegative s) 0 (-1074)
  | .finite s m e _ => .finite (isNegative s) m e

theorem toNat_unpackMantissa (b : BitVec 64) :
    (@unpackMantissa .binary64 b).toNat = b.toNat % 2 ^ 52 := by
  simp [unpackMantissa]

theorem toNat_unpackExponent (b : BitVec 64) :
    (@unpackExponent .binary64 b).toNat = b.toNat / 2 ^ 52 % 2 ^ 11 := by
  simp [unpackExponent, Nat.shiftRight_eq_div_pow]

theorem isNegative_unpackSign (b : BitVec 64) :
    isNegative (Sign.ofBitVec (@unpackSign .binary64 b)) =
      (b.toNat / 2 ^ 63 % 2 == 1) := by
  have bit : (@unpackSign .binary64 b).toNat = b.toNat / 2 ^ 63 % 2 := by
    simp [unpackSign, Nat.shiftRight_eq_div_pow]
  have zero : @unpackSign .binary64 b = 0#1 ↔ b.toNat / 2 ^ 63 % 2 = 0 := by
    rw [← bit, ← BitVec.toNat_inj]
    rfl
  unfold Sign.ofBitVec
  split
  · next positive => rw [zero.1 positive]; rfl
  · next negative =>
    have one : b.toNat / 2 ^ 63 % 2 = 1 := Nat.mod_two_ne_zero.1 (mt zero.2 negative)
    rw [one]
    rfl

/-- The leading bit of a normal double is not written. -/
theorem toNat_one_append (fraction : BitVec 52) :
    (1#1 ++ fraction).toNat = 2 ^ 52 + fraction.toNat := by
  rw [BitVec.toNat_append]
  exact (Nat.shiftLeft_add_eq_or_of_lt (i := 52) fraction.isLt 1).symm

theorem ofBits_toNat (b : BitVec 64) :
    ofBits b.toNat = parts (UnpackedFloat.unpack .binary64 b) := by
  have ones : @unpackExponent .binary64 b = -1#_ ↔ b.toNat / 2 ^ 52 % 2 ^ 11 = 0x7FF := by
    rw [← toNat_unpackExponent, ← BitVec.toNat_inj]
    rfl
  have zeros : @unpackExponent .binary64 b = 0#_ ↔ b.toNat / 2 ^ 52 % 2 ^ 11 = 0 := by
    rw [← toNat_unpackExponent, ← BitVec.toNat_inj]
    rfl
  have none : @unpackMantissa .binary64 b = 0#_ ↔ b.toNat % 2 ^ 52 = 0 := by
    rw [← toNat_unpackMantissa, ← BitVec.toNat_inj]
    rfl
  unfold UnpackedFloat.unpack ofBits
  simp only [Nat.pow_eq, ones, zeros, none, ← isNegative_unpackSign]
  split_ifs with special empty subnormal empty
  · rfl
  · rfl
  · simp only [parts, empty]
  · simp only [parts, toNat_unpackMantissa, toNat_unpackExponent, subnormal]
    rfl
  · simp only [parts, toNat_one_append, toNat_unpackMantissa, toNat_unpackExponent]
    rfl

theorem ofFloat_eq_parts (x : Float) : ofFloat x = parts x.toModel.unpack :=
  ofBits_toNat x.toBits.toBitVec

theorem isNaN_of_ofFloat {a : Float} (h : ofFloat a = .nan) : a.isNaN = true := by
  rw [ofFloat_eq_parts] at h
  change a.toModel.unpack.isNaN = true
  cases unpacked : a.toModel.unpack with
  | notANumber => rfl
  | infinity s => rw [unpacked] at h; cases h
  | zero s => rw [unpacked] at h; cases h
  | finite s m e positive => rw [unpacked] at h; cases h

end

/-- Doubles with the same parts are the same unless they are no numbers. -/
theorem eq_of_ofFloat {a b : Float} (known : ofFloat a ≠ .nan) (same : ofFloat a = ofFloat b) :
    a = b := by
  have bits : a.toBits.toNat = b.toBits.toNat :=
    ofBits_injective a.toBits.toNat_lt b.toBits.toNat_lt known same
  exact Float.toBits_inj.1 (UInt64.toNat_inj.1 bits)

/-- A double that is a number is told by its parts. -/
theorem ofFloat_injective {a b : Float} (number : a.isNaN = false) (same : ofFloat a = ofFloat b) :
    a = b :=
  eq_of_ofFloat (fun h => Bool.false_ne_true (number.symm.trans (isNaN_of_ofFloat h))) same

end Binary64

end ExpressionArt
