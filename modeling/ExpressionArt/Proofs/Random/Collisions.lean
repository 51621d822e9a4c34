import ExpressionArt.Proofs.Random.Period
import Mathlib.Data.Int.CardIntervalMod

/-!
# Seeds that draw the same stream

The hash of seeds is a permutation of the words, since its multiplier is odd. A stream forgets all
of its word but the residue modulo the prime, and there are two words more than twice the prime: so
two words start each stream, but three start the stream of zeros and three the one of the word one.
-/

namespace ExpressionArt

/-- The factor that undoes the hash. -/
def hashInverse : Nat := 244002641

theorem hashMultiplier_mul_inverse : (hashMultiplier : ZMod wordSize) * hashInverse = 1 := by
  decide +kernel

theorem hashSeed_cast (a : Int) : (hashSeed a : ZMod wordSize) = a * hashMultiplier := by
  have residue : ((a % wordSize).toNat : Int) = a % wordSize :=
    Int.toNat_of_nonneg (Int.emod_nonneg a (by decide))
  rw [hashSeed, ZMod.natCast_mod, Nat.cast_mul, ← Int.cast_natCast, residue, ZMod.intCast_mod]

/-- A word is the hash of the seeds that it gives back times the inverse factor. -/
theorem hashSeed_eq_iff_cast {a : Int} {w : Nat} (h : w < wordSize) :
    hashSeed a = w ↔ (a : ZMod wordSize) = w * hashInverse := by
  have words : hashSeed a = w ↔ (hashSeed a : ZMod wordSize) = w := by
    rw [ZMod.natCast_eq_natCast_iff', Nat.mod_eq_of_lt (hashSeed_lt a), Nat.mod_eq_of_lt h]
  rw [words, hashSeed_cast]
  constructor
  · intro e
    rw [← e, mul_assoc, hashMultiplier_mul_inverse, mul_one]
  · intro e
    rw [e, mul_assoc, mul_comm (hashInverse : ZMod wordSize), hashMultiplier_mul_inverse, mul_one]

theorem hashSeed_eq_iff {a b : Int} : hashSeed a = hashSeed b ↔ a ≡ b [ZMOD wordSize] := by
  rw [hashSeed_eq_iff_cast (hashSeed_lt b), ← (hashSeed_eq_iff_cast (hashSeed_lt b)).1 rfl,
    ZMod.intCast_eq_intCast_iff]

theorem range_hashSeed : Set.range hashSeed = Set.Iio wordSize := by
  ext w
  constructor
  · rintro ⟨a, rfl⟩
    exact hashSeed_lt a
  · intro h
    refine ⟨(w * hashInverse : Nat), (hashSeed_eq_iff_cast h).2 ?_⟩
    push_cast
    rfl

namespace Lehmer

/-- Two seeds have the same states from the first draw on. -/
def SameStream (a b : Int) : Prop :=
  ∀ k, 1 ≤ k → ((ofSeed a).take k).2.state = ((ofSeed b).take k).2.state

theorem sameStream_iff {a b : Int} : SameStream a b ↔ hashSeed a ≡ hashSeed b [MOD modulus] := by
  constructor
  · intro same
    have first := same 1 le_rfl
    rw [state_take _ le_rfl, state_take _ le_rfl] at first
    have coprime : Nat.gcd modulus (multiplier ^ 1) = 1 := by decide +kernel
    exact Nat.ModEq.cancel_left_of_coprime coprime first
  · intro congruent k any
    rw [state_take _ any, state_take _ any]
    exact congruent.mul_left _

/-- The residues of the seeds that draw the stream of a seed. -/
def classesOf (seed : Int) : Finset (ZMod wordSize) :=
  ((Finset.range wordSize).filter (· ≡ hashSeed seed [MOD modulus])).image
    fun w : Nat => (w : ZMod wordSize) * hashInverse

theorem mem_classesOf {a seed : Int} :
    (a : ZMod wordSize) ∈ classesOf seed ↔ SameStream a seed := by
  rw [sameStream_iff, classesOf, Finset.mem_image]
  constructor
  · rintro ⟨w, member, e⟩
    obtain ⟨below, congruent⟩ := Finset.mem_filter.1 member
    rwa [(hashSeed_eq_iff_cast (Finset.mem_range.1 below)).2 e.symm]
  · intro congruent
    have below := hashSeed_lt a
    exact ⟨hashSeed a, Finset.mem_filter.2 ⟨Finset.mem_range.2 below, congruent⟩,
      ((hashSeed_eq_iff_cast below).1 rfl).symm⟩

/-- Words are spread evenly, but for two more than twice the modulus. -/
theorem card_classesOf (seed : Int) :
    (classesOf seed).card = 2 + if hashSeed seed % modulus < 2 then 1 else 0 := by
  have injective : Set.InjOn (fun w : Nat => (w : ZMod wordSize) * hashInverse)
      ((Finset.range wordSize).filter (· ≡ hashSeed seed [MOD modulus])) := by
    intro v hv w hw same
    have hv := Finset.mem_range.1 (Finset.mem_filter.1 hv).1
    have hw := Finset.mem_range.1 (Finset.mem_filter.1 hw).1
    obtain ⟨a, rfl⟩ : v ∈ Set.range hashSeed := range_hashSeed ▸ hv
    exact (hashSeed_eq_iff_cast hw).2 (((hashSeed_eq_iff_cast hv).1 rfl).trans same)
  rw [classesOf, Finset.card_image_of_injOn injective, ← Nat.count_eq_card_filter_range,
    Nat.count_modEq_card wordSize prime_modulus.pos]
  rfl

/-- The stream of zeros, or the one of the seeds whose words leave a remainder of one. -/
def Crowded (seed : Int) : Prop :=
  (∀ k, 1 ≤ k → ((ofSeed seed).take k).2.state = 0) ∨ hashSeed seed ≡ 1 [MOD modulus]

theorem crowded_iff {seed : Int} : Crowded seed ↔ hashSeed seed % modulus < 2 := by
  have zeros : (∀ k, 1 ≤ k → ((ofSeed seed).take k).2.state = 0) ↔ modulus ∣ hashSeed seed :=
    ⟨fun all => (state_take_eq_zero_iff le_rfl).1 (all 1 le_rfl),
      fun dvd k any => (state_take_eq_zero_iff any).2 dvd⟩
  have one : 1 % modulus = 1 := rfl
  rw [Crowded, zeros, Nat.dvd_iff_mod_eq_zero, Nat.ModEq, one]
  omega

/-- Two seeds have one word just if they are congruent modulo the number of words, and every word
is the word of some seed. Two streams are the same from the first draw on just if the words are
congruent modulo the prime. So the seeds of a stream are those of two residue classes, but of three
for the stream of zeros and for the one whose words leave a remainder of one. -/
theorem seed_collisions :
    (∀ a b, hashSeed a = hashSeed b ↔ a ≡ b [ZMOD wordSize]) ∧
    Set.range hashSeed = Set.Iio wordSize ∧
    (∀ a b, SameStream a b ↔ hashSeed a ≡ hashSeed b [MOD modulus]) ∧
    ∀ seed, ∃ classes : Finset (ZMod wordSize),
      (∀ a : Int, SameStream a seed ↔ (a : ZMod wordSize) ∈ classes) ∧
      (Crowded seed → classes.card = 3) ∧ (¬ Crowded seed → classes.card = 2) := by
  refine ⟨fun a b => hashSeed_eq_iff, range_hashSeed, fun a b => sameStream_iff, fun seed =>
    ⟨classesOf seed, fun a => mem_classesOf.symm, fun crowded => ?_, fun crowded => ?_⟩⟩
  · rw [card_classesOf, if_pos (crowded_iff.1 crowded)]
  · rw [card_classesOf, if_neg (crowded_iff.not.1 crowded)]

end Lehmer

end ExpressionArt
