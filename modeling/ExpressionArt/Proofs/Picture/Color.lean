import ExpressionArt.Picture.Color
import ExpressionArt.Proofs.Number.Sums

/-!
# Levels of channel values

A level is what remains of a scaled magnitude when what is no number becomes zero, an infinity an
end of the levels, and the rest is kept between the ends and rounded to an integer. Each of these
stages keeps the order of magnitudes, whatever rounds the product: it has to keep the order of
magnitudes itself and the levels as they are, and may go to infinity.
-/

namespace ExpressionArt

namespace Extended

/-- The number on the other side of zero. -/
def neg : Extended → Extended
  | .nan => .nan
  | .infinite s => .infinite !s
  | .finite q => .finite (-q)

/-- The order of numbers. What is no number is not below anything, nor above. -/
def Le : Extended → Extended → Prop
  | .finite p, .finite q => p ≤ q
  | .finite _, .infinite s => s = false
  | .infinite s, .finite _ => s = true
  | .infinite s, .infinite t => s = true ∨ t = false
  | _, _ => False

theorem abs_neg (v : Extended) : v.neg.abs = v.abs := by
  match v with
  | .nan => rfl
  | .infinite s => rfl
  | .finite q =>
    simp only [neg, abs]
    congr 1
    split_ifs <;> linarith

theorem abs_nonneg {v : Extended} {q : ℚ} (h : v.abs = .finite q) : 0 ≤ q := by
  match v with
  | .finite p =>
    obtain rfl := Extended.finite.inj h
    split_ifs <;> linarith

end Extended

/-- A rounding of products with the brightest level: it keeps the order of magnitudes, possibly at
infinity, and leaves each level as it is. -/
structure Scales (round : ℚ → Extended) : Prop where
  mono : ∀ p q, 0 ≤ p → p ≤ q → (round p).Le (round q)
  level : ∀ n ≤ maxLevel, round n = .finite n

/-! ## Stages of a level -/

/-- No number becomes zero, and an infinity an end of the levels. -/
def replaced : Extended → ℚ
  | .nan => 0
  | .infinite negative => if negative then 0 else maxLevel
  | .finite q => q

/-- Kept between the ends of the levels. -/
def clamped (q : ℚ) : ℚ := min (max q 0) maxLevel

/-- The integer that is cast to a byte. -/
def leveled (v : Extended) : ℤ := roundEven (clamped (replaced v))

theorem clamped_mono {p q : ℚ} (h : p ≤ q) : clamped p ≤ clamped q := by
  unfold clamped
  gcongr

theorem clamped_nonneg (q : ℚ) : 0 ≤ clamped q := le_min (le_max_right _ _) (Nat.cast_nonneg _)

theorem clamped_le (q : ℚ) : clamped q ≤ maxLevel := min_le_right _ _

theorem clamped_of_mem {q : ℚ} (nonneg : 0 ≤ q) (most : q ≤ maxLevel) : clamped q = q := by
  rw [clamped, max_eq_left nonneg, min_eq_left most]

theorem clamped_zero : clamped 0 = 0 := clamped_of_mem le_rfl (Nat.cast_nonneg _)

theorem clamped_maxLevel : clamped maxLevel = maxLevel :=
  clamped_of_mem (Nat.cast_nonneg _) le_rfl

/-- What replaces an infinity is at an end anyway, so that the order is kept. -/
theorem clamped_replaced_mono {u v : Extended} (h : u.Le v) :
    clamped (replaced u) ≤ clamped (replaced v) := by
  match u, v, h with
  | .finite _, .finite _, h => exact clamped_mono h
  | .finite p, .infinite false, _ => exact (clamped_le p).trans_eq clamped_maxLevel.symm
  | .infinite true, _, _ => exact clamped_zero.trans_le (clamped_nonneg _)
  | .infinite false, .infinite false, _ => exact le_rfl

theorem leveled_mono {u v : Extended} (h : u.Le v) : leveled u ≤ leveled v :=
  roundEven_mono (clamped_replaced_mono h)

theorem leveled_le (v : Extended) : leveled v ≤ maxLevel := by
  have most := roundEven_mono (clamped_le (replaced v))
  rwa [← Int.cast_natCast, roundEven_intCast] at most

theorem level_eq_leveled (v : Extended) : (level v : ℤ) = leveled v := by
  unfold leveled
  match v with
  | .nan => simp [level, replaced, clamped_zero, roundEven]
  | .infinite true => simp [level, replaced, clamped_zero, roundEven]
  | .infinite false =>
    simp only [level, replaced, Bool.false_eq_true, if_false, clamped_maxLevel]
    exact_mod_cast (roundEven_intCast maxLevel).symm
  | .finite q =>
    simp only [level, replaced]
    split_ifs with low high
    · have least : clamped q = 0 := by
        exact le_antisymm (clamped_zero ▸ clamped_mono low) (clamped_nonneg q)
      simp [least, roundEven]
    · have most : clamped q = maxLevel :=
        le_antisymm (clamped_le q) (clamped_maxLevel ▸ clamped_mono high)
      rw [most]
      exact_mod_cast (roundEven_intCast maxLevel).symm
    · have positive := (not_le.1 low).le
      have numerator : ((q.num.toNat : ℤ) : ℚ) = q.num := by
        rw [Int.toNat_of_nonneg (Rat.num_nonneg.2 positive)]
      have quotient : (q.num.toNat : ℚ) / q.den = q := by
        rw [← Int.cast_natCast, numerator, Rat.num_div_den]
      rw [roundDiv_eq_roundEven _ q.den_pos, quotient,
        clamped_of_mem positive (not_le.1 high).le]

/-! ## Scaled magnitudes -/

section

variable {round : ℚ → Extended}

/-- A magnitude is rounded to zero at least. -/
theorem Scales.zero_le (h : Scales round) {q : ℚ} (nonneg : 0 ≤ q) :
    (Extended.finite 0).Le (round q) := by
  have least := h.mono 0 q le_rfl nonneg
  rwa [← Nat.cast_zero, h.level 0 (Nat.zero_le _)] at least

theorem Scales.scaleWith_mono (h : Scales round) {u v : Extended} (le : u.abs.Le v.abs) :
    (scaleWith round u).Le (scaleWith round v) := by
  have most : (0 : ℚ) ≤ maxLevel := Nat.cast_nonneg _
  unfold scaleWith
  match hu : u.abs, hv : v.abs, le with
  | .finite p, .finite q, le =>
    have nonneg := mul_nonneg (Extended.abs_nonneg hu) most
    exact h.mono _ _ nonneg (mul_le_mul_of_nonneg_right le most)
  | .finite p, .infinite false, _ =>
    have least := h.zero_le (mul_nonneg (Extended.abs_nonneg hu) most)
    dsimp only
    match round (p * maxLevel), least with
    | .finite _, _ => exact rfl
    | .infinite false, _ => exact .inr rfl
  | .infinite true, _, _ => exact absurd hu (by cases u <;> simp [Extended.abs])
  | .infinite false, .infinite false, _ => exact .inr rfl

theorem Scales.levelWith_mono (h : Scales round) {u v : Extended} (le : u.abs.Le v.abs) :
    levelWith round u ≤ levelWith round v := by
  have levels := leveled_mono (h.scaleWith_mono le)
  rw [← level_eq_leveled, ← level_eq_leveled] at levels
  exact_mod_cast levels

theorem levelWith_le (round : ℚ → Extended) (v : Extended) : levelWith round v ≤ maxLevel := by
  have most := leveled_le (scaleWith round v)
  rw [← level_eq_leveled] at most
  exact_mod_cast most

/-- One is the brightest level. -/
theorem Scales.levelWith_one (h : Scales round) : levelWith round (.finite 1) = maxLevel := by
  have scaled : scaleWith round (.finite 1) = .finite maxLevel := by
    have magnitude : (Extended.finite 1).abs = .finite 1 := rfl
    rw [← h.level maxLevel le_rfl, scaleWith, magnitude]
    dsimp only
    rw [one_mul]
  rw [levelWith, scaled]
  rfl

end

/-! ## Products of doubles -/

theorem scales_nearest : Scales Extended.nearest where
  mono p q nonneg le := by
    have rounded := Binary64.rounded_mono nonneg le
    rw [Extended.nearest_of_nonneg nonneg,
      Extended.nearest_of_nonneg (nonneg.trans le)]
    split_ifs with left right
    · exact rounded
    · exact rfl
    · next right => exact absurd (rounded.trans_lt right) left
    · exact .inr rfl
  level n few := by
    have short : n < 2 ^ 53 := few.trans_lt (by decide)
    rw [Extended.nearest_of_nonneg n.cast_nonneg, Binary64.rounded_natCast short,
      if_pos (Binary64.natCast_lt_ceiling short)]

theorem toNat_toByte (x : Float) :
    (Channel.toByte x).toNat = levelWith Extended.nearest (.ofFloat x) := by
  have small : levelWith Extended.nearest (.ofFloat x) < 2 ^ 8 :=
    (levelWith_le _ _).trans_lt (by decide)
  exact Nat.mod_eq_of_lt small

/-- Whatever rounds the products, a channel value is cast to a byte as an integer among the levels:
the lowest for no number, the brightest from one on, the same on both sides of zero, and no lower
for a greater magnitude. The nearest doubles round so, and the bytes of a picture are these. -/
theorem levels_sanitised :
    (∀ round : ℚ → Extended, Scales round →
      (∀ v, leveled (scaleWith round v) = levelWith round v ∧ levelWith round v ≤ 255) ∧
      levelWith round .nan = 0 ∧
      (∀ v : Extended, (Extended.finite 1).Le v.abs → levelWith round v = 255) ∧
      (∀ v : Extended, levelWith round v.neg = levelWith round v) ∧
      ∀ u v : Extended, u.abs.Le v.abs → levelWith round u ≤ levelWith round v) ∧
    Scales Extended.nearest ∧
    ∀ x : Float, ((Channel.toByte x).toNat : ℤ) =
      leveled (scaleWith Extended.nearest (.ofFloat x)) := by
  refine ⟨fun round scales => ⟨fun v => ?_, rfl, fun v bright => ?_, fun v => ?_, fun u v le => ?_⟩,
    scales_nearest, fun x => ?_⟩
  · exact ⟨(level_eq_leveled _).symm, levelWith_le round v⟩
  · have least := scales.levelWith_mono (u := .finite 1) bright
    rw [scales.levelWith_one] at least
    exact le_antisymm (levelWith_le round v) least
  · rw [levelWith, levelWith, scaleWith, scaleWith, Extended.abs_neg]
  · exact scales.levelWith_mono le
  · rw [toNat_toByte]
    exact level_eq_leveled _

/-- A negative magnitude above one, one whose product overflows and an infinity are all the
brightest level, and an eighth is not brighter than a negative quarter. -/
theorem levels_of_doubles : Scales Extended.nearest ∧
    levelWith Extended.nearest (.finite (-3 / 2)) = 255 ∧
    levelWith Extended.nearest (.finite (2 ^ 1023)) = 255 ∧
    levelWith Extended.nearest (.infinite true) = 255 ∧
    levelWith Extended.nearest (.finite (1 / 8)) ≤
      levelWith Extended.nearest (.finite (-1 / 4)) := by
  obtain ⟨each, doubles, -⟩ := levels_sanitised
  obtain ⟨-, -, bright, -, ordered⟩ := each Extended.nearest doubles
  refine ⟨doubles, bright _ ?_, bright _ ?_, bright _ rfl, ordered _ _ ?_⟩
  · norm_num [Extended.abs, Extended.Le]
  · have power : (1 : ℚ) ≤ 2 ^ 1023 := one_le_pow₀ one_le_two
    rw [Extended.abs, if_neg (zero_le_one.trans power).not_gt]
    exact power
  · norm_num [Extended.abs, Extended.Le]

end ExpressionArt
