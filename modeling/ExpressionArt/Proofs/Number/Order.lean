import ExpressionArt.Proofs.Number.Parts
import ExpressionArt.Proofs.Number.Rounded

/-!
# The order of doubles

The machine compares doubles by their signs, then by their exponents and only then by their
mantissas. As parts are canonical, this is the order of the numbers that doubles stand for, with an
infinity at either end.
-/

namespace ExpressionArt

/-- Where a number stands among all numbers. -/
def Extended.place : Extended → WithBot (WithTop ℚ)
  | .nan => ⊥
  | .infinite negative => if negative then ⊥ else ⊤
  | .finite q => (q : WithTop ℚ)

namespace Binary64

/-- Of two canonical doubles the one with the greater exponent is the greater one. -/
theorem exactly_lt_of_exponent_lt {m m' : ℕ} {e e' : ℤ} (h : Canonical m e) (h' : Canonical m' e')
    (less : e < e') : exactly m e < exactly m' e' := by
  have leading : (2 : ℚ) ^ 52 ≤ m' := by
    exact_mod_cast h'.leading (by have := h.least; omega)
  have short : (m : ℚ) < 2 ^ 53 := by exact_mod_cast h.short
  calc exactly m e < 2 ^ 53 * 2 ^ e := by
        unfold exactly
        gcongr
    _ = 2 ^ 52 * 2 ^ (e + 1) := by
      rw [zpow_add_one₀ two_ne_zero]
      ring
    _ ≤ 2 ^ 52 * 2 ^ e' := by
      gcongr
      · exact one_le_two
      · omega
    _ ≤ exactly m' e' := by
      unfold exactly
      gcongr

theorem exactly_pos {m : ℕ} (some : 0 < m) (e : ℤ) : 0 < exactly m e := by
  unfold exactly
  positivity

theorem exactly_strictMono (e : ℤ) : StrictMono fun m => exactly m e := fun m m' less => by
  have less' : (m : ℚ) < m' := by exact_mod_cast less
  exact mul_lt_mul_of_pos_right less' (by positivity)

/-- Exponents first and mantissas second is the order of the numbers. -/
theorem compare_exactly {m m' : ℕ} {e e' : ℤ} (h : Canonical m e) (h' : Canonical m' e') :
    (compare e e').then (compare m m') = compare (exactly m e) (exactly m' e') := by
  obtain less | rfl | greater := lt_trichotomy e e'
  · rw [compare_lt_iff_lt.2 less, compare_lt_iff_lt.2 (exactly_lt_of_exponent_lt h h' less)]
    rfl
  · rw [compare_eq_iff_eq.2 rfl, Ordering.then]
    obtain less | rfl | greater := lt_trichotomy m m'
    · rw [compare_lt_iff_lt.2 less, compare_lt_iff_lt.2 (exactly_strictMono e less)]
    · rw [compare_eq_iff_eq.2 rfl, compare_eq_iff_eq.2 rfl]
    · rw [compare_gt_iff_gt.2 greater, compare_gt_iff_gt.2 (exactly_strictMono e greater)]
  · rw [compare_gt_iff_gt.2 greater, compare_gt_iff_gt.2 (exactly_lt_of_exponent_lt h' h greater)]
    rfl

section

open Float.Model UnpackedFloat

variable {u v : UnpackedFloat}

/-- The place of an unpacked double. -/
def placeOf (u : UnpackedFloat) : WithBot (WithTop ℚ) := (Extended.ofBinary64 (parts u)).place

theorem placeOf_zero (s : Sign) : placeOf (.zero s) = ((0 : ℚ) : WithTop ℚ) := by
  simp only [placeOf, parts, ofBinary64_finite, Extended.place]
  cases s <;> simp [isNegative, exactly]

theorem placeOf_finite (s : Sign) {m : ℕ} {e : ℤ} (some : 0 < m) : placeOf (.finite s m e some) =
    ((if isNegative s then -exactly m e else exactly m e : ℚ) : WithTop ℚ) := by
  simp only [placeOf, parts, ofBinary64_finite, Extended.place]

theorem compare_infinity_left (s : Sign) {q : ℚ} (h : placeOf v = (q : WithTop ℚ)) :
    compare (placeOf (.infinity s)) (placeOf v) = if isNegative s then .lt else .gt := by
  rw [h]
  cases s with
  | negative => exact compare_lt_iff_lt.2 (WithBot.bot_lt_coe _)
  | positive => exact compare_gt_iff_gt.2 (WithBot.coe_lt_coe.2 (WithTop.coe_lt_top q))

theorem compare_infinity_right (s : Sign) {q : ℚ} (h : placeOf u = (q : WithTop ℚ)) :
    compare (placeOf u) (placeOf (.infinity s)) = if isNegative s then .gt else .lt := by
  rw [h]
  cases s with
  | negative => exact compare_gt_iff_gt.2 (WithBot.bot_lt_coe _)
  | positive => exact compare_lt_iff_lt.2 (WithBot.coe_lt_coe.2 (WithTop.coe_lt_top q))

theorem compare_place {p q : ℚ} (hu : placeOf u = (p : WithTop ℚ))
    (hv : placeOf v = (q : WithTop ℚ)) : compare (placeOf u) (placeOf v) = compare p q := by
  have mono : StrictMono fun q : ℚ => ((q : WithTop ℚ) : WithBot (WithTop ℚ)) := fun p q less =>
    WithBot.coe_lt_coe.2 (WithTop.coe_lt_coe.2 less)
  rw [hu, hv]
  obtain less | rfl | greater := lt_trichotomy p q
  · rw [compare_lt_iff_lt.2 less, compare_lt_iff_lt.2 (mono less)]
  · rw [compare_eq_iff_eq.2 rfl, compare_eq_iff_eq.2 rfl]
  · rw [compare_gt_iff_gt.2 greater, compare_gt_iff_gt.2 (mono greater)]

theorem compare_neg (p q : ℚ) : compare (-p) (-q) = (compare p q).swap := by
  obtain less | rfl | greater := lt_trichotomy p q
  · rw [compare_lt_iff_lt.2 less, compare_gt_iff_gt.2 (neg_lt_neg less)]
    rfl
  · rw [compare_eq_iff_eq.2 rfl, compare_eq_iff_eq.2 rfl]
    rfl
  · rw [compare_gt_iff_gt.2 greater, compare_lt_iff_lt.2 (neg_lt_neg greater)]
    rfl

theorem compare_finite (s t : Sign) {m m' : ℕ} {e e' : ℤ} (some : 0 < m) (some' : 0 < m')
    (h : Canonical m e) (h' : Canonical m' e') :
    (UnpackedFloat.finite s m e some).compare (.finite t m' e' some') =
      .some (compare (if isNegative s then -exactly m e else exactly m e)
        (if isNegative t then -exactly m' e' else exactly m' e')) := by
  have apart : -exactly m e < exactly m' e' ∧ -exactly m' e' < exactly m e := by
    have positive := exactly_pos some e
    have positive' := exactly_pos some' e'
    constructor <;> linarith
  cases s with
  | positive =>
    cases t with
    | positive => exact congrArg _ (compare_exactly h h')
    | negative => exact congrArg _ (compare_gt_iff_gt.2 apart.2).symm
  | negative =>
    cases t with
    | positive => exact congrArg _ (compare_lt_iff_lt.2 apart.1).symm
    | negative =>
      have reversed := compare_neg (exactly m e) (exactly m' e')
      rw [← compare_exactly h h'] at reversed
      exact congrArg _ reversed.symm

/-- Comparing unpacked doubles with canonical parts is comparing their places. -/
theorem compare_unpacked (known : u ≠ .notANumber) (known' : v ≠ .notANumber)
    (hu : ∀ s m q, parts u = .finite s m q → Canonical m q)
    (hv : ∀ s m q, parts v = .finite s m q → Canonical m q) :
    u.compare v = some (compare (placeOf u) (placeOf v)) := by
  cases u with
  | notANumber => exact absurd rfl known
  | infinity s =>
    cases v with
    | notANumber => exact absurd rfl known'
    | infinity t => cases s <;> cases t <;> rfl
    | zero t =>
      rw [compare_infinity_left s (placeOf_zero t)]
      cases s <;> rfl
    | finite t m e positive =>
      rw [compare_infinity_left s (placeOf_finite t positive)]
      cases s <;> rfl
  | zero s =>
    cases v with
    | notANumber => exact absurd rfl known'
    | infinity t =>
      rw [compare_infinity_right t (placeOf_zero s)]
      cases t <;> rfl
    | zero t =>
      rw [compare_place (placeOf_zero s) (placeOf_zero t), compare_eq_iff_eq.2 rfl]
      rfl
    | finite t m e positive =>
      rw [compare_place (placeOf_zero s) (placeOf_finite t positive)]
      cases t with
      | positive => exact congrArg _ (compare_lt_iff_lt.2 (exactly_pos positive e)).symm
      | negative =>
        exact congrArg _ (compare_gt_iff_gt.2 (neg_lt_zero.2 (exactly_pos positive e))).symm
  | finite s m e positive =>
    cases v with
    | notANumber => exact absurd rfl known'
    | infinity t =>
      rw [compare_infinity_right t (placeOf_finite s positive)]
      cases t <;> rfl
    | zero t =>
      rw [compare_place (placeOf_finite s positive) (placeOf_zero t)]
      cases s with
      | positive => exact congrArg _ (compare_gt_iff_gt.2 (exactly_pos positive e)).symm
      | negative =>
        exact congrArg _ (compare_lt_iff_lt.2 (neg_lt_zero.2 (exactly_pos positive e))).symm
    | finite t m' e' positive' =>
      rw [compare_place (placeOf_finite s positive) (placeOf_finite t positive')]
      exact compare_finite s t positive positive' (hu _ _ _ rfl) (hv _ _ _ rfl)

end

variable {a b : Float}

theorem compare_eq (ha : a.isNaN = false) (hb : b.isNaN = false) :
    a.toModel.unpack.compare b.toModel.unpack =
      some (compare (Extended.ofFloat a).place (Extended.ofFloat b).place) := by
  have known {x : Float} (h : x.isNaN = false) : x.toModel.unpack ≠ .notANumber := by
    intro unpacked
    have nan : x.toModel.unpack.isNaN = false := h
    rw [unpacked] at nan
    cases nan
  have canonical (x : Float) (s m q) (h : parts x.toModel.unpack = .finite s m q) :
      Canonical m q := by
    rw [← ofFloat_eq_parts] at h
    exact canonical_of_ofBits h
  rw [compare_unpacked (known ha) (known hb) (canonical a) (canonical b), placeOf, placeOf,
    ← ofFloat_eq_parts, ← ofFloat_eq_parts]
  rfl

theorem le_iff_compare :
    a ≤ b ↔ (a.toModel.unpack.compare b.toModel.unpack).any (·.isLE) = true :=
  decide_eq_true_iff

theorem lt_iff_place (ha : a.isNaN = false) (hb : b.isNaN = false) :
    a < b ↔ (Extended.ofFloat a).place < (Extended.ofFloat b).place := by
  have less : a < b ↔ (a.toModel.unpack.compare b.toModel.unpack == some .lt) = true :=
    decide_eq_true_iff
  rw [less, compare_eq ha hb, ← compare_lt_iff_lt]
  simp

theorem le_iff_place (ha : a.isNaN = false) (hb : b.isNaN = false) :
    a ≤ b ↔ (Extended.ofFloat a).place ≤ (Extended.ofFloat b).place := by
  rw [le_iff_compare, compare_eq ha hb, ← compare_le_iff_le, Option.any_some,
    Ordering.isLE_iff_ne_gt]

theorem beq_iff_place (ha : a.isNaN = false) (hb : b.isNaN = false) :
    (a == b) = true ↔ (Extended.ofFloat a).place = (Extended.ofFloat b).place := by
  change (a.toModel.unpack.compare b.toModel.unpack == some .eq) = true ↔ _
  rw [compare_eq ha hb, ← compare_eq_iff_eq]
  simp

theorem not_le_of_isNaN (hb : b.isNaN = true) : ¬ a ≤ b := by
  have unpacked : b.toModel.unpack = .notANumber := by
    change b.toModel.unpack.isNaN = true at hb
    exact Float.Model.UnpackedFloat.isNaN_iff.1 hb
  rw [le_iff_compare, unpacked]
  cases a.toModel.unpack <;> exact Bool.false_ne_true

/-! ## Finite doubles -/

theorem isNaN_eq_true_iff : a.isNaN = true ↔ Extended.ofFloat a = .nan := by
  have unpacked : Extended.ofFloat a = Extended.ofBinary64 (parts a.toModel.unpack) := by
    rw [Extended.ofFloat, ofFloat_eq_parts]
  change a.toModel.unpack.isNaN = true ↔ _
  rw [unpacked]
  cases a.toModel.unpack with
  | notANumber => exact iff_of_true rfl rfl
  | infinity s => exact iff_of_false nofun nofun
  | zero s => exact iff_of_false nofun nofun
  | finite s m e positive => exact iff_of_false nofun nofun

theorem isNaN_of_finite {p : ℚ} (h : Extended.ofFloat a = .finite p) : a.isNaN = false := by
  refine Bool.eq_false_iff.2 fun nan => ?_
  rw [isNaN_eq_true_iff.1 nan] at h
  cases h

theorem ofFloat_zero : Extended.ofFloat 0 = .finite 0 := by
  have zero : ofFloat 0 = .finite false 0 (-1074) := rfl
  rw [Extended.ofFloat, zero, ofBinary64_finite]
  simp [exactly]

variable {p q : ℚ}

theorem lt_iff_of_finite (ha : Extended.ofFloat a = .finite p)
    (hb : Extended.ofFloat b = .finite q) : a < b ↔ p < q := by
  rw [lt_iff_place (isNaN_of_finite ha) (isNaN_of_finite hb), ha, hb, Extended.place,
    Extended.place, WithBot.coe_lt_coe, WithTop.coe_lt_coe]

theorem le_iff_of_finite (ha : Extended.ofFloat a = .finite p)
    (hb : Extended.ofFloat b = .finite q) : a ≤ b ↔ p ≤ q := by
  rw [le_iff_place (isNaN_of_finite ha) (isNaN_of_finite hb), ha, hb, Extended.place,
    Extended.place, WithBot.coe_le_coe, WithTop.coe_le_coe]

end Binary64

end ExpressionArt
