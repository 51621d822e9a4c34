import ExpressionArt.Proofs.Random.Choice

/-!
# Every option can be selected

The middle of the interval of an option, rounded to a double, still selects the option: both
roundings together move the product with the count by much less than one half.
-/

namespace ExpressionArt

/-- A draw that is not negative and less than one. -/
def Binary64.InUnit : Binary64 → Prop
  | .finite negative m q => (negative → m = 0) ∧ (ratio m q).1 < (ratio m q).2
  | _ => False

/-- Each of up to so many options is selected by some draw of the unit interval. -/
def SelectsEach (limit : Nat) : Prop :=
  ∀ n ≤ limit, ∀ k < n, ∃ d : Binary64, d.InUnit ∧ (d.times n).cut = .ok (k : Int)

theorem choiceIndex_of_cut {d : Binary64} {n : Nat} (i : Fin n)
    (h : (d.times n).cut = .ok (i : Int)) : choiceIndex d n = .ok i := by
  simp [choiceIndex, h]

theorem SelectsEach.mono {m n : Nat} (h : SelectsEach n) (le : m ≤ n) : SelectsEach m :=
  fun count few => h count (few.trans le)

namespace Binary64

/-- The draw in the middle of the `k`th of `n` intervals. -/
def middle (k n : Nat) : Binary64 := .nearest false (2 * k + 1) (2 * n)

theorem middle_near {k n : Nat} (h : k < n) : ∃ m q, middle k n = .finite false m q ∧
    |exactly m q - (2 * k + 1) / (2 * n)| ≤ 2 ^ (-54 : Int) := by
  have positive : 0 < 2 * n := by omega
  have positive' : (0 : ℚ) < (2 * n : Nat) := by exact_mod_cast positive
  have below : ((2 * k + 1 : Nat) : ℚ) / (2 * n : Nat) < 2 ^ 0 := by
    rw [pow_zero, div_lt_one positive']
    exact_mod_cast (by omega : 2 * k + 1 < 2 * n)
  obtain ⟨m, q, eq, near⟩ := nearest_near false positive below (by decide)
  refine ⟨m, q, eq, ?_⟩
  push_cast at near
  exact near.trans (le_of_eq (by norm_num))

theorem inUnit_of_lt_one {m : Nat} {q : Int} (h : exactly m q < 1) :
    InUnit (.finite false m q) := by
  have positive : (0 : ℚ) < (ratio m q).2 := by exact_mod_cast ratio_den_pos m q
  rw [exactly_eq_ratio, div_lt_one positive] at h
  exact ⟨nofun, by exact_mod_cast h⟩

end Binary64

theorem selectsEach : SelectsEach Lehmer.maxOptions := by
  intro n few k h
  obtain ⟨m, q, eq, near⟩ := Binary64.middle_near h
  have count : (n : ℚ) ≤ 2 ^ 20 := by exact_mod_cast few
  have any : (0 : ℚ) < n := by exact_mod_cast Nat.lt_of_le_of_lt k.zero_le h
  have last : (k : ℚ) + 1 ≤ n := by exact_mod_cast h
  obtain ⟨low, high⟩ := abs_le.1 near
  have half : (2 * (k : ℚ) + 1) / (2 * n) * n = k + 1 / 2 := by field_simp
  have error : (2 : ℚ) ^ (-54 : Int) * n ≤ 2 ^ (-34 : Int) := by
    calc (2 : ℚ) ^ (-54 : Int) * n ≤ 2 ^ (-54 : Int) * 2 ^ 20 := by gcongr
      _ = 2 ^ (-34 : Int) := by norm_num
  have tiny : (2 : ℚ) ^ (-34 : Int) < 1 / 4 := by norm_num
  -- The draw times the count is within a quarter of the middle of the option.
  have lower : (k : ℚ) + 1 / 4 ≤ Binary64.exactly m q * n := by
    have := mul_le_mul_of_nonneg_right low any.le
    rw [sub_mul, half] at this
    linarith
  have upper : Binary64.exactly m q * n ≤ k + 3 / 4 := by
    have := mul_le_mul_of_nonneg_right high any.le
    rw [sub_mul, half] at this
    linarith
  have below : Binary64.exactly m q < 1 := by
    by_contra above
    have := mul_le_mul_of_nonneg_right (not_lt.1 above) any.le
    linarith
  obtain ⟨m', q', eq', near'⟩ := Binary64.times_near false below few (by decide)
  have rounding : (2 : ℚ) ^ ((20 : Nat) - 53 : Int) / 2 < 1 / 4 := by norm_num
  obtain ⟨low', high'⟩ := abs_le.1 near'
  refine ⟨_, eq ▸ Binary64.inUnit_of_lt_one below, ?_⟩
  rw [eq, eq', Binary64.cut, Binary64.truncate_eq_floor]
  congr 1
  rw [Int.floor_eq_iff]
  constructor
  · push_cast
    linarith
  · push_cast
    linarith

end ExpressionArt
