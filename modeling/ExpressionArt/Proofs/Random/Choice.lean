import ExpressionArt.Proofs.Number.Nearest
import ExpressionArt.Proofs.Synthesis.Drawing
import ExpressionArt.Random.Lehmer

/-!
# Choices of a seeded generator

A draw of the generator is a fraction rounded to a double, and its product with a count is rounded
once more. Both roundings together move it by less than one part in the modulus, so that the cut
product always selects one of the options.
-/

namespace ExpressionArt

namespace Lehmer

/-- Draws are known to select among as many options. -/
def maxOptions : Nat := Nat.pow 2 20

theorem value_near {state : Nat} (h : state < modulus) :
    ∃ m q, value state = .finite false m q ∧
      |Binary64.exactly m q - (state : ℚ) / modulus| ≤ 2 ^ (-54 : Int) := by
  have positive : (0 : ℚ) < modulus := by norm_num [modulus]
  have below : (state : ℚ) / modulus < 2 ^ 0 := by
    rw [pow_zero, div_lt_one positive]
    exact_mod_cast h
  obtain ⟨m, q, eq, near⟩ := Binary64.nearest_near false (by decide) below (by decide)
  refine ⟨m, q, eq, near.trans (le_of_eq ?_)⟩
  norm_num

/-- No draw is rounded up to one. -/
theorem lt_one_of_near {state : Nat} {x : ℚ} (h : state < modulus)
    (near : |x - (state : ℚ) / modulus| ≤ 2 ^ (-54 : Int)) : x < 1 := by
  have positive : (0 : ℚ) < modulus := by norm_num [modulus]
  have last : (state : ℚ) / modulus ≤ 1 - 1 / modulus := by
    have next : (state : ℚ) + 1 ≤ modulus := by exact_mod_cast h
    rw [div_le_iff₀ positive, sub_mul, div_mul_cancel₀ _ positive.ne']
    linarith
  have gap : (2 : ℚ) ^ (-54 : Int) < 1 / modulus := by norm_num [modulus]
  have := (abs_le.1 near).2
  linarith

/-- A count scales the error of a draw. -/
theorem scaled_near {state n : Nat} {x : ℚ} (few : n ≤ maxOptions)
    (near : |x - (state : ℚ) / modulus| ≤ 2 ^ (-54 : Int)) :
    |x * n - (state * n : ℚ) / modulus| ≤ 2 ^ (-34 : Int) := by
  have count : (n : ℚ) ≤ 2 ^ 20 := by exact_mod_cast few
  have factor : x * n - (state * n : ℚ) / modulus = (x - (state : ℚ) / modulus) * n := by ring
  rw [factor, abs_mul, Nat.abs_cast]
  calc |x - (state : ℚ) / modulus| * n
      ≤ 2 ^ (-54 : Int) * 2 ^ 20 := by gcongr
    _ = 2 ^ (-34 : Int) := by norm_num

/-- The product of a draw with a count is less than one part in the modulus off the exact one. -/
theorem times_value_near {state n : Nat} (h : state < modulus) (few : n ≤ maxOptions) :
    ∃ m q, (value state).times n = .finite false m q ∧
      |Binary64.exactly m q - (state * n : ℚ) / modulus| < 1 / modulus := by
  obtain ⟨m, q, eq, near⟩ := value_near h
  -- The product of the rounded draw is rounded once more; both errors add up.
  obtain ⟨m', q', eq', near'⟩ := Binary64.times_near false (lt_one_of_near h near) few (by decide)
  refine ⟨m', q', by rw [eq, eq'], ?_⟩
  calc |Binary64.exactly m' q' - (state * n : ℚ) / modulus|
      ≤ |Binary64.exactly m' q' - Binary64.exactly m q * n| +
        |Binary64.exactly m q * n - (state * n : ℚ) / modulus| := abs_sub_le _ _ _
    _ ≤ 2 ^ ((20 : Nat) - 53 : Int) / 2 + 2 ^ (-34 : Int) := add_le_add near' (scaled_near few near)
    _ < 1 / modulus := by norm_num [modulus]

/-- A draw of any state selects. -/
theorem selects_value {state : Nat} (h : state < modulus) :
    (value state).Selects maxOptions := by
  intro n any few
  obtain ⟨m, q, eq, near⟩ := times_value_near h few
  have positive : (0 : ℚ) < modulus := by norm_num [modulus]
  refine ⟨⌊Binary64.exactly m q⌋, ?_, ?_, ?_⟩
  · rw [eq, Binary64.cut, Binary64.truncate_eq_floor]
  · exact Int.floor_nonneg.2 (by unfold Binary64.exactly; positivity)
  · rw [Int.floor_lt, Int.cast_natCast]
    have exact_le : (state * n : ℚ) / modulus + 1 / modulus ≤ n := by
      have last : (state : ℚ) + 1 ≤ modulus := by exact_mod_cast h
      have one : (1 : ℚ) ≤ n := by exact_mod_cast any
      rw [← add_div, div_le_iff₀ positive]
      nlinarith
    have := (abs_lt.1 near).2
    linarith

theorem selects_of_next {g g' : Lehmer} {d : Binary64}
    (h : RandomSource.next? g = some (d, g')) : d.Selects maxOptions := by
  cases h
  exact selects_value (advance_lt g.state)

/-- A seeded generator supplies draws forever. -/
theorem supplies (g : Lehmer) : Supplies maxOptions g := by
  intro t _
  exact ⟨_, _, rfl, selects_of_next rfl⟩

end Lehmer

theorem Supplies.mono {σ : Type} [RandomSource σ] {s : σ} {m n : Nat} (h : Supplies n s)
    (le : m ≤ n) : Supplies m s := by
  intro t ht
  obtain ⟨d, u, hd, selects⟩ := h t ht
  exact ⟨d, u, hd, fun k any few => selects k any (few.trans le)⟩

end ExpressionArt
