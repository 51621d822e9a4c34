import ExpressionArt.Proofs.Number.Rounded
import ExpressionArt.Proofs.Random.Period
import ExpressionArt.Proofs.Random.Selection

/-!
# Choices are integer quotients

The product of a state with a count of options is no multiple of the modulus, which is prime, unless
the state is zero. The exact choice therefore lies at least one part in the modulus away from every
integer, and the two roundings of a choice move it by less: what is cut off at the end is the
integer quotient.
-/

namespace ExpressionArt

namespace Lehmer

variable {state n : ℕ}

theorem index_lt (h : state < modulus) (any : 0 < n) : state * n / modulus < n :=
  Nat.div_lt_of_lt_mul (Nat.mul_lt_mul_of_pos_right h any)

/-- A state that is not zero leaves a remainder with every count. -/
theorem mul_mod_pos (some : 0 < state) (h : state < modulus) (any : 0 < n) (few : n < modulus) :
    0 < state * n % modulus := by
  refine Nat.pos_of_ne_zero fun zero => ?_
  obtain divides | divides := prime_modulus.dvd_mul.1 (Nat.dvd_of_mod_eq_zero zero)
  · exact absurd (Nat.le_of_dvd some divides) (Nat.not_le.2 h)
  · exact absurd (Nat.le_of_dvd any divides) (Nat.not_le.2 few)

/-- What is less than one part in the modulus off the exact choice has its integer part. -/
theorem floor_of_near {x : ℚ} (nonneg : 0 ≤ x) (h : state < modulus) (any : 0 < n)
    (few : n < modulus) (near : |x - (state * n : ℕ) / modulus| < 1 / modulus) :
    ⌊x⌋ = ((state * n / modulus : ℕ) : ℤ) := by
  have positive : (0 : ℚ) < modulus := by norm_num [modulus]
  have whole : ⌊((state * n : ℕ) : ℚ) / modulus⌋ = ((state * n / modulus : ℕ) : ℤ) :=
    Rat.floor_natCast_div_natCast ..
  have rest : Int.fract (((state * n : ℕ) : ℚ) / modulus) =
      ((state * n % modulus : ℕ) : ℚ) / modulus := Int.fract_div_natCast_eq_div_natCast_mod
  have parts := Int.floor_add_fract (((state * n : ℕ) : ℚ) / modulus)
  have last : ((state * n % modulus : ℕ) : ℚ) / modulus ≤ 1 - 1 / modulus := by
    have less : ((state * n % modulus : ℕ) : ℚ) + 1 ≤ modulus := by
      exact_mod_cast Nat.mod_lt (state * n) (by decide)
    rw [div_le_iff₀ positive, sub_mul, div_mul_cancel₀ _ positive.ne']
    linarith
  obtain ⟨low, high⟩ := abs_lt.1 near
  rw [whole, rest] at parts
  rw [Int.floor_eq_iff]
  refine ⟨?_, by linarith⟩
  obtain rfl | some := state.eq_zero_or_pos
  · simpa using nonneg
  · have first : 1 / (modulus : ℚ) ≤ ((state * n % modulus : ℕ) : ℚ) / modulus := by
      have one : (1 : ℚ) ≤ (state * n % modulus : ℕ) := by
        exact_mod_cast mul_mod_pos some h any few
      gcongr
    linarith

/-! ## Both roundings -/

/-- A number that is zero or not tiny. -/
def Sizable (x : ℚ) : Prop := x = 0 ∨ 2 ^ (-31 : ℤ) ≤ x

theorem Sizable.rounded_eq {x : ℚ} (h : Sizable x) : Binary64.rounded x = significant x := by
  refine Binary64.rounded_eq_significant (h.imp_right fun above => le_trans ?_ above)
  exact zpow_le_zpow_right₀ one_lt_two.le (by decide)

theorem Sizable.rounded {x : ℚ} (h : Sizable x) : Sizable (Binary64.rounded x) := by
  obtain rfl | above := h
  · exact .inl Binary64.rounded_zero
  · exact .inr (Binary64.zpow_le_rounded above (by decide))

theorem Sizable.mul_natCast {x : ℚ} (h : Sizable x) (any : 0 < n) : Sizable (x * n) := by
  obtain rfl | above := h
  · exact .inl (zero_mul _)
  · have one : (1 : ℚ) ≤ n := by exact_mod_cast any
    have positive : (0 : ℚ) < 2 ^ (-31 : ℤ) := by positivity
    exact .inr (by nlinarith)

theorem sizable_fraction (state : ℕ) : Sizable ((state : ℚ) / modulus) := by
  obtain rfl | some := state.eq_zero_or_pos
  · exact .inl (by simp)
  · have one : (1 : ℚ) ≤ state := by exact_mod_cast some
    have first : (2 : ℚ) ^ (-31 : ℤ) ≤ 1 / modulus := by norm_num [modulus]
    refine .inr (first.trans ?_)
    gcongr

/-- The fraction of a state, rounded to 53 significant bits. -/
def fraction (state : ℕ) : ℚ := significant ((state : ℚ) / modulus)

theorem rounded_fraction (state : ℕ) :
    Binary64.rounded ((state : ℚ) / modulus) = fraction state :=
  (sizable_fraction state).rounded_eq

theorem div_modulus_le (h : state < modulus) : (state : ℚ) / modulus ≤ (1 : ℕ) := by
  rw [Nat.cast_one, div_le_one (by norm_num [modulus])]
  exact_mod_cast h.le

theorem fraction_mul_le (h : state < modulus) (n : ℕ) : fraction state * n ≤ n := by
  have one := Binary64.rounded_le_natCast (by positivity) (div_modulus_le h) (by norm_num)
  rw [rounded_fraction, Nat.cast_one] at one
  exact mul_le_of_le_one_left n.cast_nonneg one

/-- A draw is the fraction of its state. -/
theorem ofBinary64_value (h : state < modulus) :
    Extended.ofBinary64 (value state) = .finite (fraction state) := by
  rw [← rounded_fraction]
  exact Binary64.ofBinary64_nearest_of_le (by decide) (div_modulus_le h) (by norm_num)

/-- Its product with a count is rounded to 53 significant bits once more. -/
theorem ofBinary64_times_value (h : state < modulus) (any : 0 < n) (few : n < 2 ^ 53) :
    Extended.ofBinary64 ((value state).times n) = .finite (significant (fraction state * n)) := by
  have sizable : Sizable (fraction state * n) := by
    rw [← rounded_fraction]
    exact (sizable_fraction state).rounded.mul_natCast any
  obtain ⟨m, q, eq, -⟩ := value_near h
  have draw := Binary64.exactly_of_ofBinary64 (eq ▸ ofBinary64_value h)
  rw [← sizable.rounded_eq, eq, ← draw]
  exact Binary64.ofBinary64_times_of_le (draw ▸ fraction_mul_le h n) few

/-- The choice of a draw is the quotient of integers that it would be without rounding. -/
theorem choice_exact {n : ℕ} (any : 0 < n) (few : n ≤ 2 ^ 20) :
    (∀ state (h : state < modulus),
      Extended.ofBinary64 (value state) = .finite (fraction state) ∧
      Extended.ofBinary64 ((value state).times n) = .finite (significant (fraction state * n)) ∧
      ⌊significant (fraction state * n)⌋ = ((state * n / modulus : ℕ) : ℤ) ∧
      choiceIndex (value state) n = .ok ⟨state * n / modulus, index_lt h any⟩) ∧
    ∀ g : Lehmer, ∃ i : Fin n, choiceIndex g.next.1 n = .ok i ∧
      (i : ℕ) = g.next.2.state * n / modulus := by
  have each (state) (h : state < modulus) :
      ⌊significant (fraction state * n)⌋ = ((state * n / modulus : ℕ) : ℤ) ∧
      choiceIndex (value state) n = .ok ⟨state * n / modulus, index_lt h any⟩ := by
    obtain ⟨m, q, eq, near⟩ := times_value_near h few
    have product := Binary64.exactly_of_ofBinary64
      (eq ▸ ofBinary64_times_value h any (few.trans_lt (by norm_num)))
    have nonneg : 0 ≤ Binary64.exactly m q := by
      unfold Binary64.exactly
      positivity
    have whole : ⌊Binary64.exactly m q⌋ = ((state * n / modulus : ℕ) : ℤ) :=
      floor_of_near nonneg h any (few.trans_lt (by decide)) (by exact_mod_cast near)
    refine ⟨product ▸ whole, choiceIndex_of_cut _ ?_⟩
    rw [eq, Binary64.cut, Binary64.truncate_eq_floor, whole]
  refine ⟨fun state h => ?_, fun g => ?_⟩
  · exact ⟨ofBinary64_value h, ofBinary64_times_value h any (few.trans_lt (by norm_num)),
      each state h⟩
  · exact ⟨_, (each _ (advance_lt g.state)).2, rfl⟩

/-- The states on both sides of a third of the modulus choose different ones of three options. -/
theorem choice_exact_three :
    choiceIndex (value 715827882) 3 = .ok 0 ∧ choiceIndex (value 715827883) 3 = .ok 1 := by
  obtain ⟨states, -⟩ := choice_exact (n := 3) (by decide) (by decide)
  exact ⟨(states 715827882 (by decide)).2.2.2, (states 715827883 (by decide)).2.2.2⟩

end Lehmer

end ExpressionArt
