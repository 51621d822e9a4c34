import ExpressionArt.Random.Lehmer
import Mathlib.NumberTheory.LucasPrimality
import Mathlib.Tactic.ReduceModChar
import Mathlib.Tactic.Simproc.Factors

/-!
# The period of a seeded generator

The modulus is prime and the multiplier a primitive root of it: Lucas's test shows both from the
powers of the multiplier at the modulus less one and at its quotients by prime factors. A stream
is therefore zero from its first draw on, or it runs through every other state before it repeats.
-/

namespace ExpressionArt

namespace Lehmer

/-! ## Draws in any grouping -/

/-- What is asked of a generator: the next draw, or some draws at once. -/
inductive Request where
  | next
  | take (n : Nat)

namespace Request

def draws : Request → Nat
  | next => 1
  | take n => n

/-- The generator behind the draws that were asked for. -/
def serve (g : Lehmer) : Request → Lehmer
  | next => g.next.2
  | take n => (g.take n).2

end Request

/-- How many draws some requests ask for. -/
def drawsOf (rs : List Request) : Nat := (rs.map Request.draws).sum

def after (g : Lehmer) (rs : List Request) : Lehmer := rs.foldl Request.serve g

theorem take_add (m n : Nat) (g : Lehmer) : (g.take (m + n)).2 = ((g.take m).2.take n).2 := by
  induction m generalizing g with
  | zero => rw [Nat.zero_add]; rfl
  | succ m ih => rw [Nat.succ_add]; exact ih g.next.2

theorem serve_eq_take (g : Lehmer) (r : Request) : r.serve g = (g.take r.draws).2 := by
  cases r <;> rfl

/-- Only the number of draws matters, not how they were asked for. -/
theorem after_eq_take (g : Lehmer) (rs : List Request) : g.after rs = (g.take (drawsOf rs)).2 := by
  induction rs generalizing g with
  | nil => rfl
  | cons r rs ih =>
    rw [drawsOf, List.map_cons, List.sum_cons, take_add, ← serve_eq_take]
    exact ih (r.serve g)

/-- The first draw reduces a word that may exceed the modulus; from then on states are powers. -/
theorem state_take (g : Lehmer) {k : Nat} (any : 1 ≤ k) :
    (g.take k).2.state = multiplier ^ k * g.state % modulus := by
  induction k, any using Nat.le_induction generalizing g with
  | base => rw [pow_one]; rfl
  | succ k _ ih =>
    have step : g.next.2.state = multiplier * g.state % modulus := rfl
    rw [take_succ_state, ih, step, Nat.mul_mod_mod, ← mul_assoc, ← pow_succ]

/-! ## The primitive root -/

theorem prime_factors {q : ℕ} (prime : q.Prime) (h : q ∣ 2147483646) :
    q ∈ [2, 3, 7, 11, 31, 151, 331] := by
  have member := (Nat.mem_primeFactorsList (by norm_num)).2 ⟨prime, h⟩
  simpa using member

theorem root_pow : (16807 : ZMod 2147483647) ^ 2147483646 = 1 := by
  reduce_mod_char

theorem root_pow_ne_one {q : ℕ} (prime : q.Prime) (h : q ∣ 2147483646) :
    (16807 : ZMod 2147483647) ^ (2147483646 / q) ≠ 1 := by
  have factor := prime_factors prime h
  simp only [List.mem_cons, List.not_mem_nil, or_false] at factor
  obtain rfl | rfl | rfl | rfl | rfl | rfl | rfl := factor
  all_goals
    norm_num
    reduce_mod_char
    decide +kernel

theorem prime_modulus : modulus.Prime :=
  lucas_primality 2147483647 16807 root_pow fun _ prime h => root_pow_ne_one prime h

theorem orderOf_multiplier : orderOf (multiplier : ZMod modulus) = modulus - 1 :=
  orderOf_eq_of_pow_and_pow_div_prime (by decide) root_pow fun _ prime h => root_pow_ne_one prime h

/-! ## Streams -/

variable {g : Lehmer} {i j k : Nat}

theorem dvd_pow_mul_iff {s : Nat} : modulus ∣ multiplier ^ k * s ↔ modulus ∣ s := by
  have coprime : Nat.Coprime modulus multiplier := by decide +kernel
  exact (coprime.pow_right k).dvd_mul_left

theorem state_take_eq_zero_iff (any : 1 ≤ k) : (g.take k).2.state = 0 ↔ modulus ∣ g.state := by
  rw [state_take g any, ← Nat.dvd_iff_mod_eq_zero, dvd_pow_mul_iff]

theorem isDegenerate_iff : g.isDegenerate ↔ modulus ∣ g.state := by
  rw [isDegenerate, beq_iff_eq, Nat.dvd_iff_mod_eq_zero]

theorem isDegenerate_take (g : Lehmer) (k : Nat) : (g.take k).2.isDegenerate = g.isDegenerate := by
  cases k with
  | zero => rfl
  | succ k =>
    rw [Bool.eq_iff_iff, isDegenerate_iff, isDegenerate_iff, state_take g (Nat.le_add_left 1 k),
      Nat.dvd_mod_iff dvd_rfl, dvd_pow_mul_iff]

theorem state_take_eq_iff (live : ¬ modulus ∣ g.state) (hi : 1 ≤ i) (hj : 1 ≤ j) :
    (g.take i).2.state = (g.take j).2.state ↔ i ≡ j [MOD modulus - 1] := by
  have : Fact modulus.Prime := ⟨prime_modulus⟩
  have unit : (g.state : ZMod modulus) ≠ 0 := by rwa [Ne, ZMod.natCast_eq_zero_iff]
  have finite : IsOfFinOrder (multiplier : ZMod modulus) := by
    rw [← orderOf_pos_iff, orderOf_multiplier]
    decide
  rw [state_take g hi, state_take g hj, ← ZMod.natCast_eq_natCast_iff', Nat.cast_mul, Nat.cast_mul,
    mul_left_inj' unit, Nat.cast_pow, Nat.cast_pow, finite.pow_eq_pow_iff_modEq,
    orderOf_multiplier]

/-- As many draws as there are states other than zero show each of them once. -/
theorem existsUnique_state_take (live : ¬ modulus ∣ g.state) {start v : Nat} (any : 1 ≤ start)
    (positive : 1 ≤ v) (below : v < modulus) :
    ∃! k, (start ≤ k ∧ k < start + (modulus - 1)) ∧ (g.take k).2.state = v := by
  have maps : Set.MapsTo (fun k => (g.take k).2.state) (Finset.Ico start (start + (modulus - 1)))
      (Finset.Ico 1 modulus) := by
    intro k hk
    have hk : 1 ≤ k := any.trans (Finset.mem_Ico.1 hk).1
    refine Finset.mem_Ico.2 ⟨Nat.one_le_iff_ne_zero.2 ?_, ?_⟩
    · exact fun zero => live ((state_take_eq_zero_iff hk).1 zero)
    · exact (state_take g hk).trans_lt (Nat.mod_lt _ prime_modulus.pos)
  have injective : Set.InjOn (fun k => (g.take k).2.state)
      (Finset.Ico start (start + (modulus - 1))) := by
    intro i hi j hj same
    obtain ⟨hi, hi'⟩ := Finset.mem_Ico.1 hi
    obtain ⟨hj, hj'⟩ := Finset.mem_Ico.1 hj
    have congruent := (state_take_eq_iff live (any.trans hi) (any.trans hj)).1 same
    refine congruent.eq_of_abs_lt ?_
    rw [abs_lt]
    omega
  have count : (Finset.Ico 1 modulus).card ≤ (Finset.Ico start (start + (modulus - 1))).card := by
    simp
  obtain ⟨k, hk, reached⟩ := Finset.surjOn_of_injOn_of_card_le _ maps injective count
    (Finset.mem_coe.2 (Finset.mem_Ico.2 ⟨positive, below⟩))
  refine ⟨k, ⟨Finset.mem_Ico.1 hk, reached⟩, fun j hj => ?_⟩
  exact injective (Finset.mem_Ico.2 hj.1) hk (hj.2.trans reached.symm)

/-- However its draws are asked for, a stream multiplies the word of its seed by the multiplier at
each draw. If the modulus divides the word, every state from the first draw on is zero. Otherwise
none is, the states repeat with the modulus less one and no sooner, and as many draws in a row show
each state other than zero once. Whether the stream is degenerate is told alike at every moment: it
is if all later states are zero, and then if some later state is. -/
theorem full_period (seed : Int) :
    (∀ rs, (ofSeed seed).after rs = ((ofSeed seed).take (drawsOf rs)).2) ∧
    (∀ k, 1 ≤ k →
      ((ofSeed seed).take k).2.state = multiplier ^ k * hashSeed seed % modulus) ∧
    (modulus ∣ hashSeed seed → ∀ k, 1 ≤ k → ((ofSeed seed).take k).2.state = 0) ∧
    (¬ modulus ∣ hashSeed seed →
      (∀ k, 1 ≤ k → ((ofSeed seed).take k).2.state ≠ 0) ∧
      (∀ i j, 1 ≤ i → 1 ≤ j →
        (((ofSeed seed).take i).2.state = ((ofSeed seed).take j).2.state ↔
          i ≡ j [MOD modulus - 1])) ∧
      ∀ start v, 1 ≤ start → 1 ≤ v → v < modulus →
        ∃! k, (start ≤ k ∧ k < start + (modulus - 1)) ∧ ((ofSeed seed).take k).2.state = v) ∧
    (∀ rs, ((ofSeed seed).after rs).isDegenerate = (ofSeed seed).isDegenerate) ∧
    ∀ k, (((ofSeed seed).take k).2.isDegenerate ↔
        ∀ j, k < j → ((ofSeed seed).take j).2.state = 0) ∧
      (((ofSeed seed).take k).2.isDegenerate ↔
        ∃ j, k < j ∧ ((ofSeed seed).take j).2.state = 0) := by
  have later {j k : Nat} (h : k < j) : ((ofSeed seed).take j).2.state = 0 ↔
      ((ofSeed seed).take k).2.isDegenerate := by
    rw [isDegenerate_take, isDegenerate_iff, state_take_eq_zero_iff (Nat.one_le_of_lt h)]
  refine ⟨after_eq_take _, fun k => state_take _, fun dead k any => ?_, fun live => ⟨?_, ?_, ?_⟩,
    fun rs => ?_, fun k => ⟨⟨fun dead j h => (later h).2 dead, fun dead => ?_⟩,
      fun dead => ⟨k + 1, k.lt_succ_self, (later k.lt_succ_self).2 dead⟩, ?_⟩⟩
  · exact (state_take_eq_zero_iff any).2 dead
  · exact fun k any zero => live ((state_take_eq_zero_iff any).1 zero)
  · exact fun i j => state_take_eq_iff live
  · exact fun start v => existsUnique_state_take live
  · rw [after_eq_take, isDegenerate_take]
  · exact (later k.lt_succ_self).1 (dead _ k.lt_succ_self)
  · rintro ⟨j, h, zero⟩
    exact (later h).1 zero

end Lehmer

end ExpressionArt
