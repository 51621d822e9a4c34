import ExpressionArt.Program
import ExpressionArt.Proofs.Outcome

/-!
# Heights of stacks

The height of a stack after instructions can be told without running them. A program is measured
from a height; the measure fails at the first instruction that would not find all its operands,
so a program with a measure never takes fewer values than its arities ask for.
-/

namespace ExpressionArt

variable {ω V ε : Type}

namespace Instruction

/-- A stack of some height holds every operand of an instruction. -/
def Fits (i : Instruction ω) (height : Nat) : Prop := 0 ≤ i.arity ∧ i.arity ≤ height

instance (i : Instruction ω) (height : Nat) : Decidable (i.Fits height) :=
  inferInstanceAs (Decidable (_ ∧ _))

theorem Fits.taken_eq {i : Instruction ω} {height : Nat} (h : i.Fits height) :
    i.taken height = i.arity.toNat := by
  rw [taken, if_neg (Int.not_lt.2 h.1)]

theorem fits_instruction (node : Node ω) {n height : Nat} (h : n ≤ height) :
    (node.instruction n).Fits height :=
  ⟨Int.natCast_nonneg n, Int.ofNat_le.2 h⟩

end Instruction

/-- The height that instructions leave, if each of them finds all its operands. -/
def heightAfter : List (Instruction ω) → Nat → Option Nat
  | [], height => some height
  | i :: is, height =>
    if i.Fits height then heightAfter is (height - i.arity.toNat + 1) else none

theorem heightAfter_append (is js : List (Instruction ω)) (height : Nat) :
    heightAfter (is ++ js) height = (heightAfter is height).bind (heightAfter js) := by
  induction is generalizing height with
  | nil => rfl
  | cons i is ih =>
    simp only [List.cons_append, heightAfter]
    split
    · exact ih _
    · rfl

/-- An instruction inside a measured program finds all its operands. -/
theorem fits_of_heightAfter {before after : List (Instruction ω)} {i : Instruction ω}
    {height top : Nat} (h : heightAfter (before ++ i :: after) height = some top) :
    ∃ mid, heightAfter before height = some mid ∧ i.Fits mid := by
  rw [heightAfter_append] at h
  obtain ⟨mid, hmid, hrest⟩ := Option.bind_eq_some_iff.1 h
  refine ⟨mid, hmid, ?_⟩
  by_cases fits : i.Fits mid
  · exact fits
  · simp [heightAfter, fits] at hrest

namespace Meaning

variable (m : Meaning ω V ε) (x y : V)

/-- One instruction takes its operands and leaves one value. -/
theorem length_step {i : Instruction ω} {stack stack' : List V} (fits : i.Fits stack.length)
    (h : m.step x y i stack = .ok stack') :
    stack'.length = stack.length - i.arity.toNat + 1 := by
  obtain ⟨v, -, h⟩ := bind_eq_ok.1 h
  cases h
  simp [fits.taken_eq]

/-- A run from a measured height ends at the height that the measure tells. -/
theorem length_run {is : List (Instruction ω)} {stack stack' : List V} {height : Nat}
    (measured : heightAfter is stack.length = some height)
    (h : m.run x y is stack = .ok stack') : stack'.length = height := by
  induction is generalizing stack with
  | nil =>
    cases h
    exact Option.some.inj measured
  | cons i is ih =>
    have fits : i.Fits stack.length := by
      by_cases fits : i.Fits stack.length
      · exact fits
      · rw [heightAfter, if_neg fits] at measured
        cases measured
    obtain ⟨s, hs, h⟩ := bind_eq_ok.1 h
    rw [heightAfter, if_pos fits, ← m.length_step x y fits hs] at measured
    exact ih measured h

end Meaning

end ExpressionArt
