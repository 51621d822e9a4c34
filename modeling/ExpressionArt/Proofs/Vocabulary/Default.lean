import ExpressionArt.Generator
import ExpressionArt.Proofs.Expressions

/-!
# Productions of the vocabulary

What a production of the vocabulary takes, gives and carries, which its operation, its sampler and
its template agree on. The default grammar consists of these productions.
-/

namespace ExpressionArt

/-- A piece refers to one of the first `n` parts, if to any. -/
def Piece.Within (n : Nat) : Piece → Prop
  | .literal _ => True
  | .part i => 0 ≤ i ∧ i < n

instance (n : Nat) : DecidablePred (Piece.Within n)
  | .literal _ => inferInstanceAs (Decidable True)
  | .part i => inferInstanceAs (Decidable (0 ≤ i ∧ i < n))

namespace Vocabulary

/-- The argument types of an operation, the type of its result, and how many parameters its nodes
carry. -/
structure Signature where
  args : List String
  type : String
  parameters : Nat
deriving DecidableEq

def signature? : Operation → Option Signature
  | .x | .y => some ⟨[], number, 0⟩
  | .constant => some ⟨[], number, 1⟩
  | .add | .sub | .mul | .div | .mod => some ⟨[number, number], number, 0⟩
  | .sin | .sqrt => some ⟨[number], number, 0⟩
  | .vec3 => some ⟨[number, number, number], vector, 0⟩
  | .mix => some ⟨[vector, vector, number], vector, 0⟩
  | .lerp => none

/-- Nodes of a constant carry one parameter, other nodes none. -/
def parameterCount (p : Production (Option Operation)) : Nat := if p.name = "rand" then 1 else 0

/-- A node that the vocabulary knows: of one of its productions, with as many parameters. -/
def Known (node : Node (Option Operation)) : Prop :=
  node.production ∈ productions ∧ node.params.length = parameterCount node.production

/-- A production of the vocabulary has the signature of its operation. -/
theorem signature_of_mem {p : Production (Option Operation)} (h : p ∈ productions) :
    ∃ op, p.operation = some op ∧ signature? op = some ⟨p.args, p.type, parameterCount p⟩ := by
  have all : ∀ p ∈ productions,
      p.operation.bind signature? = some ⟨p.args, p.type, parameterCount p⟩ := by
    decide +kernel
  exact Option.bind_eq_some_iff.1 (all p h)

/-- Samplers return as many parameters as a node carries. -/
theorem sampler_of_mem {p : Production (Option Operation)} (h : p ∈ productions) :
    p.sampler = .nothing ∧ parameterCount p = 0 ∨ p.sampler = .constant ∧ parameterCount p = 1 := by
  simp only [productions, List.mem_cons, List.not_mem_nil, or_false] at h
  obtain rfl | rfl | rfl | rfl | rfl | rfl | rfl | rfl | rfl | rfl | rfl | rfl := h
  all_goals first | exact .inl ⟨rfl, rfl⟩ | exact .inr ⟨rfl, rfl⟩

/-- The template of a production takes its parameters and arguments, and no part beyond. -/
theorem wording_of_mem {p : Production (Option Operation)} (h : p ∈ productions) :
    ∃ pieces, p.wording = .template pieces (some (parameterCount p + p.args.length)) ∧
      ∀ piece ∈ pieces, piece.Within (parameterCount p + p.args.length) := by
  simp only [productions, List.mem_cons, List.not_mem_nil, or_false] at h
  obtain rfl | rfl | rfl | rfl | rfl | rfl | rfl | rfl | rfl | rfl | rfl | rfl := h
  all_goals exact ⟨_, rfl, by decide⟩

end Vocabulary

namespace Grammar

theorem productions_of_ofProductions {ω : Type} {ps : List (Production ω)} {g : Grammar ω}
    (h : ofProductions ps = .ok g) : g.productions = ps := by
  unfold ofProductions at h
  split at h
  · cases h
  split at h
  · split at h
    · cases h
    · dsimp only at h
      split at h
      · cases h
        rfl
      · cases h
  · cases h

theorem ofProductions_default : ofProductions Vocabulary.productions = .ok default := by
  unfold default
  split
  · next h => exact h
  · next h => exact absurd productions_accepted (by simp [h])

theorem default_productions : default.productions = Vocabulary.productions :=
  productions_of_ofProductions ofProductions_default

theorem default_minDepth_number : default.minDepth Vocabulary.number = .ok 1 := by
  have known : default.types.contains Vocabulary.number = true := by decide +kernel
  have steps : default.stepsOf Vocabulary.number = 0 := by decide +kernel
  simp only [minDepth, ofKnown, known, steps, if_true]

end Grammar

end ExpressionArt
