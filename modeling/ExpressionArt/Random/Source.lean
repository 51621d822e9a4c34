import ExpressionArt.Number.Binary64

/-!
# Sources of draws

Synthesis consumes a stream of doubles, one draw at a time. A source may run dry, as a
script of recorded draws does; a seeded generator never does.
-/

namespace ExpressionArt

class RandomSource (σ : Type) where
  /-- The next draw and the source after it, unless the source has run dry. -/
  next? : σ → Option (Binary64 × σ)

/-- Draws to be replayed in order, with the count of those already taken. -/
structure Script where
  pending : List Binary64
  consumed : Nat := 0

instance : RandomSource Script where
  next?
    | ⟨[], _⟩ => none
    | ⟨d :: ds, n⟩ => some (d, ⟨ds, n + 1⟩)

/-- A source of either kind. -/
instance {σ τ : Type} [RandomSource σ] [RandomSource τ] : RandomSource (σ ⊕ τ) where
  next?
    | .inl s => (RandomSource.next? s).map fun (d, s) => (d, .inl s)
    | .inr t => (RandomSource.next? t).map fun (d, t) => (d, .inr t)

end ExpressionArt
