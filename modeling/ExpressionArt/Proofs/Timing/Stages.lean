import ExpressionArt.Proofs.Outcome
import ExpressionArt.Timing.Stages

/-!
# Timing does not change results

A timed computation comes to the same result whatever profile it starts from, so drawing a picture
stage by stage is drawing it.
-/

namespace ExpressionArt

variable {α β ε : Type}

namespace Timed

/-- The result of a timed computation, from any profile. -/
def Yields (t : Timed ε α) (result : Except ε α) : Prop := ∀ p, (t.run p).1 = result

theorem yields_untimed (result : Except ε α) : Yields (untimed result) result := fun _ => rfl

theorem yields_pure (a : α) : Yields (pure a : Timed ε α) (.ok a) := fun _ => rfl

theorem Yields.timed {body : Timed ε α} {result : Except ε α} (h : Yields body result)
    (key : String) : Yields (timed key body) result := by
  intro p
  change (if p.enabled then _ else body.run p : Except ε α × Profile).1 = _
  split
  · exact h _
  · exact h _

theorem Yields.bind {t : Timed ε α} {f : α → Timed ε β} {result : Except ε α}
    {next : α → Except ε β} (h : Yields t result) (each : ∀ a, Yields (f a) (next a)) :
    Yields (t >>= f) (result >>= next) := by
  intro p
  change (match t.run p with | (r, q) => ExceptT.bindCont f r q).1 = _
  rw [← h p]
  rcases t.run p with ⟨_ | a, q⟩
  · rfl
  · exact each a q

theorem Yields.bind_ok {t : Timed ε α} {f : α → Timed ε β} {a : α} {result : Except ε β}
    (h : Yields t (.ok a)) (next : Yields (f a) result) : Yields (t >>= f) result := by
  intro p
  change (match t.run p with | (r, q) => ExceptT.bindCont f r q).1 = _
  have first := h p
  generalize t.run p = out at first ⊢
  obtain ⟨_ | a', q⟩ := out
  · cases first
  · cases first
    exact next q

end Timed

namespace Generator

open Timed

/-- Drawing stage by stage is drawing. -/
theorem drawSeedTimed_yields (g : Generator) (seed : Int) (size : Size) :
    Yields (g.drawSeedTimed seed size) (g.drawSeed seed size) := by
  rw [drawSeed, synthesize, bind_assoc]
  refine ((yields_untimed _).timed _).bind fun e => (yields_untimed _).bind fun e => ?_
  refine ((yields_untimed _).timed _).bind_ok ?_
  exact ((yields_untimed _).timed _).bind fun picture => yields_pure _

end Generator

end ExpressionArt
