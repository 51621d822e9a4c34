import ExpressionArt.Generator
import ExpressionArt.Timing.Profile

/-!
# Timed drawing

Drawing a picture with its three stages timed: synthesis, compilation and rendering. Checks of
the seed and the size come before the first stage, the wording of the expression behind it, and
neither is timed.
-/

namespace ExpressionArt

namespace Stage

def synthesis : String := "ExpressionSynthesizer.synthesize"

def compilation : String := "compile_expression"

def rendering : String := "render"

end Stage

namespace Generator

/-- The same as `drawSeed`, stage by stage. -/
def drawSeedTimed (g : Generator) (seed : Int) (size : Size) :
    Timed DrawError (Expr (Option Operation) × Picture) := do
  let e ← timed Stage.synthesis (untimed ((g.grow seed).mapError .synthesis))
  let e ← untimed (worded e)
  let program ← timed Stage.compilation (untimed (.ok e.compile))
  let picture ← timed Stage.rendering
    (untimed ((Picture.renderHeld program.callGrid size g.epsilon).mapError .render))
  return (e, picture)

def drawTimed (g : Generator) (seed width height : Value) :
    Timed DrawError (Expr (Option Operation) × Picture) := do
  let size ← untimed ((Size.ofValues width height).mapError .size)
  let seed ← untimed ((seedOf seed).mapError .seed)
  g.drawSeedTimed seed size

end Generator

end ExpressionArt
