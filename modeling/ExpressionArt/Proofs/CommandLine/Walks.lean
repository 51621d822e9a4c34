import ExpressionArt.CommandLine.Run
import ExpressionArt.Proofs.Gallery.Outputs

/-!
# Walks whose files can be saved

A walk takes single steps from its start. If the generator draws every index on the way and every
picture can be saved, no move fails: the walk returns the pictures of the indices in order.
-/

namespace ExpressionArt

namespace Move

/-- The running indices after each of some moves. -/
def leads (i : Int) : List Move → List Int
  | [] => []
  | m :: moves => m.lead i :: leads (m.lead i) moves

end Move

namespace Gallery

variable {g : Gallery} {s : GalleryState} {i : Int} {f : Frame} {m : Move}

/-- Saves frames one after the other. -/
def saveAll (g : Gallery) (frames : List Frame) : FileAction Unit :=
  forM frames fun f => f.save (g.framePath f.index)

/-- A walk without a failure prints a line for each frame. -/
theorem walk_eq (o : Options) {moves : List Move} {frames : List Frame}
    (results : g.results moves s = frames.map .ok) : Run.walk g o moves s =
      (String.join (frames.map (Run.frameLine o)), none, g.after moves s) := by
  induction moves generalizing s frames with
  | nil =>
    obtain rfl : frames = [] := List.map_eq_nil_iff.1 results.symm
    rfl
  | cons m moves ih =>
    cases frames with
    | nil => cases results
    | cons f frames =>
      obtain ⟨first, rest⟩ := List.cons.inj results
      change _ = (String.join (Run.frameLine o f :: frames.map (Run.frameLine o)), none,
        g.after moves ((g.go m).run s).2)
      rw [Run.walk]
      generalize (g.go m).run s = out at first rest ⊢
      obtain ⟨_, t⟩ := out
      obtain rfl := first
      dsimp only
      rw [ih rest]
      simp

end Gallery

end ExpressionArt
