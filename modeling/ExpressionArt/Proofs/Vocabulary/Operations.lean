import ExpressionArt.Proofs.Outcome
import ExpressionArt.Proofs.Tensor.Pointwise
import ExpressionArt.Vocabulary.Operation

/-!
# Operations by their entries

Each operation of the vocabulary, on numbers and vectors given by their entries at each position,
yields numbers or vectors given by theirs.
-/

namespace ExpressionArt

variable {α : Type} [Scalar α]

namespace Operand

/-- A number at each position. -/
def numbers (s : Shape) (f : Position → α) : Operand α := .tensor (.ofFn s f)

/-- A vector of three numbers at each position. -/
def vectors (s : Shape) (v : Position → Nat → α) : Operand α := .tensor (.ofComponents s 3 v)

theorem combine_numbers (op : α → α → α) (s : Shape) (f g : Position → α) :
    combine op (numbers s f) (numbers s g) = .ok (numbers s fun p => op (f p) (g p)) := by
  simp only [numbers, combine, pointwise, Tensor.zip?_ofFn]
  rfl

theorem divide_numbers (s : Shape) (f g : Position → α) :
    divide (numbers s f) (numbers s g) = .ok (numbers s fun p => f p / g p) :=
  combine_numbers ..

theorem combine_vectors (op : α → α → α) (s : Shape) (v w : Position → Nat → α) :
    combine op (vectors s v) (vectors s w) = .ok (vectors s fun p c => op (v p c) (w p c)) := by
  simp only [vectors, combine, pointwise, Tensor.zip?_ofComponents]
  rfl

/-- A number beside a vector goes with each of its components. -/
theorem combine_vectors_unsqueeze (op : α → α → α) (s : Shape) (v : Position → Nat → α)
    (f : Position → α) : combine op (vectors s v) (.tensor (Tensor.ofFn s f).unsqueeze) =
      .ok (vectors s fun p c => op (v p c) (f p)) := by
  simp only [vectors, combine, pointwise, Tensor.unsqueeze_ofFn, Tensor.zip?_ofComponents_one]
  rfl

theorem lerp_vectors (s : Shape) (v w : Position → Nat → α) (f : Position → α) :
    lerp (vectors s v) (vectors s w) (.tensor (Tensor.ofFn s f).unsqueeze) =
      .ok (vectors s fun p c => ExpressionArt.lerp (v p c) (w p c) (f p)) := by
  have way := combine_vectors (· - ·) s w v
  have part := combine_vectors_unsqueeze (· * ·) s (fun p c => w p c - v p c) f
  have sum := combine_vectors (· + ·) s (fun p c => (w p c - v p c) * f p) v
  rw [lerp, way, ok_bind, part, ok_bind]
  exact sum

end Operand

namespace Operation

open Operand

theorem apply_vec3 (s : Shape) (r g b : Position → α) :
    vec3.apply [numbers s r, numbers s g, numbers s b] =
      .ok (vectors s fun p c => ([r, g, b][c]?.map (· p)).getD default) := by
  have h := Tensor.stack?_ofFn s [r, g, b] (by simp)
  simp only [List.map_cons, List.map_nil] at h
  simp only [apply, stack, numbers, tensor?, ok_bind, h]
  rfl

theorem apply_mix (s : Shape) (v w : Position → Nat → α) (f : Position → α) :
    mix.apply [vectors s v, vectors s w, numbers s f] =
      .ok (vectors s fun p c => ExpressionArt.lerp (v p c) (w p c) (f p)) :=
  lerp_vectors ..

end Operation

end ExpressionArt
