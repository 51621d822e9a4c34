import ExpressionArt.Picture.Basic
import ExpressionArt.Proofs.Outcome
import ExpressionArt.Proofs.Tensor.Pointwise

/-!
# Bytes of a picture

Rows follow one another from the top, the pixels of a row from the left, and the four bytes of a
pixel stand side by side. Planes of the shape of the grid are taken as they are.
-/

namespace ExpressionArt

namespace Picture

variable {α : Type} [Scalar α] {width height row column k : Nat} {r g b : Tensor α}

theorem expandTo_ofFn (width height : Nat) (f : Position → α) :
    expandTo width height (.ofFn [height, width] f) = .ok (.ofFn [height, width] f) := by
  have same : Tensor.ofFn [height, width] (Tensor.ofFn [height, width] f).see =
      Tensor.ofFn [height, width] f := Tensor.ofFn_congr fun p hp => Tensor.see_ofFn f hp
  simp [expandTo, Tensor.expand?, same]

variable [Channel α]

theorem length_pixel (r g b : Tensor α) (row column : Nat) :
    (pixel r g b row column).length = 4 := rfl

theorem length_row (width row : Nat) (r g b : Tensor α) :
    ((List.range width).flatMap (pixel r g b row)).length = width * 4 := by
  rw [Shape.length_flatMap_const _ _ 4 fun _ _ => length_pixel .., List.length_range]

theorem length_layout (width height : Nat) (r g b : Tensor α) :
    (layout width height r g b).length = 4 * (width * height) := by
  rw [layout, Shape.length_flatMap_const _ _ _ fun row _ => length_row width row r g b,
    List.length_range, Nat.mul_comm 4, Nat.mul_right_comm, Nat.mul_comm height,
    Nat.mul_right_comm]

/-- Byte `k` of a pixel. -/
theorem layout_getElem? (hrow : row < height) (hcolumn : column < width) (hk : k < 4) :
    (layout width height r g b)[4 * (row * width + column) + k]? =
      (pixel r g b row column)[k]? := by
  have place : 4 * (row * width + column) + k = row * (width * 4) + (column * 4 + k) := by
    rw [Nat.mul_add, ← Nat.add_assoc, Nat.mul_comm 4, Nat.mul_assoc, Nat.mul_comm 4]
  have inside : column * 4 + k < width * 4 := by omega
  rw [place, layout, getElem?_flatMap_const (fun row _ => length_row width row r g b) _ inside,
    List.getElem?_range hrow, Option.bind_some,
    getElem?_flatMap_const (fun column _ => length_pixel r g b row column) _ hk,
    List.getElem?_range hcolumn, Option.bind_some]

/-- The last byte of every pixel is opaque. -/
theorem layout_alpha {i : Nat} (last : i % 4 = 3) (inside : i < 4 * (width * height)) :
    (layout width height r g b)[i]? = some 255 := by
  have pixels : i / 4 < height * width := by rw [Nat.mul_comm]; omega
  have any : 0 < width := Nat.pos_of_mul_pos_left (Nat.lt_of_le_of_lt (Nat.zero_le _) pixels)
  have place : i = 4 * (i / 4 / width * width + i / 4 % width) + 3 := by
    rw [Nat.mul_comm (i / 4 / width), Nat.div_add_mod]
    omega
  rw [place, layout_getElem? (Nat.div_lt_of_lt_mul (Nat.mul_comm height width ▸ pixels))
    (Nat.mod_lt _ any) (by decide)]
  rfl

theorem ofChannels_ofFn (width height : Nat) (f g h : Position → α) :
    ofChannels (.components [.ofFn [height, width] f, .ofFn [height, width] g,
      .ofFn [height, width] h]) width height = .ok ⟨width, height, (layout width height
        (.ofFn [height, width] f) (.ofFn [height, width] g)
        (.ofFn [height, width] h)).toArray⟩ := by
  simp only [ofChannels, threeOf, ok_bind, expandTo_ofFn]

end Picture

end ExpressionArt
