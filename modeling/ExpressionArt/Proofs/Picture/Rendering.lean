import ExpressionArt.Proofs.Picture.Layout
import ExpressionArt.Proofs.Vocabulary.Evaluation

/-!
# Rendering is pixel by pixel

A picture of a typed expression holds at each pixel what the program gives for the two numbers of
that pixel: the column picks the first coordinate and the row the second. An expression of a number
has one plane, and no picture.
-/

namespace ExpressionArt

namespace Picture

variable {α : Type} [Scalar α] {e : Expr (Option Operation)}

/-- The coordinates of all pixels, shifted. -/
def shiftedGrid (size : Size) (epsilon : α) : Tensor α × Tensor α :=
  ((coordinateGrid size.width size.height).1.map (· + epsilon),
    (coordinateGrid size.width size.height).2.map (· + epsilon))

theorem shape_shiftedGrid (size : Size) (epsilon : α) :
    (shiftedGrid size epsilon).1.shape.broadcast? (shiftedGrid size epsilon).2.shape =
      some [size.height, size.width] :=
  Shape.broadcast?_self _

theorem see_shiftedGrid {size : Size} {p : Position} (epsilon : α)
    (h : p ∈ Shape.positions [size.height, size.width]) :
    (shiftedGrid size epsilon).1.see p = axis size.width (p.getD 1 0) + epsilon ∧
      (shiftedGrid size epsilon).2.see p = axis size.height (p.getD 0 0) + epsilon := by
  simp only [shiftedGrid, coordinateGrid, Tensor.map_ofFn]
  exact ⟨Tensor.see_ofFn _ h, Tensor.see_ofFn _ h⟩

/-- The entries of one component on the grid of a picture. -/
def plane (size : Size) (epsilon : α) (v : α → α → Nat → α) (c : Nat) : Tensor α :=
  .ofFn [size.height, size.width] fun p =>
    v (axis size.width (p.getD 1 0) + epsilon) (axis size.height (p.getD 0 0) + epsilon) c

theorem get_plane {size : Size} {row column : Nat} (epsilon : α) (v : α → α → Nat → α) (c : Nat)
    (hrow : row < size.height) (hcolumn : column < size.width) :
    (plane size epsilon v c).get [row, column] =
      v (axis size.width column + epsilon) (axis size.height row + epsilon) c := by
  rw [plane, Tensor.get_ofFn _ (Shape.mem_positions_grid hrow hcolumn)]
  rfl

theorem callGrid_planes {v : α → α → Nat → α} (h : e.IsVector v) (size : Size) (epsilon : α) :
    e.compile.callGrid (shiftedGrid size epsilon).1 (shiftedGrid size epsilon).2 =
      .ok (.components ((List.range 3).map (plane size epsilon v))) := by
  rw [Program.callGrid_vector h (shape_shiftedGrid size epsilon)]
  congr 3
  funext c
  refine Tensor.ofFn_congr fun p hp => ?_
  rw [(see_shiftedGrid epsilon hp).1, (see_shiftedGrid epsilon hp).2]

variable [Channel α]

theorem render_vector {v : α → α → Nat → α} (h : e.IsVector v) (size : Size) (epsilon : α) :
    render e.compile.callGrid size epsilon = .ok ⟨size.width, size.height,
      (layout size.width size.height (plane size epsilon v 0) (plane size epsilon v 1)
        (plane size epsilon v 2)).toArray⟩ := by
  change ((e.compile.callGrid (shiftedGrid size epsilon).1 (shiftedGrid size epsilon).2).mapError
    RenderError.eval >>= fun channels =>
      (ofChannels channels size.width size.height).mapError .picture) = _
  rw [callGrid_planes h]
  change (ofChannels (.components [plane size epsilon v 0, plane size epsilon v 1,
    plane size epsilon v 2]) size.width size.height).mapError RenderError.picture = _
  rw [plane, plane, plane, ofChannels_ofFn]
  rfl

theorem render_vector_bytes {v : α → α → Nat → α} (h : e.IsVector v) (size : Size) (epsilon : α) :
    ∃ picture, render e.compile.callGrid size epsilon = .ok picture ∧
      picture.bytes.size = 4 * size.width * size.height ∧
      ∀ i, i < picture.bytes.size → i % 4 = 3 → picture.bytes[i]? = some 255 := by
  refine ⟨_, render_vector h size epsilon, ?_, fun i inside last => ?_⟩
  · rw [List.size_toArray, length_layout, Nat.mul_assoc]
  · rw [List.size_toArray, length_layout] at inside
    rw [List.getElem?_toArray, layout_alpha last inside]

/-- An expression of a number gives one tensor of the shape of the grid, which is refused. -/
theorem render_number {f : α → α → α} (h : e.IsNumber f) (size : Size) (epsilon : α) :
    render e.compile.callGrid size epsilon =
      .error (.picture (.singleTensor [size.height, size.width])) := by
  change ((e.compile.callGrid (shiftedGrid size epsilon).1 (shiftedGrid size epsilon).2).mapError
    RenderError.eval >>= fun channels =>
      (ofChannels channels size.width size.height).mapError .picture) = _
  rw [Program.callGrid_number h (shape_shiftedGrid size epsilon)]
  rfl

theorem singleTensor_message (height width : Nat) :
    (PictureError.singleTensor [height, width]).message =
      "Expected 3 color channels, got a single tensor of shape " ++ s!"({height}, {width})" := by
  have shown : Shape.shown [height, width] = s!"({height}, {width})" := by
    simp only [Shape.shown, List.map_cons, List.map_nil, String.intercalate_cons_cons,
      String.intercalate_singleton, String.append_assoc]
    rfl
  rw [← shown]
  rfl

theorem layout_planes {size : Size} {row column c : Nat} (epsilon : α) (v : α → α → Nat → α)
    (hrow : row < size.height) (hcolumn : column < size.width) (hc : c < 3) :
    (layout size.width size.height (plane size epsilon v 0) (plane size epsilon v 1)
      (plane size epsilon v 2))[4 * (row * size.width + column) + c]? =
        some (Channel.toByte
          (v (axis size.width column + epsilon) (axis size.height row + epsilon) c)) := by
  rw [layout_getElem? hrow hcolumn (by omega)]
  simp only [pixel, get_plane epsilon v _ hrow hcolumn]
  match c, hc with
  | 0, _ | 1, _ | 2, _ => rfl

/-- A picture of a typed vector expression is what its program gives pixel by pixel. -/
theorem render_eq_pixelwise (typed : e.WellTyped) (known : e.All Vocabulary.Known)
    (vector : e.type = Vocabulary.vector) (size : Size) (epsilon : α) :
    ∃ picture, render e.compile.callGrid size epsilon = .ok picture ∧
      (size.width * size.height ≤ memoryRoom →
        renderHeld e.compile.callGrid size epsilon = .ok picture) ∧
      picture.bytes.size = 4 * (size.width * size.height) ∧
      ∀ px py, px < size.width → py < size.height → ∃ components : List α,
        e.compile.callPoint
            (Scalar.ofNat px / Scalar.ofNat size.width * Scalar.ofNat 2 - Scalar.ofNat 1 + epsilon)
            (Scalar.ofNat py / Scalar.ofNat size.height * Scalar.ofNat 2 - Scalar.ofNat 1 + epsilon)
          = .ok (.components components) ∧
        components.length = 3 ∧
        (∀ c, c < 3 → picture.bytes[4 * (py * size.width + px) + c]? =
          components[c]?.map Channel.toByte) ∧
        picture.bytes[4 * (py * size.width + px) + 3]? = some 255 := by
  obtain ⟨v, hv⟩ := (Expr.valued (α := α) typed known).2 vector
  have rendered := render_vector hv size epsilon
  refine ⟨_, rendered, fun room => ?_, ?_, fun px py hpx hpy => ?_⟩
  · rw [renderHeld_eq_render _ _ _ room, rendered]
  · rw [List.size_toArray, length_layout]
  · refine ⟨_, Program.callPoint_vector hv _ _, rfl, fun c hc => ?_, ?_⟩
    · rw [List.getElem?_toArray, layout_planes epsilon v hpy hpx hc, List.getElem?_map,
        List.getElem?_range hc]
      rfl
    · rw [List.getElem?_toArray, layout_getElem? hpy hpx (by decide)]
      rfl

end Picture

namespace Vocabulary

/-- The vector of both coordinates and a constant. -/
def coordinates (a : Float) : Expr (Option Operation) :=
  .node ⟨productions.get ⟨0, by decide⟩, []⟩ [
    .node ⟨productions.get ⟨2, by decide⟩, []⟩ [],
    .node ⟨productions.get ⟨3, by decide⟩, []⟩ [],
    .node ⟨productions.get ⟨4, by decide⟩, [a]⟩ []]

theorem wellTyped_coordinates (a : Float) : (coordinates a).WellTyped := by
  have leaf (p : Production (Option Operation)) (params : List Float) (none : p.args = []) :
      Expr.WellTyped (.node ⟨p, params⟩ []) := .node p params [] none.symm nofun
  refine .node _ _ _ rfl ?_
  simp only [List.forall_mem_cons]
  exact ⟨leaf _ _ rfl, leaf _ _ rfl, leaf _ _ rfl, nofun⟩

theorem known_coordinates (a : Float) : (coordinates a).All Known := by
  have leaf (node : Node (Option Operation)) (h : Known node) :
      Tree.All Known (.node node []) := .node h nofun
  refine .node ⟨List.get_mem _ _, rfl⟩ ?_
  simp only [List.forall_mem_cons]
  exact ⟨leaf _ ⟨List.get_mem _ _, rfl⟩, leaf _ ⟨List.get_mem _ _, rfl⟩,
    leaf _ ⟨List.get_mem _ _, rfl⟩, nofun⟩

end Vocabulary

namespace Picture

theorem render_coordinates : ∃ picture,
    render (Vocabulary.coordinates 0.5).compile.callGrid ⟨2, 1, by decide, by decide⟩ (0 : Float) =
      .ok picture ∧ picture.bytes.size = 8 ∧ picture.bytes[7]? = some 255 := by
  obtain ⟨picture, rendered, -, length, pixels⟩ := render_eq_pixelwise
    (Vocabulary.wellTyped_coordinates 0.5) (Vocabulary.known_coordinates 0.5) rfl
    ⟨2, 1, by decide, by decide⟩ (0 : Float)
  obtain ⟨components, -, -, -, alpha⟩ := pixels 1 0 (by decide) (by decide)
  exact ⟨picture, rendered, length, alpha⟩

end Picture

end ExpressionArt
