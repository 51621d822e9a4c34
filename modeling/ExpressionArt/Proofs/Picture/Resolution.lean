import ExpressionArt.Proofs.Generator
import ExpressionArt.Proofs.Number.Counts

/-!
# Pictures at several resolutions

Where both sides of a picture are multiplied by a number, every pixel of the smaller picture stands
in the larger one, at the column and the row multiplied alike. Both pixels have the same
coordinates, as quotients of counts depend on the ratio of the counts alone, and no pixel depends on
anything else.
-/

namespace ExpressionArt

/-- Both sides multiplied by a number. -/
def Size.scale (size : Size) {k : Nat} (hk : 0 < k) : Size where
  width := k * size.width
  height := k * size.height
  width_pos := Nat.mul_pos hk size.width_pos
  height_pos := Nat.mul_pos hk size.height_pos

/-- Scalars in which the quotient of two counts depends on their ratio alone. -/
structure CountsDivide (α : Type) [Scalar α] : Prop where
  ratio : ∀ {k i n : Nat}, 0 < k → k * n < 2 ^ 53 → i < n →
    (Scalar.ofNat (k * i) / Scalar.ofNat (k * n) : α) = Scalar.ofNat i / Scalar.ofNat n

theorem countsDivide_float : CountsDivide Float := ⟨Binary64.div_ofNat_scale⟩

namespace Picture

section

variable {α : Type} [Scalar α]

theorem axis_scale (counts : CountsDivide α) {k n i : Nat} (hk : 0 < k) (short : k * n < 2 ^ 53)
    (inside : i < n) : (axis (k * n) (k * i) : α) = axis n i := by
  rw [axis, axis, counts.ratio hk short inside]

variable [Channel α]

/-- The byte of a component of a vector at two coordinates, before they are shifted. -/
def shade (epsilon : α) (v : α → α → Nat → α) (x y : α) (c : Nat) : UInt8 :=
  Channel.toByte (v (x + epsilon) (y + epsilon) c)

/-- The four bytes of a pixel are those at its coordinates. -/
theorem layout_shades {size : Size} {row column c : Nat} (epsilon : α) (v : α → α → Nat → α)
    (hrow : row < size.height) (hcolumn : column < size.width) (hc : c < 4) :
    (layout size.width size.height (plane size epsilon v 0) (plane size epsilon v 1)
      (plane size epsilon v 2))[4 * (row * size.width + column) + c]? =
        [shade epsilon v (axis size.width column) (axis size.height row) 0,
          shade epsilon v (axis size.width column) (axis size.height row) 1,
          shade epsilon v (axis size.width column) (axis size.height row) 2, 255][c]? := by
  rw [layout_getElem? hrow hcolumn hc]
  simp only [pixel, get_plane epsilon v _ hrow hcolumn, shade]

/-- The larger of two pictures of an expression holds the smaller one. -/
theorem render_scaled (counts : CountsDivide α) {e : Expr (Option Operation)}
    {v : α → α → Nat → α} (h : e.IsVector v) (size : Size) (epsilon : α) {k : Nat} (hk : 0 < k)
    (wide : k * size.width < 2 ^ 53) (high : k * size.height < 2 ^ 53) :
    ∃ small large, render e.compile.callGrid size epsilon = .ok small ∧
      render e.compile.callGrid (size.scale hk) epsilon = .ok large ∧
      ∀ px < size.width, ∀ py < size.height, ∃ r g b : UInt8, ∀ c < 4,
        small.bytes[4 * (py * size.width + px) + c]? = [r, g, b, 255][c]? ∧
        large.bytes[4 * (k * py * (k * size.width) + k * px) + c]? = [r, g, b, 255][c]? := by
  refine ⟨_, _, render_vector h size epsilon, render_vector h (size.scale hk) epsilon, ?_⟩
  intro px hpx py hpy
  refine ⟨shade epsilon v (axis size.width px) (axis size.height py) 0,
    shade epsilon v (axis size.width px) (axis size.height py) 1,
    shade epsilon v (axis size.width px) (axis size.height py) 2, fun c hc => ⟨?_, ?_⟩⟩
  · rw [List.getElem?_toArray]
    exact layout_shades epsilon v hpy hpx hc
  · have column : k * px < (size.scale hk).width := Nat.mul_lt_mul_of_pos_left hpx hk
    have row : k * py < (size.scale hk).height := Nat.mul_lt_mul_of_pos_left hpy hk
    have inside := layout_shades epsilon v row column hc
    simp only [Size.scale, axis_scale counts hk wide hpx, axis_scale counts hk high hpy] at inside
    rw [List.getElem?_toArray]
    exact inside

end

end Picture

namespace Generator

variable {g : Generator}

/-- A picture that is rendered, and for which there is room, is drawn. -/
theorem draw_of_render {seed : Int} {e : Expr (Option Operation)} {size : Size} {picture : Picture}
    (h : g.synthesize seed = .ok e)
    (rendered : Picture.render e.compile.callGrid size g.epsilon = .ok picture)
    (room : size.width * size.height ≤ memoryRoom) :
    g.draw (.int seed) (.int size.width) (.int size.height) = .ok (e, picture) := by
  rw [draw_eq h room, rendered]
  rfl

/-- Over the default grammar, whatever the seed, the budget and the shift: the pictures of a seed at
a size and at a multiple of it agree, each pixel of the smaller one with the pixel of the larger one
at the column and the row multiplied alike. Memory holds the grids or they are not drawn. -/
theorem draw_scaled (vocabulary : g.grammar = .default) (root : g.rootType = Vocabulary.vector)
    (seed : Int) (size : Size) {k : Nat} (hk : 0 < k) (wide : k * size.width < 2 ^ 53)
    (high : k * size.height < 2 ^ 53) :
    ∃ e small large, g.synthesize seed = .ok e ∧
      Picture.render e.compile.callGrid size g.epsilon = .ok small ∧
      Picture.render e.compile.callGrid (size.scale hk) g.epsilon = .ok large ∧
      (size.width * size.height ≤ memoryRoom →
        g.draw (.int seed) (.int size.width) (.int size.height) = .ok (e, small)) ∧
      ((k * size.width) * (k * size.height) ≤ memoryRoom →
        g.draw (.int seed) (.int (k * size.width)) (.int (k * size.height)) = .ok (e, large)) ∧
      ∀ px < size.width, ∀ py < size.height, ∃ red green blue : UInt8, ∀ c < 4,
        small.bytes[4 * (py * size.width + px) + c]? = [red, green, blue, 255][c]? ∧
        large.bytes[4 * (k * py * (k * size.width) + k * px) + c]? =
          [red, green, blue, 255][c]? := by
  obtain ⟨e, synthesized, type, typed, known, -⟩ := synthesize_total vocabulary seed
  obtain ⟨v, hv⟩ := (Expr.valued (α := Float) typed known).2 (type.trans root)
  obtain ⟨small, large, renderedSmall, renderedLarge, pixels⟩ :=
    Picture.render_scaled countsDivide_float hv size g.epsilon hk wide high
  refine ⟨e, small, large, synthesized, renderedSmall, renderedLarge,
    draw_of_render synthesized renderedSmall, fun room => ?_, pixels⟩
  have drawn := draw_of_render synthesized renderedLarge room
  simpa only [Size.scale, Nat.cast_mul] using drawn

/-- The last pixel of a picture of three columns and two rows is the one before the last one, both
across and down, of the picture twice as large. -/
theorem draw_scaled_twice : ∃ e small large,
    Generator.default.draw (.int 7) (.int 3) (.int 2) = .ok (e, small) ∧
    Generator.default.draw (.int 7) (.int 6) (.int 4) = .ok (e, large) ∧
    ∃ red, small.bytes[20]? = some red ∧ large.bytes[64]? = some red := by
  obtain ⟨e, small, large, -, -, -, drawnSmall, drawnLarge, pixels⟩ :=
    draw_scaled (g := Generator.default) rfl rfl 7 ⟨3, 2, by decide, by decide⟩ (k := 2)
      (by decide) (by decide) (by decide)
  obtain ⟨red, green, blue, bytes⟩ := pixels 2 (by decide) 1 (by decide)
  obtain ⟨here, there⟩ := bytes 0 (by decide)
  exact ⟨e, small, large, drawnSmall (by decide), drawnLarge (by decide), red, here, there⟩

end Generator

end ExpressionArt
