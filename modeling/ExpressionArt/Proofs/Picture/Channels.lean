import ExpressionArt.Proofs.Picture.Layout
import ExpressionArt.Proofs.Tensor.Broadcasting
import ExpressionArt.Scalar.Double

/-!
# Channels of any shape

Three channels make a picture if each of them stretches to the grid: it has at most two dimensions,
and each dimension, counted from the innermost one, is that of the grid or one. A byte of a pixel is
then that of one entry of the channel, the place of which takes the row and the column where the
channel has that dimension, and nothing where it has a one.
-/

namespace ExpressionArt

namespace Shape

variable {s : Shape} {height width row column : Nat}

/-- A shape that stretches to a grid. -/
def FitsGrid (height width : Nat) (s : Shape) : Prop :=
  s.length ≤ 2 ∧ (s.dim 0 = 1 ∨ s.dim 0 = width) ∧ (s.dim 1 = 1 ∨ s.dim 1 = height)

instance : DecidablePred (FitsGrid height width) := fun _ => inferInstanceAs (Decidable (_ ∧ _))

/-- The place, in row-major order, of the entry that a pixel takes. -/
def gridIndex (s : Shape) (row column : Nat) : Nat :=
  (if s.dim 1 = 1 then 0 else row) * s.dim 0 + if s.dim 0 = 1 then 0 else column

theorem dim_of_length_le {i : Nat} (short : s.length ≤ i) : s.dim i = 1 := by
  rw [dim, List.getD_eq_getElem?_getD, List.getElem?_eq_none (by simpa using short),
    Option.getD_none]

theorem stretch_self {d f : Nat} : Stretch d f f ↔ d = 1 ∨ d = f := by
  unfold Stretch
  omega

theorem broadcast?_grid_iff :
    s.broadcast? [height, width] = some [height, width] ↔ s.FitsGrid height width := by
  have grid : Shape.dim [height, width] 0 = width ∧ Shape.dim [height, width] 1 = height :=
    ⟨rfl, rfl⟩
  rw [broadcast?_eq_some_iff, FitsGrid]
  simp only [stretch_self, List.length_cons, List.length_nil]
  constructor
  · rintro ⟨length, each⟩
    refine ⟨by omega, ?_, ?_⟩
    · exact grid.1 ▸ each 0
    · exact grid.2 ▸ each 1
  · rintro ⟨length, inner, outer⟩
    refine ⟨by omega, fun i => ?_⟩
    match i with
    | 0 => exact grid.1 ▸ inner
    | 1 => exact grid.2 ▸ outer
    | i + 2 => exact .inl (dim_of_length_le (by omega))

/-- A pixel is read where its row and column are. -/
theorem flatIndex_project_grid (short : s.length ≤ 2) (row column : Nat) :
    s.flatIndex (s.project [row, column]) = s.gridIndex row column := by
  match s with
  | [] => rfl
  | [d] => simp [flatIndex, project, gridIndex, dim]
  | [e, d] => simp [flatIndex, project, gridIndex, dim]
  | _ :: _ :: _ :: _ => simp at short

end Shape

namespace Tensor

variable {α : Type} [Inhabited α]

/-- Where a shape stretches to another one, there is an entry for each position. -/
theorem entries_project {t : Tensor α} {s u : Shape} {p : Position}
    (h : t.shape.broadcast? s = some u) (member : p ∈ u.positions) :
    t.entries[t.shape.flatIndex (t.shape.project p)]? = some (t.see p) := by
  have inside := Shape.positions_flatIndex (Shape.project_mem_positions h member)
  obtain ⟨bound, -⟩ := List.getElem?_eq_some_iff.1 inside
  rw [Shape.length_positions, ← t.size_entries] at bound
  rw [see, get, Array.getD_eq_getD_getElem?, Array.getElem?_eq_getElem bound, Option.getD_some]

end Tensor

theorem isSignedWord_of_le {n : Nat} (h : n ≤ memoryRoom) : isSignedWord n = true := by
  have room : memoryRoom < wordValues / 2 := by decide
  have below : (n : Int) < (wordValues / 2 : Nat) := Int.ofNat_lt.2 (Nat.lt_of_le_of_lt h room)
  have above : -((wordValues / 2 : Nat) : Int) ≤ n :=
    Int.le_trans (Int.neg_nonpos_of_nonneg (Int.natCast_nonneg _)) (Int.natCast_nonneg _)
  simp only [isSignedWord, below, above, decide_true, Bool.and_self]

namespace Picture

variable {α : Type} [Scalar α] {width height row column : Nat} {t r g b : Tensor α}

theorem expandTo_eq (width height : Nat) (t : Tensor α) : expandTo width height t =
    if t.shape.FitsGrid height width then .ok (.ofFn [height, width] t.see)
    else .error .shapes := by
  simp only [expandTo, Tensor.expand?, Shape.broadcast?_grid_iff]
  split_ifs <;> rfl

/-- The entry of a channel that a pixel takes. -/
theorem entries_gridIndex (fits : t.shape.FitsGrid height width) (hrow : row < height)
    (hcolumn : column < width) :
    t.entries[t.shape.gridIndex row column]? = some (t.see [row, column]) := by
  rw [← Shape.flatIndex_project_grid fits.1]
  exact Tensor.entries_project (Shape.broadcast?_grid_iff.2 fits)
    (Shape.mem_positions_grid hrow hcolumn)

variable [Channel α]

/-- Channels that all stretch to the grid are laid out as they are seen from its pixels. -/
theorem ofChannels_of_fits (hr : r.shape.FitsGrid height width)
    (hg : g.shape.FitsGrid height width) (hb : b.shape.FitsGrid height width) :
    ofChannels (.components [r, g, b]) width height =
      .ok ⟨width, height, (layout width height (.ofFn [height, width] r.see)
        (.ofFn [height, width] g.see) (.ofFn [height, width] b.see)).toArray⟩ := by
  simp only [ofChannels, threeOf, ok_bind, expandTo_eq, if_pos hr, if_pos hg, if_pos hb]

/-- The first channel that does not stretch to the grid ends the matter. -/
theorem ofChannels_of_misfit (misfit : ∃ t ∈ [r, g, b], ¬ t.shape.FitsGrid height width) :
    ofChannels (.components [r, g, b]) width height = .error .shapes := by
  simp only [ofChannels, threeOf, ok_bind, expandTo_eq]
  by_cases hr : r.shape.FitsGrid height width
  · by_cases hg : g.shape.FitsGrid height width
    · have hb : ¬ b.shape.FitsGrid height width := by simpa [hr, hg] using misfit
      rw [if_pos hr, if_pos hg, if_neg hb]
      rfl
    · rw [if_pos hr, if_neg hg]
      rfl
  · rw [if_neg hr]
    rfl

/-- A byte of a pixel is that of the entry of its channel at the place of the pixel. -/
theorem layout_see {c : Nat} (hrow : row < height) (hcolumn : column < width)
    (channel : [r, g, b][c]? = some t) :
    (layout width height (.ofFn [height, width] r.see) (.ofFn [height, width] g.see)
      (.ofFn [height, width] b.see))[4 * (row * width + column) + c]? =
        some (Channel.toByte (t.see [row, column])) := by
  have member := Shape.mem_positions_grid hrow hcolumn
  have few : c < 3 := (List.getElem?_eq_some_iff.1 channel).1
  rw [layout_getElem? hrow hcolumn (by omega), pixel, Tensor.get_ofFn _ member,
    Tensor.get_ofFn _ member, Tensor.get_ofFn _ member]
  obtain rfl | rfl | rfl : c = 0 ∨ c = 1 ∨ c = 2 := by omega
  all_goals
    cases channel
    rfl

theorem shapeSide_of_le {n : Nat} (h : n ≤ memoryRoom) : shapeSide n = .ok (n : Int) :=
  if_pos (isSignedWord_of_le h)

/-- Sides that a caller hands in are taken as they are if memory holds the grid. -/
theorem ofChannelsOn_eq (wide : 0 < width) (high : 0 < height) (room : width * height ≤ memoryRoom)
    (channels : Sample (Tensor α)) :
    ofChannelsOn width height channels = ofChannels channels width height := by
  have hw := Nat.le_trans (Nat.le_mul_of_pos_right width high) room
  have hh := Nat.le_trans (Nat.le_mul_of_pos_left height wide) room
  have held : (sides width height).mapError PictureError.sides = .ok (width, height) := by
    rw [sides_of_le hw hh room]
    rfl
  unfold ofChannelsOn
  rw [shapeSide_of_le hh, shapeSide_of_le hw, ok_bind, ok_bind, held, ok_bind]
  cases three : threeOf channels with
  | error e =>
    rw [ofChannels, three]
    rfl
  | ok channels => rw [ok_bind]

/-- What becomes of channels, whatever their shapes. One tensor, or another number of channels than
three, is refused; so are channels of which one does not stretch to the grid. All others make a
picture of four bytes for each pixel, row by row from the top: those of the three channels at the
pixel, and an opaque one. -/
theorem ofChannels_accepts (width height : Nat) :
    (∀ t : Tensor α, ofChannels (.single t) width height = .error (.singleTensor t.shape)) ∧
    (∀ ts : List (Tensor α), ts.length ≠ 3 →
      ofChannels (.components ts) width height = .error (.channelCount ts.length)) ∧
    (∀ ts : List (Tensor α), ts.length = 3 → (∃ t ∈ ts, ¬ t.shape.FitsGrid height width) →
      ofChannels (.components ts) width height = .error .shapes) ∧
    (∀ ts : List (Tensor α), ts.length = 3 → (∀ t ∈ ts, t.shape.FitsGrid height width) →
      ∃ picture, ofChannels (.components ts) width height = .ok picture ∧
        picture.width = width ∧ picture.height = height ∧
        picture.bytes.size = 4 * (width * height) ∧
        ∀ row < height, ∀ column < width,
          (∀ c t, ts[c]? = some t → ∃ v, t.entries[t.shape.gridIndex row column]? = some v ∧
            picture.bytes[4 * (row * width + column) + c]? = some (Channel.toByte v)) ∧
          picture.bytes[4 * (row * width + column) + 3]? = some 255) ∧
    (0 < width → 0 < height → width * height ≤ memoryRoom → ∀ channels : Sample (Tensor α),
      ofChannelsOn width height channels = ofChannels channels width height) := by
  refine ⟨fun t => rfl, fun ts other => ?_, fun ts three misfit => ?_, fun ts three fits => ?_,
    ofChannelsOn_eq⟩
  · match ts with
    | [] => rfl
    | [_] => rfl
    | [_, _] => rfl
    | [_, _, _] => exact absurd rfl other
    | _ :: _ :: _ :: _ :: _ => rfl
  · obtain ⟨r, g, b, rfl⟩ := List.length_eq_three.1 three
    exact ofChannels_of_misfit misfit
  · obtain ⟨r, g, b, rfl⟩ := List.length_eq_three.1 three
    refine ⟨_, ofChannels_of_fits (fits r (by simp)) (fits g (by simp)) (fits b (by simp)), rfl,
      rfl, ?_, fun row hrow column hcolumn => ?_⟩
    · rw [List.size_toArray, length_layout]
    · simp only [List.getElem?_toArray]
      refine ⟨fun c t channel => ?_, ?_⟩
      · have here := fits t (List.mem_of_getElem? channel)
        exact ⟨_, entries_gridIndex here hrow hcolumn, layout_see hrow hcolumn channel⟩
      · rw [layout_getElem? hrow hcolumn (by decide)]
        rfl

/-- A number, a row and a column make a picture together. Its last pixel takes the only entry of the
first, the last entry of the row and the last one of the column. -/
theorem ofChannels_number_row_column :
    let number : Tensor Float := ⟨[], #[0.25], rfl⟩
    let row : Tensor Float := ⟨[3], #[0.5, -0.5, 0.75], rfl⟩
    let column : Tensor Float := ⟨[2, 1], #[-1, 0.125], rfl⟩
    ∃ picture, ofChannels (.components [number, row, column]) 3 2 = .ok picture ∧
      picture.bytes.size = 24 ∧ picture.bytes[20]? = some (Channel.toByte (0.25 : Float)) ∧
      picture.bytes[21]? = some (Channel.toByte (0.75 : Float)) ∧
      picture.bytes[22]? = some (Channel.toByte (0.125 : Float)) ∧
      picture.bytes[23]? = some 255 := by
  intro number row column
  have fits : ∀ t ∈ [number, row, column], t.shape.FitsGrid 2 3 := by
    simp only [List.forall_mem_cons]
    exact ⟨by decide, by decide, by decide, List.forall_mem_nil _⟩
  obtain ⟨-, -, -, accepts, -⟩ := ofChannels_accepts (α := Float) 3 2
  obtain ⟨picture, made, -, -, size, bytes⟩ := accepts [number, row, column] rfl fits
  obtain ⟨channels, last⟩ := bytes 1 (by decide) 2 (by decide)
  obtain ⟨_, ⟨⟩, first⟩ := channels 0 number rfl
  obtain ⟨_, ⟨⟩, second⟩ := channels 1 row rfl
  obtain ⟨_, ⟨⟩, third⟩ := channels 2 column rfl
  exact ⟨picture, made, size, first, second, third, last⟩

end Picture

end ExpressionArt
