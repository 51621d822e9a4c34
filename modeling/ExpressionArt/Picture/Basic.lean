import ExpressionArt.Picture.Color
import ExpressionArt.Picture.Sides
import ExpressionArt.Picture.Size
import ExpressionArt.Program

/-!
# Pictures

A picture samples an expression on a pixel grid. Columns and rows map to coordinates in
`[-1, 1)`; three channels broadcast to the grid and are written as bytes, row after row from
the top, four to a pixel, the last of them opaque.
-/

namespace ExpressionArt

structure Picture where
  width : Nat
  height : Nat
  bytes : Array UInt8
deriving DecidableEq

inductive PictureError where
  | channelCount (n : Nat)
  /-- One tensor instead of a list of channels. -/
  | singleTensor (shape : Shape)
  /-- A channel does not broadcast to the picture. -/
  | shapes
  /-- There is no grid with these sides. -/
  | sides (e : SidesError)
  /-- No signed machine word holds a side. -/
  | wideSide (n : Int)
deriving DecidableEq, Repr

def PictureError.message : PictureError → String
  | .channelCount n => s!"Expected 3 color channels, got {n}"
  | .singleTensor shape =>
    s!"Expected 3 color channels, got a single tensor of shape {shape.shown}"
  | .shapes => "shapes do not broadcast"
  | .sides e => e.message
  | .wideSide n => s!"no shape has a side of {n}"

/-- Why a point has no pixel. -/
inductive PointError where
  | outside
  /-- No signed machine word holds a coordinate. -/
  | oversized
deriving DecidableEq, Repr

inductive RenderError where
  | eval (e : EvalError)
  | picture (e : PictureError)
deriving DecidableEq, Repr

def RenderError.message : RenderError → String
  | .eval e => e.message
  | .picture e => e.message

section

variable {α : Type} [Scalar α]

/-- The coordinate of pixel `i` of `n` along a side. -/
def axis (n i : Nat) : α := Scalar.ofNat i / Scalar.ofNat n * Scalar.ofNat 2 - Scalar.ofNat 1

/-- The coordinates of all pixels, rows by columns: first those along the width. -/
def coordinateGrid (width height : Nat) : Tensor α × Tensor α :=
  (.ofFn [height, width] fun p => axis width (p.getD 1 0),
    .ofFn [height, width] fun p => axis height (p.getD 0 0))

end

namespace Picture

variable {α : Type} [Scalar α] [Channel α]

/-- The four bytes of a pixel. -/
def pixel (r g b : Tensor α) (row column : Nat) : List UInt8 :=
  [Channel.toByte (r.get [row, column]), Channel.toByte (g.get [row, column]),
    Channel.toByte (b.get [row, column]), 255]

/-- The bytes of three channels of the shape of the grid. -/
def layout (width height : Nat) (r g b : Tensor α) : List UInt8 :=
  (List.range height).flatMap fun row => (List.range width).flatMap (pixel r g b row)

/-- A coordinate along a side of `n` pixels, taken as a signed word of 32 bits; a negative one
counts from the end. -/
def wrapIndex? (n : Nat) (i : Int) : Option Nat :=
  let i := i.bmod 4294967296
  let i := if i < 0 then n + i else i
  if 0 ≤ i ∧ i < n then some i.toNat else none

/-- A coordinate that no signed machine word holds is taken for the last one at first. -/
def seek (n : Nat) (i : Int) : Except PointError Nat :=
  if !isSignedWord i then .ok (n - 1)
  else
    match wrapIndex? n i with
    | some k => .ok k
    | none => .error .outside

/-- The four bytes at a column and a row. -/
def pixelAt (p : Picture) (column row : Int) : Except PointError (List UInt8) := do
  let x ← seek p.width column
  let y ← seek p.height row
  if isSignedWord column && isSignedWord row then
    .ok ((p.bytes.toList.drop (4 * (y * p.width + x))).take 4)
  else .error .oversized

def expandTo (width height : Nat) (t : Tensor α) : Except PictureError (Tensor α) :=
  match t.expand? [height, width] with
  | some t => .ok t
  | none => .error .shapes

/-- The channels of a picture, of which there are three. -/
def threeOf : Sample (Tensor α) → Except PictureError (Tensor α × Tensor α × Tensor α)
  | .components [r, g, b] => .ok (r, g, b)
  | .components ts => .error (.channelCount ts.length)
  | .single t => .error (.singleTensor t.shape)

/-- The picture of three channels, each of which must broadcast to the grid. -/
def ofChannels (channels : Sample (Tensor α)) (width height : Nat) :
    Except PictureError Picture := do
  let (r, g, b) ← threeOf channels
  let r ← expandTo width height r
  let g ← expandTo width height g
  let b ← expandTo width height b
  .ok ⟨width, height, (layout width height r g b).toArray⟩

/-- A side of a shape that a channel is to broadcast to. -/
def shapeSide (n : Int) : Except PictureError Int :=
  if isSignedWord n then .ok n else .error (.wideSide n)

/-- The same for sides that a caller hands in. The number of channels is looked at first. -/
def ofChannelsOn (width height : Int) (channels : Sample (Tensor α)) :
    Except PictureError Picture := do
  let _ ← threeOf channels
  let height ← shapeSide height
  let width ← shapeSide width
  let (w, h) ← (sides width height).mapError .sides
  ofChannels channels w h

/-- Samples a function of coordinates over a grid, both coordinates shifted by `epsilon`. -/
def render (f : Tensor α → Tensor α → Except EvalError (Sample (Tensor α))) (size : Size)
    (epsilon : α) : Except RenderError Picture := do
  let (x, y) := coordinateGrid (α := α) size.width size.height
  let channels ← (f (x.map (· + epsilon)) (y.map (· + epsilon))).mapError .eval
  (ofChannels channels size.width size.height).mapError .picture

/-- The same for a picture of any size, which is refused if memory does not hold its grid. -/
def renderHeld (f : Tensor α → Tensor α → Except EvalError (Sample (Tensor α))) (size : Size)
    (epsilon : α) : Except RenderError Picture := do
  let _ ← (sides size.width size.height).mapError fun e => .picture (.sides e)
  render f size epsilon

theorem renderHeld_eq_render
    (f : Tensor α → Tensor α → Except EvalError (Sample (Tensor α))) (size : Size) (epsilon : α)
    (room : size.width * size.height ≤ memoryRoom) :
    renderHeld f size epsilon = render f size epsilon := by
  have width := Nat.le_trans (Nat.le_mul_of_pos_right size.width size.height_pos) room
  have height := Nat.le_trans (Nat.le_mul_of_pos_left size.height size.width_pos) room
  unfold renderHeld
  rw [sides_of_le width height room]
  rfl

end Picture

end ExpressionArt
