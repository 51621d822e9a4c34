import ExpressionArt.Value

/-!
# Picture sizes

Both sides of a picture are positive integers. The width is checked before the height.
-/

namespace ExpressionArt

structure Size where
  width : Nat
  height : Nat
  width_pos : 0 < width
  height_pos : 0 < height

inductive SizeError where
  | notInteger (side : String) (v : Value)
  | notPositive (side : String) (n : Int)

def SizeError.message : SizeError → String
  | .notInteger side v => s!"{side} must be an integer, got {v.shown}"
  | .notPositive side n => s!"{side} must be positive, got {n}"

namespace Size

/-- The length of a side, which must be a positive integer. -/
def sideOf (side : String) (v : Value) : Except SizeError { n : Nat // 0 < n } :=
  match v.int? with
  | none => .error (.notInteger side v)
  | some n => if h : 0 < n then .ok ⟨n.toNat, by omega⟩ else .error (.notPositive side n)

def ofValues (width height : Value) : Except SizeError Size := do
  let w ← sideOf "width" width
  let h ← sideOf "height" height
  .ok ⟨w.1, h.1, w.2, h.2⟩

end Size

end ExpressionArt
