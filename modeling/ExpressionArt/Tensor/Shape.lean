/-!
# Shapes

A shape lists dimensions, outermost first. Positions count in row-major order. Two shapes
broadcast when, aligned at their innermost dimensions, each pair of dimensions is equal or has
a one; a tensor is then read at a position of the larger shape by forgetting the outer
coordinates it lacks and taking the only index where its dimension is one.
-/

namespace ExpressionArt

abbrev Shape := List Nat

/-- Coordinates, outermost first. -/
abbrev Position := List Nat

namespace Shape

/-- The number of positions. -/
def volume (s : Shape) : Nat := s.foldr (· * ·) 1

/-- All positions in row-major order. -/
def positions : Shape → List Position
  | [] => [[]]
  | d :: s => (List.range d).flatMap fun i => (positions s).map (i :: ·)

/-- The place of a position in row-major order. -/
def flatIndex : Shape → Position → Nat
  | _ :: s, i :: p => i * volume s + flatIndex s p
  | _, _ => 0

/-- Broadcasting with the innermost dimensions first. -/
def broadcastInner? : List Nat → List Nat → Option (List Nat)
  | [], t => some t
  | s, [] => some s
  | d :: s, e :: t => do
    let rest ← broadcastInner? s t
    if d = e ∨ e = 1 then some (d :: rest)
    else if d = 1 then some (e :: rest)
    else none

/-- The common shape of two shapes that broadcast. -/
def broadcast? (s t : Shape) : Option Shape :=
  (broadcastInner? s.reverse t.reverse).map List.reverse

/-- Where a tensor of shape `s` is read for a position of a shape it broadcasts to. -/
def project (s : Shape) (p : Position) : Position :=
  List.zipWith (fun d i => if d = 1 then 0 else i) s (p.drop (p.length - s.length))

/-- The text of a shape in messages. -/
def shown : Shape → String
  | [d] => s!"({d},)"
  | s => "(" ++ ", ".intercalate (s.map toString) ++ ")"

@[simp] theorem volume_nil : volume [] = 1 := rfl

@[simp] theorem volume_cons (d : Nat) (s : Shape) : volume (d :: s) = d * volume s := rfl

theorem length_flatMap_const {α β : Type} (xs : List α) (f : α → List β) (n : Nat)
    (h : ∀ x ∈ xs, (f x).length = n) : (xs.flatMap f).length = xs.length * n := by
  induction xs with
  | nil => simp
  | cons x xs ih =>
    rw [List.flatMap_cons, List.length_append, h x (by simp), ih fun y hy => h y (by simp [hy]),
      List.length_cons, Nat.succ_mul, Nat.add_comm]

@[simp] theorem length_positions (s : Shape) : s.positions.length = s.volume := by
  induction s with
  | nil => rfl
  | cons d s ih =>
    rw [positions, length_flatMap_const _ _ (volume s) (by simp [ih])]
    simp

/-- A position of a shape has a coordinate below each dimension. -/
theorem mem_positions_cons {d : Nat} {s : Shape} {p : Position} :
    p ∈ positions (d :: s) ↔ ∃ i q, p = i :: q ∧ i < d ∧ q ∈ s.positions := by
  simp only [positions, List.mem_flatMap, List.mem_range, List.mem_map]
  constructor
  · rintro ⟨i, hi, q, hq, rfl⟩
    exact ⟨i, q, rfl, hi, hq⟩
  · rintro ⟨i, q, rfl, hi, hq⟩
    exact ⟨i, hi, q, hq, rfl⟩

end Shape

end ExpressionArt
