import ExpressionArt.Proofs.Picture.Rendering
import ExpressionArt.Proofs.Tensor.Broadcasting

/-!
# Grids are evaluated point by point

Coordinates are plain numbers or tensors of any shapes. If the shapes broadcast, the value of a
typed expression has their common shape, and each of its entries is the reading at the two
coordinates seen from the position of the entry, so that positions never mix, whatever the
dimensions are. A call hands out this value, or its components, as plain numbers if both coordinates
were plain.
-/

namespace ExpressionArt

variable {α : Type} [Scalar α]

/-- A tensor as a call hands it out: as its only number if both coordinates are plain. -/
def Operand.handOut (x y : Operand α) (t : Tensor α) : Operand α :=
  match x, y with
  | .plain _, .plain _ => .plain (t.get [])
  | _, _ => .tensor t

theorem Operand.handOut_plain (a b : α) (f : Position → α) :
    (plain a).handOut (plain b) (.ofFn [] f) = plain (f []) :=
  congrArg plain (Tensor.get_ofFn f (by simp [Shape.positions]))

/-- Expressions over the vocabulary are of its two types. -/
theorem Expr.type_of_known {e : Expr (Option Operation)} (known : e.All Vocabulary.Known) :
    e.type = Vocabulary.number ∨ e.type = Vocabulary.vector := by
  cases known with
  | node here _ =>
    have each : ∀ p ∈ Vocabulary.productions,
        p.type = Vocabulary.number ∨ p.type = Vocabulary.vector := by
      decide
    exact each _ here.1

namespace Program

variable {e : Expr (Option Operation)} {x y : Operand α} {s : Shape}

/-- Two plain numbers, or else a call is one at tensors. -/
theorem call_cases (x y : Operand α) : (∃ a b, x = .plain a ∧ y = .plain b) ∨
    (∀ p, call p x y = (callGrid p x.toTensor y.toTensor).map (·.map .tensor)) ∧
      ∀ t, x.handOut y t = .tensor t := by
  cases x with
  | plain a =>
    cases y with
    | plain b => exact .inl ⟨a, b, rfl, rfl⟩
    | tensor t => exact .inr ⟨fun p => rfl, fun t => rfl⟩
  | tensor t => cases y <;> exact .inr ⟨fun p => rfl, fun t => rfl⟩

theorem evaluate_of_not_broadcast {x y : Tensor α} (h : x.shape.broadcast? y.shape = none)
    (p : Program (Option Operation)) : p.evaluate x y = .error .shapes := by
  rw [evaluate, h]

theorem call_of_not_broadcast (h : x.toTensor.shape.broadcast? y.toTensor.shape = none)
    (p : Program (Option Operation)) : p.call x y = .error .shapes := by
  obtain ⟨a, b, rfl, rfl⟩ | ⟨grid, -⟩ := call_cases x y
  · cases h
  · rw [grid, callGrid, evaluate_of_not_broadcast h]
    rfl

theorem call_number {f : α → α → α} (h : e.IsNumber f)
    (shape : x.toTensor.shape.broadcast? y.toTensor.shape = some s) :
    e.compile.call x y = .ok (.single (x.handOut y
      (.ofFn s fun p => f (x.toTensor.see p) (y.toTensor.see p)))) := by
  obtain ⟨a, b, rfl, rfl⟩ | ⟨grid, out⟩ := call_cases x y
  · obtain rfl : s = [] := (Option.some.inj shape).symm
    simp only [call, callPoint_number h, Operand.handOut_plain, Operand.toTensor, see_scalar]
    rfl
  · rw [grid, callGrid_number h shape, out]
    rfl

theorem call_vector {v : α → α → Nat → α} (h : e.IsVector v)
    (shape : x.toTensor.shape.broadcast? y.toTensor.shape = some s) :
    e.compile.call x y = .ok (.components ((List.range 3).map fun c =>
      x.handOut y (.ofFn s fun p => v (x.toTensor.see p) (y.toTensor.see p) c))) := by
  obtain ⟨a, b, rfl, rfl⟩ | ⟨grid, out⟩ := call_cases x y
  · obtain rfl : s = [] := (Option.some.inj shape).symm
    simp only [call, callPoint_vector h, Operand.handOut_plain, Operand.toTensor, see_scalar]
    rfl
  · simp only [grid, callGrid_vector h shape, out]
    rfl

/-- A typed expression has a value at any coordinates that broadcast, and at no others. Its entry at
a position is the reading of the expression at the two coordinates seen from there. -/
theorem evaluate_pointwise (typed : e.WellTyped) (known : e.All Vocabulary.Known)
    (x y : Operand α) :
    (x.toTensor.shape.broadcast? y.toTensor.shape = none →
      e.compile.evaluate x.toTensor y.toTensor = .error .shapes ∧
      e.compile.call x y = .error .shapes) ∧
    ∀ s, x.toTensor.shape.broadcast? y.toTensor.shape = some s →
      (∀ p ∈ s.positions, x.toTensor.shape.project p ∈ x.toTensor.shape.positions ∧
        y.toTensor.shape.project p ∈ y.toTensor.shape.positions) ∧
      ∃ t, e.compile.evaluate x.toTensor y.toTensor = .ok (.tensor t) ∧
        (e.type = Vocabulary.number ∧ t.shape = s ∧
          (∀ p ∈ s.positions,
            e.reading (x.toTensor.see p) (y.toTensor.see p) = .ok (.number (t.get p))) ∧
          e.compile.call x y = .ok (.single (x.handOut y t)) ∨
        e.type = Vocabulary.vector ∧ t.shape = s ++ [3] ∧
          (∀ p ∈ s.positions, e.reading (x.toTensor.see p) (y.toTensor.see p) =
            .ok (.vector (t.get (p ++ [0])) (t.get (p ++ [1])) (t.get (p ++ [2])))) ∧
          e.compile.call x y = .ok (.components ((List.range 3).map fun c =>
            x.handOut y (.ofFn s fun p => t.get (p ++ [c]))))) := by
  refine ⟨fun h => ⟨evaluate_of_not_broadcast h _, call_of_not_broadcast h _⟩, fun s h => ?_⟩
  have swapped := Shape.broadcast?_comm.symm.trans h
  refine ⟨fun p hp => ?_, ?_⟩
  · exact ⟨Shape.project_mem_positions h hp, Shape.project_mem_positions swapped hp⟩
  obtain ⟨number, vector⟩ := Expr.pointwise (α := α) typed known
  obtain type | type := Expr.type_of_known known
  · obtain ⟨f, value, reading⟩ := number type
    refine ⟨_, (evaluate_compile h).trans (value s _ _), .inl ⟨type, rfl, fun p hp => ?_, ?_⟩⟩
    · rw [Tensor.get_ofFn _ hp]
      exact reading _ _
    · exact call_number value h
  · obtain ⟨v, value, reading⟩ := vector type
    refine ⟨_, (evaluate_compile h).trans (value s _ _), .inr ⟨type, rfl, fun p hp => ?_, ?_⟩⟩
    · rw [Tensor.get_ofComponents _ hp (by decide), Tensor.get_ofComponents _ hp (by decide),
        Tensor.get_ofComponents _ hp (by decide)]
      exact reading _ _
    · rw [call_vector value h]
      congr 2
      refine List.map_congr_left fun c hc => congrArg (x.handOut y) ?_
      refine Tensor.ofFn_congr fun p hp => ?_
      rw [Tensor.get_ofComponents _ hp (List.mem_range.1 hc)]

/-- A column of two numbers and a row of three make a grid of six pixels. -/
theorem evaluate_coordinates :
    let column : Tensor Float := .ofFn [2, 1] fun p => Scalar.ofNat (p.headD 0)
    let row : Tensor Float := .full [3] 0.25
    (Vocabulary.coordinates 0.5).WellTyped ∧ (Vocabulary.coordinates 0.5).All Vocabulary.Known ∧
    ∃ t, (Vocabulary.coordinates 0.5).compile.evaluate column row = .ok (.tensor t) ∧
      t.shape = [2, 3, 3] ∧
      (Vocabulary.coordinates 0.5).reading (column.see [1, 2]) (row.see [1, 2]) =
        .ok (.vector (t.get [1, 2, 0]) (t.get [1, 2, 1]) (t.get [1, 2, 2])) := by
  intro column row
  refine ⟨Vocabulary.wellTyped_coordinates 0.5, Vocabulary.known_coordinates 0.5, ?_⟩
  obtain ⟨-, whole⟩ := evaluate_pointwise (Vocabulary.wellTyped_coordinates 0.5)
    (Vocabulary.known_coordinates 0.5) (.tensor column) (.tensor row)
  obtain ⟨-, t, value, ⟨type, -⟩ | ⟨-, shape, entries, -⟩⟩ := whole [2, 3] rfl
  · exact absurd type (by decide)
  · exact ⟨t, value, shape, entries [1, 2] (by decide)⟩

end Program

end ExpressionArt
