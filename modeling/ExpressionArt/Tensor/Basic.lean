import ExpressionArt.Tensor.Shape

/-!
# Tensors

A shape with an entry at each of its positions, kept in row-major order. Every operation
builds its result position by position, so that entries of a result depend on the entries of
its operands at the same position only.
-/

namespace ExpressionArt

structure Tensor (α : Type) where
  shape : Shape
  entries : Array α
  size_entries : entries.size = shape.volume := by simp

namespace Tensor

variable {α β γ : Type}

/-- The tensor with entry `f p` at position `p`. -/
def ofFn (shape : Shape) (f : Position → α) : Tensor α where
  shape
  entries := (shape.positions.map f).toArray

/-- The tensor with given entries in row-major order, if there are as many as positions. -/
def ofEntries? (shape : Shape) (entries : Array α) : Option (Tensor α) :=
  if h : entries.size = shape.volume then some ⟨shape, entries, h⟩ else none

/-- The tensor with the same entry everywhere. -/
def full (shape : Shape) (a : α) : Tensor α := ofFn shape fun _ => a

/-- The tensor without dimensions. -/
def scalar (a : α) : Tensor α := full [] a

/-- The entry at a position of the shape. -/
def get [Inhabited α] (t : Tensor α) (p : Position) : α :=
  t.entries.getD (t.shape.flatIndex p) default

/-- The entry seen from a position of a shape that the tensor broadcasts to. -/
def see [Inhabited α] (t : Tensor α) (p : Position) : α := t.get (t.shape.project p)

/-- The only entry of a tensor that has one. -/
def item? (t : Tensor α) : Option α := if t.shape.volume = 1 then t.entries[0]? else none

def map (f : α → β) (t : Tensor α) : Tensor β where
  shape := t.shape
  entries := t.entries.map f
  size_entries := by simp [t.size_entries]

/-- Combines two tensors whose shapes broadcast, position by position. -/
def zip? [Inhabited α] [Inhabited β] (f : α → β → γ) (a : Tensor α) (b : Tensor β) :
    Option (Tensor γ) := do
  let shape ← a.shape.broadcast? b.shape
  some (ofFn shape fun p => f (a.see p) (b.see p))

/-- A tensor seen as one of a larger shape. -/
def expand? [Inhabited α] (shape : Shape) (t : Tensor α) : Option (Tensor α) :=
  if t.shape.broadcast? shape = some shape then some (ofFn shape t.see) else none

/-- The same entries with a trailing dimension of one. -/
def unsqueeze (t : Tensor α) : Tensor α where
  shape := t.shape ++ [1]
  entries := t.entries
  size_entries := by
    rw [t.size_entries]
    induction t.shape with
    | nil => rfl
    | cons d s ih => rw [List.cons_append, Shape.volume_cons, Shape.volume_cons, ih]

/-- Tensors whose shapes broadcast, side by side along a new innermost dimension. -/
def stack? [Inhabited α] (ts : List (Tensor α)) : Option (Tensor α) := do
  let shape ← ts.foldlM (fun (s : Shape) t => s.broadcast? t.shape) []
  some (ofFn (shape ++ [ts.length]) fun p =>
    match p.getLast?.bind (ts[·]?) with
    | some t => t.see p.dropLast
    | none => default)

/-- The slices along the innermost dimension. -/
def unbind [Inhabited α] (t : Tensor α) : List (Tensor α) :=
  (List.range (t.shape.getLastD 0)).map fun c => ofFn t.shape.dropLast fun p => t.get (p ++ [c])

@[simp] theorem shape_ofFn (s : Shape) (f : Position → α) : (ofFn s f).shape = s := rfl

end Tensor

end ExpressionArt
