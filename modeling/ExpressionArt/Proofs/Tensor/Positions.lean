import ExpressionArt.Tensor.Shape

/-!
# Positions of a shape

The place of a position in row-major order is where the list of all positions has it. A shape
broadcasts to itself, and is then read at the position itself. A position of a shape with one more
dimension is a position of the shape with one more coordinate.
-/

namespace ExpressionArt

/-- Pieces of one length, laid out one after the other: a place is a piece and a place in it. -/
theorem getElem?_flatMap_const {α β : Type} {f : α → List β} {n : Nat} {xs : List α}
    (each : ∀ x ∈ xs, (f x).length = n) (i : Nat) {j : Nat} (inside : j < n) :
    (xs.flatMap f)[i * n + j]? = xs[i]?.bind fun x => (f x)[j]? := by
  induction xs generalizing i with
  | nil => simp
  | cons x xs ih =>
    have head : (f x).length = n := each x (by simp)
    rw [List.flatMap_cons]
    cases i with
    | zero => rw [List.getElem?_append_left (by omega), Nat.zero_mul, Nat.zero_add]; rfl
    | succ i =>
      rw [Nat.succ_mul, List.getElem?_append_right (by omega), List.getElem?_cons_succ,
        ← ih (fun y hy => each y (by simp [hy])) i]
      congr 1
      omega

namespace Shape

variable {s : Shape} {p : Position} {d : Nat}

theorem length_of_mem_positions (h : p ∈ s.positions) : p.length = s.length := by
  induction s generalizing p with
  | nil => simp_all [positions]
  | cons d s ih =>
    obtain ⟨i, q, rfl, -, hq⟩ := mem_positions_cons.1 h
    simp [ih hq]

theorem positions_flatIndex (h : p ∈ s.positions) : s.positions[s.flatIndex p]? = some p := by
  induction s generalizing p with
  | nil => simp_all [positions, flatIndex]
  | cons d s ih =>
    obtain ⟨i, q, rfl, hi, hq⟩ := mem_positions_cons.1 h
    have inside : flatIndex s q < volume s := by
      rw [← length_positions]
      exact (List.getElem?_eq_some_iff.1 (ih hq)).1
    rw [positions, flatIndex, getElem?_flatMap_const (by simp) i inside,
      List.getElem?_range hi]
    simp [ih hq]

theorem mem_positions_grid {height width row column : Nat} (hrow : row < height)
    (hcolumn : column < width) : [row, column] ∈ positions [height, width] := by
  simp [positions, hrow, hcolumn]

/-- A coordinate along a dimension of one is zero already. -/
theorem project_self (h : p ∈ s.positions) : s.project p = p := by
  rw [project, length_of_mem_positions h, Nat.sub_self, List.drop_zero]
  induction s generalizing p with
  | nil => simp_all [positions]
  | cons d s ih =>
    obtain ⟨i, q, rfl, hi, hq⟩ := mem_positions_cons.1 h
    rw [List.zipWith_cons_cons, ih hq]
    congr 1
    split <;> omega

theorem broadcastInner?_self (s : List Nat) : broadcastInner? s s = some s := by
  induction s with
  | nil => rfl
  | cons d s ih => simp [broadcastInner?, ih]

@[simp] theorem broadcast?_self (s : Shape) : s.broadcast? s = some s := by
  simp [broadcast?, broadcastInner?_self]

@[simp] theorem broadcast?_nil (s : Shape) : broadcast? [] s = some s := by
  simp [broadcast?, broadcastInner?]

/-- Every position has its last coordinate run through one more dimension. -/
theorem positions_snoc (s : Shape) (d : Nat) :
    positions (s ++ [d]) = s.positions.flatMap fun p => (List.range d).map fun c => p ++ [c] := by
  induction s with
  | nil => simp [positions, List.map_eq_flatMap]
  | cons e s ih =>
    rw [List.cons_append, positions, ih]
    simp only [positions, List.flatMap_assoc, List.flatMap_map, List.map_flatMap, List.map_map,
      Function.comp_def, List.cons_append]

theorem mem_positions_snoc :
    p ∈ positions (s ++ [d]) ↔ ∃ q c, p = q ++ [c] ∧ q ∈ s.positions ∧ c < d := by
  simp only [positions_snoc, List.mem_flatMap, List.mem_map, List.mem_range]
  constructor
  · rintro ⟨q, hq, c, hc, rfl⟩
    exact ⟨q, c, rfl, hq, hc⟩
  · rintro ⟨q, c, rfl, hq, hc⟩
    exact ⟨q, hq, c, hc, rfl⟩

/-- An innermost dimension of one broadcasts to any other. -/
theorem broadcast?_snoc_one (s : Shape) (d : Nat) :
    broadcast? (s ++ [d]) (s ++ [1]) = some (s ++ [d]) := by
  simp [broadcast?, broadcastInner?, broadcastInner?_self]

theorem project_snoc_one {c : Nat} (h : p ∈ s.positions) :
    project (s ++ [1]) (p ++ [c]) = p ++ [0] := by
  have same : p.length = s.length := length_of_mem_positions h
  have self := project_self h
  rw [project, same, Nat.sub_self, List.drop_zero] at self
  rw [project]
  simp [same, List.zipWith_append, self]

end Shape

end ExpressionArt
