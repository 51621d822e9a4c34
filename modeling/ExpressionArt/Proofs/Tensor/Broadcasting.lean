import ExpressionArt.Proofs.Tensor.Positions
import Mathlib.Data.List.Forall2

/-!
# Shapes that broadcast

Aligned at their innermost dimensions, with a one for each that is missing, two shapes broadcast if
any two dimensions agree or one of them is a one. Each position of the common shape then has a
position in either shape, where a tensor of that shape is read.
-/

namespace ExpressionArt

namespace Shape

variable {s t u : Shape} {p : Position}

/-- The dimension that two others stretch to is one of them, and the other one is equal or one. -/
def Stretch (d e f : Nat) : Prop := (d = f ∨ d = 1) ∧ (e = f ∨ e = 1) ∧ (f = d ∨ f = e)

theorem stretch_one_left {e f : Nat} : Stretch 1 e f ↔ e = f := by
  unfold Stretch
  omega

theorem stretch_one_right {d f : Nat} : Stretch d 1 f ↔ d = f := by
  unfold Stretch
  omega

/-- The dimension at a place counted from the innermost one. A missing one is one. -/
def dim (s : Shape) (i : Nat) : Nat := s.reverse.getD i 1

theorem eq_iff_getD {s t : List Nat} :
    s = t ↔ t.length = s.length ∧ ∀ i, s.getD i 1 = t.getD i 1 := by
  constructor
  · rintro rfl
    exact ⟨rfl, fun i => rfl⟩
  · rintro ⟨length, h⟩
    refine List.ext_getElem length.symm fun i hs ht => ?_
    simpa [List.getD_eq_getElem?_getD, hs, ht] using h i

theorem broadcastInner?_cons_eq_some_iff {d e : Nat} {s t u : List Nat} :
    broadcastInner? (d :: s) (e :: t) = some u ↔
      ∃ f v, u = f :: v ∧ Stretch d e f ∧ broadcastInner? s t = some v := by
  rw [broadcastInner?]
  cases broadcastInner? s t with
  | none => simp
  | some v =>
    simp only [Option.bind_eq_bind, Option.bind_some, Stretch]
    grind

/-- Two shapes broadcast to a third, all three given innermost dimension first, if each pair of
dimensions stretches to the dimension there. -/
theorem broadcastInner?_eq_some_iff {s t u : List Nat} : broadcastInner? s t = some u ↔
    u.length = max s.length t.length ∧
      ∀ i, Stretch (s.getD i 1) (t.getD i 1) (u.getD i 1) := by
  induction s, t using broadcastInner?.induct generalizing u with
  | case1 t => simp [broadcastInner?, stretch_one_left, eq_iff_getD]
  | case2 s h => simp [broadcastInner?, stretch_one_right, eq_iff_getD]
  | case3 d s e t ih =>
    rw [broadcastInner?_cons_eq_some_iff, ← Nat.and_forall_add_one]
    simp only [ih, List.getD_cons_zero, List.getD_cons_succ, List.length_cons]
    constructor
    · rintro ⟨f, v, rfl, here, length, rest⟩
      exact ⟨by simp [length], here, rest⟩
    · rintro ⟨length, here, rest⟩
      obtain ⟨f, v, rfl⟩ := List.exists_cons_of_length_pos (l := u) (by omega)
      exact ⟨f, v, rfl, here, by simp at length; omega, rest⟩

theorem broadcast?_eq_some_iff : s.broadcast? t = some u ↔
    u.length = max s.length t.length ∧ ∀ i, Stretch (s.dim i) (t.dim i) (u.dim i) := by
  simp only [broadcast?, Option.map_eq_some_iff, dim]
  constructor
  · rintro ⟨v, h, rfl⟩
    simpa using broadcastInner?_eq_some_iff.1 h
  · intro h
    exact ⟨u.reverse, broadcastInner?_eq_some_iff.2 (by simpa using h), u.reverse_reverse⟩

theorem broadcast?_comm : s.broadcast? t = t.broadcast? s := by
  ext u
  simp only [broadcast?_eq_some_iff, Nat.max_comm, Stretch]
  grind

theorem mem_positions_iff : p ∈ s.positions ↔ List.Forall₂ (· < ·) p s := by
  induction s generalizing p with
  | nil => simp [positions]
  | cons d s ih =>
    rw [mem_positions_cons, List.forall₂_cons_right_iff]
    simp only [ih]
    grind

/-- The projection with the innermost coordinate first. -/
theorem reverse_project (long : s.length ≤ p.length) : (s.project p).reverse =
    List.zipWith (fun d i => if d = 1 then 0 else i) s.reverse p.reverse := by
  have same : s.length = (p.drop (p.length - s.length)).length := by
    rw [List.length_drop]
    omega
  rw [project, List.reverse_zipWith same, List.reverse_drop]
  refine List.ext_getElem ?_ ?_
  · simp
    omega
  · intro i hi hi'
    simp

/-- Where a dimension is one there is a place at zero, and elsewhere that of the larger shape. -/
theorem forall₂_zipWith {s u : List Nat} {p : List Nat} (h : List.Forall₂ (· < ·) p u)
    (short : s.length ≤ u.length) (each : ∀ i, s.getD i 1 = u.getD i 1 ∨ s.getD i 1 = 1) :
    List.Forall₂ (· < ·) (List.zipWith (fun d i => if d = 1 then 0 else i) s p) s := by
  induction s generalizing u p with
  | nil => simp
  | cons d s ih =>
    cases h with
    | nil => simp at short
    | cons here rest =>
      rw [← Nat.and_forall_add_one] at each
      simp only [List.getD_cons_zero, List.getD_cons_succ] at each
      refine .cons ?_ (ih rest (by simpa using short) each.2)
      dsimp only
      split <;> omega

/-- A position of the common shape is read at a position. -/
theorem project_mem_positions (h : s.broadcast? t = some u) (hp : p ∈ u.positions) :
    s.project p ∈ s.positions := by
  obtain ⟨length, each⟩ := broadcast?_eq_some_iff.1 h
  have long := length_of_mem_positions hp
  rw [mem_positions_iff, ← List.forall₂_reverse_iff] at hp ⊢
  rw [reverse_project (by omega)]
  exact forall₂_zipWith hp (by simp; omega) fun i => (each i).1

end Shape

end ExpressionArt
