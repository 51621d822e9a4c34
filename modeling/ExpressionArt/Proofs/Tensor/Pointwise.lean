import ExpressionArt.Proofs.Tensor.Positions
import ExpressionArt.Tensor.Basic

/-!
# Tensors by their entries

What the operations do to tensors given by the entry at each position: the result is given by its
entries too, each made of the operands' entries at the same position. Vectors are tensors with one
more dimension, along which their components stand.
-/

namespace ExpressionArt

namespace Tensor

variable {α β γ : Type} {s : Shape} {p : Position} {n c : Nat}

/-- Vectors of `n` components, the one at `c` of the vector at `p` being `v p c`. -/
def ofComponents (s : Shape) (n : Nat) (v : Position → Nat → α) : Tensor α :=
  ofFn (s ++ [n]) fun p => v p.dropLast (p.getLastD 0)

@[simp] theorem shape_ofComponents (s : Shape) (n : Nat) (v : Position → Nat → α) :
    (ofComponents s n v).shape = s ++ [n] := rfl

theorem ofFn_congr {f g : Position → α} (h : ∀ p ∈ s.positions, f p = g p) :
    ofFn s f = ofFn s g := by
  simp only [ofFn, List.map_congr_left h]

theorem ofFn_snoc {f : Position → α} {v : Position → Nat → α}
    (h : ∀ p ∈ s.positions, ∀ c < n, f (p ++ [c]) = v p c) :
    ofFn (s ++ [n]) f = ofComponents s n v := by
  refine ofFn_congr fun r hr => ?_
  obtain ⟨p, c, rfl, hp, hc⟩ := Shape.mem_positions_snoc.1 hr
  simp [h p hp c hc]

@[simp] theorem map_ofFn (s : Shape) (f : Position → α) (g : α → β) :
    (ofFn s f).map g = ofFn s fun p => g (f p) := by
  simp [ofFn, map, Function.comp_def]

/-- A trailing dimension of one makes vectors of one component. -/
theorem unsqueeze_ofFn (s : Shape) (f : Position → α) :
    (ofFn s f).unsqueeze = ofComponents s 1 fun p _ => f p := by
  have positions : Shape.positions (s ++ [1]) = s.positions.map (· ++ [0]) := by
    simp [Shape.positions_snoc, List.map_eq_flatMap]
  simp [ofFn, unsqueeze, ofComponents, positions, Function.comp_def]

theorem foldlM_broadcast?_self (s : Shape) (ts : List (Tensor α)) (h : ∀ t ∈ ts, t.shape = s) :
    ts.foldlM (fun (u : Shape) t => u.broadcast? t.shape) s = some s := by
  induction ts with
  | nil => rfl
  | cons t ts ih =>
    rw [List.foldlM_cons, h t (by simp), Shape.broadcast?_self]
    exact ih fun u hu => h u (by simp [hu])

section

variable [Inhabited α] [Inhabited β]

theorem get_ofFn (f : Position → α) (h : p ∈ s.positions) : (ofFn s f).get p = f p := by
  simp [get, ofFn, Array.getD_eq_getD_getElem?, Shape.positions_flatIndex h]

theorem get_ofComponents (v : Position → Nat → α) (hp : p ∈ s.positions) (hc : c < n) :
    (ofComponents s n v).get (p ++ [c]) = v p c := by
  have member : p ++ [c] ∈ Shape.positions (s ++ [n]) :=
    Shape.mem_positions_snoc.2 ⟨p, c, rfl, hp, hc⟩
  rw [ofComponents, get_ofFn _ member]
  simp

theorem see_ofFn (f : Position → α) (h : p ∈ s.positions) : (ofFn s f).see p = f p := by
  rw [see, shape_ofFn, Shape.project_self h, get_ofFn f h]

theorem zip?_ofFn (op : α → β → γ) (s : Shape) (f : Position → α) (g : Position → β) :
    zip? op (ofFn s f) (ofFn s g) = some (ofFn s fun p => op (f p) (g p)) := by
  simp only [zip?, shape_ofFn, Shape.broadcast?_self, Option.bind_eq_bind, Option.bind_some]
  exact congrArg some <| ofFn_congr fun p hp => by rw [see_ofFn f hp, see_ofFn g hp]

theorem zip?_ofComponents (op : α → β → γ) (s : Shape) (n : Nat) (v : Position → Nat → α)
    (w : Position → Nat → β) : zip? op (ofComponents s n v) (ofComponents s n w) =
      some (ofComponents s n fun p c => op (v p c) (w p c)) :=
  zip?_ofFn ..

theorem see_ofComponents_one (v : Position → Nat → α) (h : p ∈ s.positions) :
    (ofComponents s 1 v).see (p ++ [c]) = v p 0 := by
  rw [see, shape_ofComponents, Shape.project_snoc_one h, get_ofComponents v h Nat.one_pos]

/-- A vector of one component stands beside every component of another vector. -/
theorem zip?_ofComponents_one (op : α → β → γ) (s : Shape) (n : Nat) (v : Position → Nat → α)
    (w : Position → Nat → β) : zip? op (ofComponents s n v) (ofComponents s 1 w) =
      some (ofComponents s n fun p c => op (v p c) (w p 0)) := by
  simp only [zip?, shape_ofComponents, Shape.broadcast?_snoc_one, Option.bind_eq_bind,
    Option.bind_some]
  refine congrArg some <| ofFn_snoc fun p hp c hc => ?_
  have member : p ++ [c] ∈ Shape.positions (s ++ [n]) :=
    Shape.mem_positions_snoc.2 ⟨p, c, rfl, hp, hc⟩
  rw [see_ofComponents_one w hp, ofComponents, see_ofFn _ member]
  simp

/-- Tensors side by side are the components of vectors. -/
theorem stack?_ofFn (s : Shape) (fs : List (Position → α)) (any : fs ≠ []) :
    stack? (fs.map (ofFn s)) = some (ofComponents s fs.length fun p c =>
      (fs[c]?.map (· p)).getD default) := by
  have shape : (fs.map (ofFn s)).foldlM (fun (u : Shape) t => u.broadcast? t.shape) [] =
      some s := by
    cases fs with
    | nil => exact absurd rfl any
    | cons f fs =>
      rw [List.map_cons, List.foldlM_cons, shape_ofFn, Shape.broadcast?_nil]
      exact foldlM_broadcast?_self s _ (by simp)
  simp only [stack?, shape, Option.bind_eq_bind, Option.bind_some, List.length_map]
  refine congrArg some <| ofFn_snoc fun p hp c hc => ?_
  simp [hc, see_ofFn _ hp]

/-- The slices of vectors are their components. -/
theorem unbind_ofComponents (s : Shape) (n : Nat) (v : Position → Nat → α) :
    (ofComponents s n v).unbind = (List.range n).map fun c => ofFn s fun p => v p c := by
  simp only [unbind, shape_ofComponents, List.getLastD_concat, List.dropLast_concat]
  refine List.map_congr_left fun c hc => ofFn_congr fun p hp => ?_
  exact get_ofComponents v hp (List.mem_range.1 hc)

end

end Tensor

end ExpressionArt
