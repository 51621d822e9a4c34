import Mathlib.Data.List.Forall2

/-!
# Outcomes

When computations that may fail succeed: a sequence if both of its parts do, and a list of them if
each member does.
-/

namespace ExpressionArt

variable {α β ε : Type}

@[simp] theorem ok_bind (a : α) (f : α → Except ε β) : (Except.ok a >>= f) = f a := rfl

theorem bind_eq_ok {x : Except ε α} {f : α → Except ε β} {b : β} :
    (x >>= f) = .ok b ↔ ∃ a, x = .ok a ∧ f a = .ok b := by
  cases x with
  | error e => exact ⟨nofun, nofun⟩
  | ok a =>
    refine ⟨fun h => ⟨a, rfl, h⟩, ?_⟩
    rintro ⟨a', ha, h⟩
    exact Except.ok.inj ha ▸ h

theorem mapError_eq_error {ε' : Type} {x : Except ε α} {f : ε → ε'} {e' : ε'} :
    x.mapError f = .error e' ↔ ∃ e, x = .error e ∧ f e = e' := by
  cases x with
  | error e => simp [Except.mapError]
  | ok a => simp [Except.mapError]

theorem mapError_eq_ok {ε' : Type} {x : Except ε α} {f : ε → ε'} {a : α} :
    x.mapError f = .ok a ↔ x = .ok a := by
  cases x with
  | error e => simp [Except.mapError]
  | ok a => simp [Except.mapError]

theorem map_eq_ok {x : Except ε α} {f : α → β} {b : β} :
    x.map f = .ok b ↔ ∃ a, x = .ok a ∧ f a = b := by
  cases x with
  | error e => simp [Except.map]
  | ok a => simp [Except.map]

theorem mapM_eq_ok {f : α → Except ε β} {xs : List α} {ys : List β} :
    xs.mapM f = .ok ys ↔ List.Forall₂ (fun x y => f x = .ok y) xs ys := by
  induction xs generalizing ys with
  | nil =>
    rw [List.mapM_nil, List.forall₂_nil_left_iff]
    exact ⟨fun h => (Except.ok.inj h).symm, fun h => h ▸ rfl⟩
  | cons x xs ih =>
    rw [List.mapM_cons, bind_eq_ok, List.forall₂_cons_left_iff]
    constructor
    · rintro ⟨y, hy, h⟩
      obtain ⟨ys', hys, h⟩ := bind_eq_ok.1 h
      exact ⟨y, ys', hy, ih.1 hys, (Except.ok.inj h).symm⟩
    · rintro ⟨y, ys', hy, hys, rfl⟩
      exact ⟨y, hy, bind_eq_ok.2 ⟨ys', ih.2 hys, rfl⟩⟩

theorem mapM_total {f : α → Except ε β} {xs : List α} (each : ∀ x ∈ xs, ∃ y, f x = .ok y) :
    ∃ ys, xs.mapM f = .ok ys ∧ ys.length = xs.length := by
  induction xs with
  | nil => exact ⟨[], rfl, rfl⟩
  | cons x xs ih =>
    obtain ⟨y, hy⟩ := each x (by simp)
    obtain ⟨ys, hys, length⟩ := ih fun x' hx => each x' (by simp [hx])
    refine ⟨y :: ys, ?_, by simp [length]⟩
    rw [List.mapM_cons, hy, hys]
    rfl

/-- If it is known of each member whether it fails, the list fails as the first of them does. -/
theorem mapM_eq_elim {α β ε κ : Type} {f : α → Except ε β} {fault : α → Option κ} {value : α → β}
    {report : κ → ε} (xs : List α)
    (each : ∀ x ∈ xs, f x = (fault x).elim (.ok (value x)) (.error ∘ report)) :
    xs.mapM f = (xs.findSome? fault).elim (.ok (xs.map value)) (.error ∘ report) := by
  induction xs with
  | nil => rfl
  | cons x xs ih =>
    rw [List.mapM_cons, each x (by simp), ih fun y hy => each y (by simp [hy]), List.findSome?_cons]
    cases fault x with
    | some k => rfl
    | none => cases xs.findSome? fault <;> rfl

/-! ## Computations that change a state -/

/-- In a sequence the second part starts from what the first one left, unless that failed. -/
theorem run_bind {σ : Type} (x : ExceptT ε (StateM σ) α) (f : α → ExceptT ε (StateM σ) β) (s : σ) :
    (x >>= f).run s = (match x.run s with
      | (.ok a, t) => (f a).run t
      | (.error e, t) => (.error e, t) : Except ε β × σ) := by
  change (match x.run s with | (r, t) => ExceptT.bindCont f r t : Except ε β × σ) = _
  rcases x.run s with ⟨_ | a, t⟩ <;> rfl

theorem run_bind_eq_ok {σ : Type} {x : ExceptT ε (StateM σ) α} {f : α → ExceptT ε (StateM σ) β}
    {s : σ} {b : β} (h : ((x >>= f).run s).1 = .ok b) :
    ∃ a t, x.run s = (.ok a, t) ∧ ((f a).run t).1 = .ok b := by
  rw [run_bind] at h
  generalize x.run s = out at h
  obtain ⟨e | a, t⟩ := out
  · cases h
  · exact ⟨a, t, rfl, h⟩

theorem run_tryCatch {σ : Type} (x : ExceptT ε (StateM σ) α) (f : ε → ExceptT ε (StateM σ) α)
    (s : σ) :
    (tryCatch x f).run s = (match x.run s with
      | (.ok a, t) => (.ok a, t)
      | (.error e, t) => (f e).run t : Except ε α × σ) := by
  rw [ExceptT.run_tryCatch]
  change StateT.run (x.run >>= _) s = _
  rw [StateT.run_bind]
  change (x.run s >>= _ : Id _) = _
  rcases x.run s with ⟨_ | a, t⟩ <;> rfl

end ExpressionArt
