import ExpressionArt.Proofs.Outcome
import ExpressionArt.Proofs.Synthesis.Drawing
import Mathlib.Tactic.Choose

/-!
# Drawings see draws only

A drawing learns of its source nothing but the draws it has taken, one after the other. It is
therefore a plan that depends on no source: it ends, or it asks for a draw and goes on from what
comes. Sources that give the same draws for as long as a run takes any are not told apart by it, and
the draws behind those make no difference.
-/

namespace ExpressionArt

variable {σ τ α β ω : Type}

/-! ## Draws taken -/

/-- A source with the draws that were taken from it. -/
structure Logged (σ : Type) where
  source : σ
  taken : List Binary64

instance [RandomSource σ] : RandomSource (Logged σ) where
  next? s := (RandomSource.next? s.source).map fun (d, t) => (d, ⟨t, s.taken ++ [d]⟩)

/-- The next draws of a source, as many as asked for or as there are, and what they leave of it. -/
def RandomSource.take [RandomSource σ] : Nat → σ → List Binary64 × σ
  | 0, s => ([], s)
  | n + 1, s =>
    match RandomSource.next? s with
    | none => ([], s)
    | some (d, t) => (d :: (take n t).1, (take n t).2)

/-- A drawing that is the same for every kind of source. -/
abbrev AnyDrawing (α : Type) := ∀ (σ : Type) [RandomSource σ], Drawing σ α

/-- The draws that a drawing takes from a source. -/
def AnyDrawing.taken [RandomSource σ] (draw : AnyDrawing α) (s : σ) : List Binary64 :=
  ((draw (Logged σ)).runOn ⟨s, []⟩).2.taken

/-! ## Plans -/

/-- What is done with draws: the end, or one more draw and how to go on from it. -/
inductive Plan (α : Type) where
  | done (result : Except SynthesisError α)
  | draw (next : Binary64 → Plan α)

namespace Plan

variable [RandomSource σ] [RandomSource τ]

/-- The outcome of a plan on a source, the draws that it takes and what it leaves of the source. -/
def follow : Plan α → σ → Except SynthesisError α × List Binary64 × σ
  | .done result, s => (result, [], s)
  | .draw next, s =>
    match RandomSource.next? s with
    | none => (.error .exhausted, [], s)
    | some (d, t) =>
      let (result, ds, u) := (next d).follow t
      (result, d :: ds, u)

/-- One plan, and then another one from what it comes to. -/
def bind : Plan α → (α → Plan β) → Plan β
  | .done (.ok a), f => f a
  | .done (.error e), _ => .done (.error e)
  | .draw next, f => .draw fun d => (next d).bind f

variable {next : Binary64 → Plan α} {s t : σ} {d : Binary64}

theorem follow_draw_none (dry : RandomSource.next? s = none) :
    (Plan.draw next).follow s = (.error .exhausted, [], s) := by
  rw [follow, dry]

theorem follow_draw_some (first : RandomSource.next? s = some (d, t)) :
    (Plan.draw next).follow s =
      (((next d).follow t).1, d :: ((next d).follow t).2.1, ((next d).follow t).2.2) := by
  rw [follow, first]

theorem take_succ_some (first : RandomSource.next? s = some (d, t)) (n : Nat) :
    RandomSource.take (n + 1) s = (d :: (RandomSource.take n t).1, (RandomSource.take n t).2) := by
  rw [RandomSource.take, first]

/-- A log notes down the draws of a plan and changes nothing else. -/
theorem follow_logged (plan : Plan α) (s : σ) (before : List Binary64) :
    plan.follow (⟨s, before⟩ : Logged σ) = ((plan.follow s).1, (plan.follow s).2.1,
      ⟨(plan.follow s).2.2, before ++ (plan.follow s).2.1⟩) := by
  induction plan generalizing s before with
  | done result => simp [follow]
  | draw next ih =>
    have logged : RandomSource.next? (⟨s, before⟩ : Logged σ) =
        (RandomSource.next? s).map fun (d, t) => (d, ⟨t, before ++ [d]⟩) := rfl
    cases first : RandomSource.next? s with
    | none =>
      rw [first] at logged
      simp [follow_draw_none first, follow_draw_none logged]
    | some pair =>
      rw [first] at logged
      rw [follow_draw_some first, follow_draw_some logged, ih]
      simp

/-- A plan leaves what is behind the draws that it takes. -/
theorem take_follow (plan : Plan α) (s : σ) :
    RandomSource.take (plan.follow s).2.1.length s = (plan.follow s).2 := by
  induction plan generalizing s with
  | done result => rfl
  | draw next ih =>
    cases first : RandomSource.next? s with
    | none =>
      rw [follow_draw_none first]
      rfl
    | some pair => rw [follow_draw_some first, List.length_cons, take_succ_some first, ih]

/-- A plan that does not find its source dry does the same on every source with the same draws. -/
theorem follow_congr {plan : Plan α} {s : σ} {t : τ}
    (supplied : (plan.follow s).1 ≠ .error .exhausted)
    (agree : (RandomSource.take (plan.follow s).2.1.length s).1 =
      (RandomSource.take (plan.follow s).2.1.length t).1) :
    (plan.follow t).1 = (plan.follow s).1 ∧ (plan.follow t).2.1 = (plan.follow s).2.1 := by
  induction plan generalizing s t with
  | done result => exact ⟨rfl, rfl⟩
  | draw next ih =>
    cases first : RandomSource.next? s with
    | none =>
      rw [follow_draw_none first] at supplied
      exact absurd rfl supplied
    | some pair =>
      rw [follow_draw_some first] at supplied agree ⊢
      rw [List.length_cons, take_succ_some first] at agree
      cases first' : RandomSource.next? t with
      | none => simp [RandomSource.take, first'] at agree
      | some pair' =>
        rw [take_succ_some first', List.cons.injEq] at agree
        obtain ⟨drawn, agree⟩ := agree
        rw [follow_draw_some first', ← drawn]
        obtain ⟨same, draws⟩ := ih pair.1 supplied agree
        exact ⟨same, congrArg _ draws⟩

theorem follow_bind (plan : Plan α) (f : α → Plan β) (s : σ) :
    (plan.bind f).follow s = match plan.follow s with
      | (.ok a, ds, t) =>
        (((f a).follow t).1, ds ++ ((f a).follow t).2.1, ((f a).follow t).2.2)
      | (.error e, ds, t) => (.error e, ds, t) := by
  induction plan generalizing s with
  | done result => cases result <;> rfl
  | draw next ih =>
    rw [bind]
    cases first : RandomSource.next? s with
    | none => rw [follow_draw_none first, follow_draw_none first]
    | some pair =>
      rw [follow_draw_some first, follow_draw_some first, ih]
      rcases (next pair.1).follow pair.2 with ⟨_ | a, ds, u⟩ <;> rfl

end Plan

/-! ## Drawings by plan -/

/-- Some plan tells what a drawing does on each source. -/
def AnyDrawing.Planned (draw : AnyDrawing α) : Prop :=
  ∃ plan : Plan α, ∀ (σ : Type) [RandomSource σ] (s : σ),
    (draw σ).runOn s = ((plan.follow s).1, (plan.follow s).2.2)

namespace AnyDrawing

open Drawing

theorem planned_pure (a : α) : Planned fun σ _ => (pure a : Drawing σ α) :=
  ⟨.done (.ok a), fun _ _ _ => rfl⟩

theorem planned_throw (e : SynthesisError) : Planned fun σ _ => (throw e : Drawing σ α) :=
  ⟨.done (.error e), fun _ _ _ => rfl⟩

theorem Planned.bind {draw : AnyDrawing α} {f : α → AnyDrawing β} (h : draw.Planned)
    (each : ∀ a, (f a).Planned) : Planned fun σ _ => draw σ >>= fun a => f a σ := by
  obtain ⟨plan, follows⟩ := h
  choose plans each using each
  refine ⟨plan.bind plans, fun σ _ s => ?_⟩
  have first : (draw σ).run s = ((plan.follow s).1, (plan.follow s).2.2) := follows σ s
  rw [Drawing.runOn, run_bind, first, Plan.follow_bind]
  rcases plan.follow s with ⟨_ | a, ds, t⟩
  · rfl
  · exact each a σ t

theorem planned_mapM {f : α → AnyDrawing β} (as : List α) (each : ∀ a ∈ as, (f a).Planned) :
    Planned fun σ _ => as.mapM fun a => f a σ := by
  induction as with
  | nil => exact planned_pure []
  | cons a as ih =>
    simp only [List.mapM_cons]
    refine (each a (by simp)).bind fun b => ?_
    exact (ih fun a' ha => each a' (by simp [ha])).bind fun bs => planned_pure _

theorem planned_drawOne : Planned fun σ _ => (drawOne : Drawing σ Binary64) := by
  refine ⟨.draw fun d => .done (.ok d), fun σ _ s => ?_⟩
  have here : (get : Drawing σ σ).run s = (.ok s, s) := rfl
  unfold drawOne
  rw [Drawing.runOn, run_bind, here]
  dsimp only
  cases first : RandomSource.next? s with
  | none =>
    rw [Plan.follow_draw_none first]
    rfl
  | some pair =>
    rw [Plan.follow_draw_some first]
    rfl

theorem planned_sampler (sampler : Sampler) :
    Planned fun σ _ => (sampler.run : Drawing σ (List Float)) := by
  induction sampler with
  | done params => exact planned_pure params
  | draw next ih => exact planned_drawOne.bind fun d => ih d

theorem planned_choose (options : List (Production ω)) :
    Planned fun σ _ => (Grammar.choose options : Drawing σ (Production ω)) := by
  refine planned_drawOne.bind fun d => ?_
  split
  · exact planned_pure _
  · exact planned_throw _

/-- The failure for lack of a production is the same for every source. -/
theorem planned_refuse {g : Grammar ω} {type : String} {budget : Int} :
    Planned fun σ _ => (g.refuse type budget : Drawing σ α) := by
  unfold Grammar.refuse
  split
  · exact planned_throw _
  · exact planned_throw _

theorem planned_grow (g : Grammar ω) (budget : Nat) (type : String) :
    Planned fun σ _ => (g.grow budget type : Drawing σ (Expr ω)) := by
  induction budget generalizing type with
  | zero => exact planned_refuse
  | succ budget ih =>
    unfold Grammar.grow
    dsimp only
    split
    · exact planned_refuse
    · refine (planned_choose _).bind fun p => ?_
      refine (planned_sampler p.sampler).bind fun params => ?_
      refine (planned_mapM p.args fun a _ => ih a).bind fun children => ?_
      exact planned_pure _

theorem planned_build (g : Grammar ω) (type : String) (budget : Int) :
    Planned fun σ _ => (g.build type budget : Drawing σ (Expr ω)) := by
  unfold Grammar.build
  split
  · exact planned_refuse
  · exact planned_grow g _ type

theorem planned_synthesize (g : Grammar ω) (type : String) (budget : Int) :
    Planned fun σ _ => (g.synthesize type budget : Drawing σ (Expr ω)) := by
  unfold Grammar.synthesize
  split
  · exact planned_throw _
  · split
    · exact planned_throw _
    · exact planned_build g type budget

section

variable [RandomSource σ] [RandomSource τ] {draw : AnyDrawing α}

theorem taken_eq {plan : Plan α} (follows : ∀ (σ : Type) [RandomSource σ] (s : σ),
    (draw σ).runOn s = ((plan.follow s).1, (plan.follow s).2.2)) (s : σ) :
    draw.taken s = (plan.follow s).2.1 := by
  rw [taken, follows, Plan.follow_logged]
  rfl

/-- With a log a drawing does what it does without. -/
theorem Planned.logged (h : draw.Planned) (s : σ) : (draw (Logged σ)).runOn ⟨s, []⟩ =
    (((draw σ).runOn s).1, ⟨((draw σ).runOn s).2, draw.taken s⟩) := by
  obtain ⟨plan, follows⟩ := h
  rw [taken_eq follows, follows, follows, Plan.follow_logged]
  rfl

/-- A drawing leaves its source behind the draws that it has taken. -/
theorem Planned.left (h : draw.Planned) (s : σ) :
    RandomSource.take (draw.taken s).length s = (draw.taken s, ((draw σ).runOn s).2) := by
  obtain ⟨plan, follows⟩ := h
  rw [taken_eq follows, follows]
  exact plan.take_follow s

/-- Unless it finds its source dry, a drawing does the same on every source with the same draws, and
takes no other ones. -/
theorem Planned.blind (h : draw.Planned) {s : σ} {t : τ}
    (supplied : ((draw σ).runOn s).1 ≠ .error .exhausted)
    (agree : (RandomSource.take (draw.taken s).length s).1 =
      (RandomSource.take (draw.taken s).length t).1) :
    ((draw τ).runOn t).1 = ((draw σ).runOn s).1 ∧ draw.taken t = draw.taken s := by
  obtain ⟨plan, follows⟩ := h
  rw [follows] at supplied
  rw [taken_eq follows] at agree
  rw [taken_eq follows, taken_eq follows, follows, follows]
  exact Plan.follow_congr supplied agree

end

end AnyDrawing

end ExpressionArt
