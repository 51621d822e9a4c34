import ExpressionArt.Proofs.Expressions
import ExpressionArt.Proofs.Grammar.Fitting
import ExpressionArt.Proofs.Random.Choice
import ExpressionArt.Proofs.Vocabulary.Default

/-!
# Synthesis is sound and total

What grows from a source is an expression of the type asked for: typed node by node by productions
of the grammar, with the parameters that its samplers returned, and within the budget. It does
grow if the source supplies draws: a production that fits leaves enough for all its arguments, so
no node is left without one.
-/

namespace ExpressionArt

variable {σ ω : Type}

theorem Grammar.runOn_refuse {α : Type} {g : Grammar ω} {type : String} {d : Int} {s s' : σ}
    {a : α} : (g.refuse type d : Drawing σ α).runOn s ≠ (.ok a, s') := by
  unfold refuse
  split <;> nofun

variable [RandomSource σ]

mutual

/-- An expression as it is drawn from a source: at each node a draw for its production, then the
parameters that the sampler returned, then the children from left to right. -/
inductive Drawn : σ → Expr ω → σ → Prop where
  | node {p : Production ω} {params : List Float} {children : List (Expr ω)} {d : Binary64}
    {s t u v : σ} : RandomSource.next? s = some (d, t) → p.sampler.run.runOn t = (.ok params, u) →
      DrawnAll u children v → Drawn s (.node ⟨p, params⟩ children) v

inductive DrawnAll : σ → List (Expr ω) → σ → Prop where
  | nil (s : σ) : DrawnAll s [] s
  | cons {e : Expr ω} {es : List (Expr ω)} {s t u : σ} :
    Drawn s e t → DrawnAll t es u → DrawnAll s (e :: es) u

end

mutual

/-- Every node of a drawn expression carries parameters that its sampler returned. -/
theorem Drawn.all {s s' : σ} {e : Expr ω} (h : Drawn s e s') :
    e.All fun node => ∃ t u : σ, node.production.sampler.run.runOn t = (.ok node.params, u) :=
  match h with
  | .node _ params children => .node ⟨_, _, params⟩ children.all

theorem DrawnAll.all {s s' : σ} {es : List (Expr ω)} (h : DrawnAll s es s') :
    ∀ e ∈ es, e.All fun node =>
      ∃ t u : σ, node.production.sampler.run.runOn t = (.ok node.params, u) :=
  match h with
  | .nil _ => by simp
  | .cons first rest => List.forall_mem_cons.2 ⟨first.all, rest.all⟩

end

namespace Grammar

variable {g : Grammar ω} {type : String} {budget : Nat}

/-- What is true of an expression that grew. -/
structure Grown (g : Grammar ω) (type : String) (budget : Nat) (s : σ) (e : Expr ω) (s' : σ) :
    Prop where
  type_eq : e.type = type
  listed : e.Over g.productions
  wellTyped : e.WellTyped
  drawn : Drawn s e s'
  depth_le : e.depth ≤ budget

/-- Expressions that grew for some argument types, one after the other, are children of these
types. -/
theorem grown_children {args : List String} {children : List (Expr ω)} {s s' : σ}
    (h : Drawing.Chain (fun s a c s' => g.Grown a budget s c s') s args children s') :
    children.map Expr.type = args ∧ DrawnAll s children s' ∧
      ∀ c ∈ children, c.Over g.productions ∧ c.WellTyped ∧ c.depth ≤ budget := by
  induction h with
  | nil s => exact ⟨rfl, .nil s, by simp⟩
  | cons first _ ih =>
    obtain ⟨types, drawn, each⟩ := ih
    refine ⟨by simp [first.type_eq, types], .cons first.drawn drawn, ?_⟩
    exact List.forall_mem_cons.2 ⟨⟨first.listed, first.wellTyped, first.depth_le⟩, each⟩

/-- How an expression grows: a production that fits, its parameters, then its children within one
less. -/
theorem runOn_grow_succ_eq {s s' : σ} {e : Expr ω} :
    (g.grow (budget + 1) type).runOn s = (.ok e, s') ↔ ∃ p params children t u,
      (choose (g.fitting type (budget + 1 : Nat))).runOn s = (.ok p, t) ∧
      p.sampler.run.runOn t = (.ok params, u) ∧
      (p.args.mapM (g.grow budget)).runOn u = (.ok children, s') ∧
      .node ⟨p, params⟩ children = e := by
  rw [grow]
  split
  · next none =>
    refine ⟨fun h => absurd h runOn_refuse, ?_⟩
    rintro ⟨p, -, -, t, -, h, -⟩
    rw [List.isEmpty_iff.1 none] at h
    exact absurd (mem_of_runOn_choose h) List.not_mem_nil
  · simp only [Drawing.runOn_bind_eq, Drawing.runOn_pure_eq]
    constructor
    · rintro ⟨p, t, hp, params, u, hparams, children, v, hchildren, rfl, rfl⟩
      exact ⟨p, params, children, t, u, hp, hparams, hchildren, rfl⟩
    · rintro ⟨p, params, children, t, u, hp, hparams, hchildren, rfl⟩
      exact ⟨p, t, hp, params, u, hparams, children, s', hchildren, rfl, rfl⟩

theorem grown_of_runOn_grow {s s' : σ} {e : Expr ω}
    (h : (g.grow budget type).runOn s = (.ok e, s')) : g.Grown type budget s e s' := by
  induction budget generalizing type s e s' with
  | zero => exact absurd h runOn_refuse
  | succ budget ih =>
    obtain ⟨p, params, children, t, u, hp, hparams, hchildren, rfl⟩ := runOn_grow_succ_eq.1 h
    obtain ⟨d, -, hd, -⟩ := runOn_choose_eq.1 hp
    obtain ⟨listed, typed, -⟩ := mem_fitting.1 (mem_of_runOn_choose hp)
    have chain := Drawing.runOn_mapM_eq.1 hchildren
    obtain ⟨types, drawn, each⟩ := grown_children (chain.mono fun _ _ _ _ h => ih h)
    exact {
      type_eq := typed
      listed := .node listed fun c hc => (each c hc).1
      wellTyped := .node p params children types fun c hc => (each c hc).2.1
      drawn := .node hd hparams drawn
      depth_le := Tree.depth_node_le.2 fun c hc => (each c hc).2.2 }

/-- A type within the budget grows from every source that supplies enough. -/
theorem succeeds_grow {limit : Nat} (few : g.productions.length ≤ limit)
    (enough : g.Completes type budget) :
    (g.grow budget type : Drawing σ (Expr ω)).Succeeds limit := by
  -- What is left completes the type: a production that fits hands this on to its arguments.
  induction budget generalizing type with
  | zero =>
    exact absurd (Steps.pos_of_below enough) (Int.lt_irrefl 0)
  | succ budget ih =>
    have fits := fitting_ne_nil enough
    have short : (g.fitting type (budget + 1 : Nat)).length ≤ limit :=
      Nat.le_trans (List.length_filter_le _ _) (Nat.le_trans (List.length_filter_le _ _) few)
    rw [grow, if_neg (by simpa using fits)]
    refine (Drawing.succeeds_choose fits short).bind fun p s t hp => ?_
    refine (Drawing.succeeds_sampler p.sampler).bind fun params _ _ _ => ?_
    refine (Drawing.succeeds_mapM fun a ha => ih ?_).bind fun children _ _ _ =>
      Drawing.succeeds_pure _
    obtain ⟨-, -, -, args⟩ := mem_fitting.1 (mem_of_runOn_choose hp)
    simpa using args a ha

/-- Within the least budget of a type, synthesis is growth. -/
theorem synthesize_eq_grow {required : Nat} {budget : Int} (least : g.minDepth type = .ok required)
    (enough : required ≤ budget) :
    (g.synthesize type budget : Drawing σ (Expr ω)) = g.grow budget.toNat type := by
  obtain ⟨-, positive⟩ := minDepth_eq_ok.1 least
  have small : ¬ budget < required := by omega
  have some : ¬ budget ≤ 0 := by omega
  simp only [synthesize, least, if_neg small, build, if_neg some]

section

variable {required : Nat} {budget : Int} (least : g.minDepth type = .ok required)
  (enough : required ≤ budget)

include least enough

theorem grown_of_synthesize {s s' : σ} {e : Expr ω}
    (h : (g.synthesize type budget).runOn s = (.ok e, s')) :
    g.Grown type budget.toNat s e s' ∧ e.depth ≤ budget := by
  rw [synthesize_eq_grow least enough] at h
  have grown := grown_of_runOn_grow h
  refine ⟨grown, ?_⟩
  have depth := grown.depth_le
  have nonneg : 0 ≤ budget := Int.le_trans (Int.natCast_nonneg required) enough
  omega

theorem synthesize_total {limit : Nat} (few : g.productions.length ≤ limit) {s : σ}
    (supplied : Supplies limit s) : ∃ e s', (g.synthesize type budget).runOn s = (.ok e, s') := by
  have nonneg : 0 ≤ budget := Int.le_trans (Int.natCast_nonneg required) enough
  have completes : g.Completes type (budget.toNat : Nat) := by
    rw [Int.toNat_of_nonneg nonneg]
    exact completes_of_minDepth least enough
  obtain ⟨e, s', h, -⟩ := succeeds_grow few completes s supplied
  exact ⟨e, s', by rw [synthesize_eq_grow least enough, h]⟩

end

/-- Whatever is drawn, synthesis within the least budget gives only expressions of the type asked
for; it does give one if every draw selects among as many options as there are productions. -/
theorem synthesize_sound_total {required : Nat} {budget : Int}
    (least : g.minDepth type = .ok required) (enough : required ≤ budget) (s : σ) :
    (∀ e s', (g.synthesize type budget).runOn s = (.ok e, s') →
      e.type = type ∧ e.Over g.productions ∧ e.WellTyped ∧ Drawn s e s' ∧ e.depth ≤ budget) ∧
    (Supplies g.productions.length s →
      ∃ e s', (g.synthesize type budget).runOn s = (.ok e, s')) := by
  refine ⟨fun e s' h => ?_, synthesize_total least enough (Nat.le_refl _)⟩
  obtain ⟨grown, depth⟩ := grown_of_synthesize least enough h
  exact ⟨grown.type_eq, grown.listed, grown.wellTyped, grown.drawn, depth⟩

theorem synthesize_default_seed :
    ∃ e s', (default.synthesize Vocabulary.vector 5).runOn (Lehmer.ofSeed 7) = (.ok e, s') ∧
      e.type = Vocabulary.vector ∧ e.WellTyped ∧ e.depth ≤ (5 : Int) := by
  obtain ⟨sound, total⟩ := synthesize_sound_total default_minDepth
    (show ((2 : Nat) : Int) ≤ 5 by decide) (Lehmer.ofSeed 7)
  have few : default.productions.length ≤ Lehmer.maxOptions := by
    rw [default_productions]
    decide
  obtain ⟨e, s', h⟩ := total ((Lehmer.supplies _).mono few)
  obtain ⟨type, -, typed, -, depth⟩ := sound e s' h
  exact ⟨e, s', h, type, typed, depth⟩

end Grammar

end ExpressionArt
