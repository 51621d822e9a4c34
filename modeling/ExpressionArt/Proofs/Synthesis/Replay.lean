import ExpressionArt.Proofs.Grammar.Validation
import ExpressionArt.Proofs.Random.Selection
import ExpressionArt.Proofs.Synthesis.Scripts
import ExpressionArt.Proofs.Synthesis.Soundness

/-!
# Synthesis can be replayed

Every typed expression within a budget grows from a script: at each node a draw that chooses its
production, the draws of the sampler, and the scripts of the children. Productions that fit are all
that can be completed, so none of an expression's own is ever missing, and the names of the
productions tell all the positions that were chosen.
-/

namespace ExpressionArt

variable {ω : Type}

namespace Expr

/-- The names of the productions of an expression, node by node. -/
def names : Expr ω → Tree String := Tree.fold fun node ts => .node node.production.name ts

theorem names_node (node : Node ω) (ts : List (Expr ω)) :
    names (.node node ts) = .node node.production.name (ts.map names) := Tree.fold_node ..

end Expr

/-- The sampler of a node returns its parameters on some draws of the unit interval. -/
def Node.Drawable (node : Node ω) : Prop :=
  ∃ ds, (∀ d ∈ ds, d.InUnit) ∧ node.production.sampler.feed ds = some node.params

namespace Grammar

variable {g : Grammar ω} {budget : Nat}

/-- A typed expression within a budget shows that its type is completed within it. -/
theorem completes_of_expr {e : Expr ω} {d : Int} (typed : e.WellTyped)
    (listed : e.Over g.productions) (depth : e.depth ≤ d) : g.Completes e.type d :=
  completes_iff_exists_inhabits.2 ⟨e, ⟨rfl, typed, listed⟩, depth⟩

/-- The production of an expression within a budget is one of those that fit. -/
theorem mem_fitting_of_expr {p : Production ω} {params : List Float} {children : List (Expr ω)}
    (typed : Expr.WellTyped (.node ⟨p, params⟩ children))
    (listed : Expr.Over g.productions (.node ⟨p, params⟩ children))
    (depth : ∀ c ∈ children, c.depth ≤ budget) : p ∈ g.fitting p.type (budget + 1 : Nat) := by
  obtain ⟨member, below⟩ := Tree.all_node.1 listed
  cases typed with
  | node _ _ _ types each =>
  refine mem_fitting.2 ⟨member, rfl, by omega, fun a ha => ?_⟩
  rw [← types] at ha
  obtain ⟨c, hc, rfl⟩ := List.mem_map.1 ha
  simpa using completes_of_expr (each c hc) (below c hc) (Int.ofNat_le.2 (depth c hc))

theorem nodup_fitting (type : String) (d : Int) : (g.fitting type d).Nodup :=
  ((duplicateNames_eq_nil_iff.1 g.distinct).of_map _).filter _ |>.filter _

theorem eq_of_name_eq {p q : Production ω} (hp : p ∈ g.productions) (hq : q ∈ g.productions)
    (same : p.name = q.name) : p = q :=
  List.inj_on_of_nodup_map (duplicateNames_eq_nil_iff.1 g.distinct) hp hq same

mutual

/-- How an expression grows within a budget: from which draws, and at which positions among the
productions that fit. At each node one draw chooses its production, then the sampler draws, then the
children grow from left to right within one less. -/
inductive Recorded (g : Grammar ω) : Nat → Expr ω → List Binary64 → List Nat → Prop where
  | node {budget : Nat} {p : Production ω} {params : List Float} {children : List (Expr ω)}
    {d : Binary64} {i : Fin (g.fitting p.type (budget + 1 : Nat)).length}
    {ds rest : List Binary64} {is : List Nat} :
    choiceIndex d (g.fitting p.type (budget + 1 : Nat)).length = .ok i →
    (g.fitting p.type (budget + 1 : Nat)).get i = p → p.sampler.feed ds = some params →
    RecordedAll g budget children rest is →
    Recorded g (budget + 1) (.node ⟨p, params⟩ children) (d :: (ds ++ rest)) (i :: is)

inductive RecordedAll (g : Grammar ω) :
    Nat → List (Expr ω) → List Binary64 → List Nat → Prop where
  | nil {budget : Nat} : RecordedAll g budget [] [] []
  | cons {budget : Nat} {e : Expr ω} {es : List (Expr ω)} {ds rest : List Binary64}
    {is js : List Nat} : Recorded g budget e ds is → RecordedAll g budget es rest js →
    RecordedAll g budget (e :: es) (ds ++ rest) (is ++ js)

end

theorem recordedAll_of_chain {args : List String} {children : List (Expr ω)} {s s' : Script}
    (h : Drawing.Chain (fun s a c s' => c.type = a ∧
      ∃ ds is, g.Recorded budget c ds is ∧ Script.Spends s ds s') s args children s') :
    ∃ ds is, g.RecordedAll budget children ds is ∧ s.Spends ds s' := by
  induction h with
  | nil s => exact ⟨[], [], .nil, Script.spends_nil_iff.2 rfl⟩
  | cons first _ ih =>
    obtain ⟨-, ds, is, recorded, spends⟩ := first
    obtain ⟨rest, js, recorded', spends'⟩ := ih
    exact ⟨_, _, .cons recorded recorded', Script.spends_append_iff.2 ⟨_, spends, spends'⟩⟩

/-- What grew from a script is recorded by the draws that were taken. -/
theorem recorded_of_runOn_grow {type : String} {e : Expr ω} {s s' : Script}
    (h : (g.grow budget type).runOn s = (.ok e, s')) :
    e.type = type ∧ ∃ ds is, g.Recorded budget e ds is ∧ s.Spends ds s' := by
  induction budget generalizing type s e s' with
  | zero => exact absurd h runOn_refuse
  | succ budget ih =>
    obtain ⟨p, params, children, t, u, hp, hparams, hchildren, rfl⟩ := runOn_grow_succ_eq.1 h
    obtain ⟨d, i, hd, chosen, position⟩ := runOn_choose_eq.1 hp
    obtain ⟨ds, fed, spends⟩ := Sampler.runOn_script_iff.1 hparams
    have chain := (Drawing.runOn_mapM_eq.1 hchildren).mono fun _ _ _ _ h => ih h
    obtain ⟨rest, is, recorded, spends'⟩ := recordedAll_of_chain chain
    obtain ⟨-, rfl, -⟩ := mem_fitting.1 (List.mem_iff_get.2 ⟨i, position⟩)
    refine ⟨rfl, _, _, .node chosen position fed recorded, ?_⟩
    exact Script.spends_cons_iff.2 ⟨t, hd, Script.spends_append_iff.2 ⟨u, spends, spends'⟩⟩

theorem chain_of_recordedAll {children : List (Expr ω)} {ds : List Binary64} {is : List Nat}
    {s s' : Script} (each : ∀ c ∈ children, ∀ ds is s s', g.Recorded budget c ds is →
      Script.Spends s ds s' → (g.grow budget c.type).runOn s = (.ok c, s'))
    (h : g.RecordedAll budget children ds is) (spends : s.Spends ds s') :
    Drawing.Chain (fun s a c s' => (g.grow budget a).runOn s = (.ok c, s')) s
      (children.map Expr.type) children s' := by
  induction children generalizing ds is s with
  | nil =>
    cases h
    obtain rfl := Script.spends_nil_iff.1 spends
    exact .nil s
  | cons c cs ih =>
    cases h with
    | cons first others =>
      obtain ⟨t, spends, spends'⟩ := Script.spends_append_iff.1 spends
      refine .cons (each c (by simp) _ _ _ _ first spends) ?_
      exact ih (fun c' hc => each c' (by simp [hc])) others spends'

/-- A typed expression grows from the draws that are recorded for it. -/
theorem runOn_grow_of_recorded {e : Expr ω} {ds : List Binary64} {is : List Nat} {s s' : Script}
    (typed : e.WellTyped) (h : g.Recorded budget e ds is) (spends : s.Spends ds s') :
    (g.grow budget e.type).runOn s = (.ok e, s') := by
  induction typed generalizing budget ds is s s' with
  | node p params children types _ ih =>
    cases h with
    | node chosen position fed recorded =>
      obtain ⟨t, hd, spends⟩ := Script.spends_cons_iff.1 spends
      obtain ⟨u, spends, spends'⟩ := Script.spends_append_iff.1 spends
      have chain := chain_of_recordedAll (fun c hc _ _ _ _ => ih c hc) recorded spends'
      rw [types] at chain
      exact runOn_grow_succ_eq.2 ⟨p, params, children, t, u,
        runOn_choose_eq.2 ⟨_, _, hd, chosen, position⟩,
        Sampler.runOn_script_iff.2 ⟨_, fed, spends⟩, Drawing.runOn_mapM_eq.2 chain, rfl⟩

theorem RecordedAll.positions_eq {es es' : List (Expr ω)} {ds ds' : List Binary64}
    {is is' : List Nat} (each : ∀ e ∈ es, ∀ e' ds ds' is is', g.Recorded budget e ds is →
      g.Recorded budget e' ds' is' → e.names = e'.names → is = is')
    (h : g.RecordedAll budget es ds is) (h' : g.RecordedAll budget es' ds' is')
    (same : es.map Expr.names = es'.map Expr.names) : is = is' := by
  induction es generalizing es' ds ds' is is' with
  | nil =>
    obtain rfl := List.map_eq_nil_iff.1 same.symm
    cases h
    cases h'
    rfl
  | cons e es ih =>
    cases h with
    | cons first others =>
      cases h' with
      | nil => cases same
      | cons first' others' =>
        obtain ⟨same, sames⟩ := List.cons_eq_cons.1 same
        rw [each e (by simp) _ _ _ _ _ first first' same,
          ih (fun u hu => each u (by simp [hu])) others others' sames]

/-- The names of the productions tell which positions were chosen. -/
theorem Recorded.positions_eq {e e' : Expr ω} {ds ds' : List Binary64} {is is' : List Nat}
    (h : g.Recorded budget e ds is) (h' : g.Recorded budget e' ds' is')
    (same : e.names = e'.names) : is = is' := by
  induction e using Tree.induct generalizing budget e' ds ds' is is' with
  | node node ts ih =>
    cases h with
    | @node budget p _ _ _ i _ _ _ _ position _ recorded =>
      cases h' with
      | @node _ q _ _ _ j _ _ _ _ position' _ recorded' =>
        rw [Expr.names_node, Expr.names_node] at same
        injection same with name names
        have fits := List.mem_iff_get.2 ⟨i, position⟩
        have fits' := List.mem_iff_get.2 ⟨j, position'⟩
        obtain rfl := eq_of_name_eq (mem_fitting.1 fits).1 (mem_fitting.1 fits').1 name
        have index : i = j :=
          (nodup_fitting p.type _).injective_get (position.trans position'.symm)
        have rest := recorded.positions_eq
          (fun c hc _ _ _ _ _ h h' same => ih c hc h h' same) recorded' names
        rw [index, rest]

/-- Children with a record each have one together. -/
theorem exists_recordedAll {es : List (Expr ω)}
    (each : ∀ e ∈ es, ∃ ds is, (∀ d ∈ ds, d.InUnit) ∧ g.Recorded budget e ds is) :
    ∃ ds is, (∀ d ∈ ds, d.InUnit) ∧ g.RecordedAll budget es ds is := by
  induction es with
  | nil => exact ⟨[], [], nofun, .nil⟩
  | cons e es ih =>
    obtain ⟨ds, is, unit, recorded⟩ := each e (by simp)
    obtain ⟨rest, js, unit', recorded'⟩ := ih fun e' he => each e' (by simp [he])
    exact ⟨_, _, List.forall_mem_append.2 ⟨unit, unit'⟩, .cons recorded recorded'⟩

/-- A typed expression within a budget has a record. -/
theorem exists_recorded {e : Expr ω} (selects : SelectsEach g.productions.length)
    (typed : e.WellTyped) (listed : e.Over g.productions) (drawable : e.All Node.Drawable)
    (depth : e.depth ≤ budget) :
    ∃ ds is, (∀ d ∈ ds, d.InUnit) ∧ g.Recorded budget e ds is := by
  induction typed generalizing budget with
  | node p params children types each ih =>
    cases budget with
    | zero =>
      have := Tree.depth_pos (.node (⟨p, params⟩ : Node ω) children)
      omega
    | succ budget =>
      have depths := Tree.depth_node_le.1 depth
      obtain ⟨-, below⟩ := Tree.all_node.1 listed
      obtain ⟨⟨ds, unit, fed⟩, drawables⟩ := Tree.all_node.1 drawable
      have fits := mem_fitting_of_expr (.node p params children types each) listed depths
      obtain ⟨i, position⟩ := List.mem_iff_get.1 fits
      have few : (g.fitting p.type (budget + 1 : Nat)).length ≤ g.productions.length :=
        (List.length_filter_le _ _).trans (List.length_filter_le _ _)
      obtain ⟨d, inside, cut⟩ := selects _ few i i.isLt
      obtain ⟨rest, is, units, recorded⟩ := exists_recordedAll fun c hc =>
        ih c hc (below c hc) (drawables c hc) (depths c hc)
      refine ⟨_, _, ?_, .node (choiceIndex_of_cut i cut) position fed recorded⟩
      exact List.forall_mem_cons.2 ⟨inside, List.forall_mem_append.2 ⟨unit, units⟩⟩

/-- Synthesis succeeds if growth does and the budget is the least one or more. -/
theorem runOn_synthesize_eq {σ : Type} [RandomSource σ] {type : String} {d : Int} {e : Expr ω}
    {s s' : σ} : (g.synthesize type d).runOn s = (.ok e, s') ↔
      (∃ n, g.minDepth type = .ok n ∧ n ≤ d) ∧ (g.grow d.toNat type).runOn s = (.ok e, s') := by
  cases least : g.minDepth type with
  | error err =>
    rw [synthesize, least]
    constructor
    · intro h
      cases h
    · rintro ⟨⟨n, h, -⟩, -⟩
      cases h
  | ok n =>
    by_cases enough : n ≤ d
    · rw [synthesize_eq_grow least enough]
      exact ⟨fun h => ⟨⟨n, rfl, enough⟩, h⟩, And.right⟩
    · rw [synthesize, least]
      dsimp only
      rw [if_pos (Int.not_le.1 enough)]
      constructor
      · intro h
        cases h
      · rintro ⟨⟨n', same, enough'⟩, -⟩
        cases same
        exact absurd enough' enough

/-- A typed expression within a budget shows that the budget is the least one of its type or
more. -/
theorem minDepth_le_of_expr {e : Expr ω} {d : Int} (typed : e.WellTyped)
    (listed : e.Over g.productions) (depth : e.depth ≤ d) :
    ∃ n, g.minDepth e.type = .ok n ∧ n ≤ d := by
  have known : e.type ∈ g.types := by
    cases listed with
    | node member _ => exact List.mem_eraseDups.2 (List.mem_map.2 ⟨_, member, rfl⟩)
  have completes := completes_of_expr typed listed depth
  rw [completes_iff known] at completes
  exact ⟨_, minDepth_eq_ok.2 ⟨known, rfl⟩, by omega⟩

/-- Every typed expression within a budget grows from the scripts that record it, and from nothing
more; there is such a script of draws of the unit interval. Scripts from which expressions with the
same productions grow chose the same positions. -/
theorem synthesize_replay {type : String} {d : Int}
    (selects : SelectsEach g.productions.length) :
    (∀ e : Expr ω, e.type = type → e.WellTyped → e.Over g.productions → e.depth ≤ d →
      e.All Node.Drawable →
        (∃ script is, (∀ x ∈ script, x.InUnit) ∧ g.Recorded d.toNat e script is) ∧
        ∀ script is, g.Recorded d.toNat e script is →
          (g.synthesize type d).runOn ⟨script, 0⟩ = (.ok e, (⟨[], script.length⟩ : Script))) ∧
    ∀ (s s' : Script) (e e' : Expr ω) (t t' : Script),
      (g.synthesize type d).runOn s = (.ok e, t) →
      (g.synthesize type d).runOn s' = (.ok e', t') → e.names = e'.names →
        ∃ ds ds' is, s.Spends ds t ∧ s'.Spends ds' t' ∧
          (∀ js, g.Recorded d.toNat e ds js ↔ js = is) ∧
          ∀ js, g.Recorded d.toNat e' ds' js ↔ js = is := by
  constructor
  · rintro e rfl typed listed depth drawable
    have within : e.depth ≤ d.toNat := by omega
    refine ⟨exists_recorded selects typed listed drawable within, fun script is recorded => ?_⟩
    refine runOn_synthesize_eq.2 ⟨minDepth_le_of_expr typed listed depth, ?_⟩
    have spends := Script.spends_all script 0
    rw [Nat.zero_add] at spends
    exact runOn_grow_of_recorded typed recorded spends
  · intro s s' e e' t t' h h' same
    obtain ⟨-, ds, is, recorded, spends⟩ := recorded_of_runOn_grow (runOn_synthesize_eq.1 h).2
    obtain ⟨-, ds', is', recorded', spends'⟩ := recorded_of_runOn_grow (runOn_synthesize_eq.1 h').2
    refine ⟨ds, ds', is, spends, spends', fun js => ⟨fun other => ?_, ?_⟩,
      fun js => ⟨fun other => ?_, ?_⟩⟩
    · exact other.positions_eq recorded rfl
    · rintro rfl
      exact recorded
    · exact other.positions_eq recorded same.symm
    · rintro rfl
      exact recorded.positions_eq recorded' same ▸ recorded'

end Grammar

namespace Vocabulary

/-- The sine of a constant. -/
def sineOf (a : Float) : Expr (Option Operation) :=
  .node ⟨unary "sin" .sin, []⟩
    [.node ⟨⟨"rand", number, [], template "" [""], some .constant, .constant⟩, [a]⟩ []]

end Vocabulary

namespace Grammar

theorem synthesize_sineOf : ∃ script is,
    default.Recorded 2 (Vocabulary.sineOf 0.75) script is ∧
    (default.synthesize Vocabulary.number 2).runOn ⟨script, 0⟩ =
      (.ok (Vocabulary.sineOf 0.75), (⟨[], script.length⟩ : Script)) := by
  have few : default.productions.length ≤ Lehmer.maxOptions := by
    rw [default_productions]
    decide
  obtain ⟨complete, -⟩ := @synthesize_replay _ default Vocabulary.number 2
    (selectsEach.mono few)
  have leaf (node : Node (Option Operation)) (none : node.production.args = []) :
      Expr.WellTyped (.node node []) := .node _ _ [] none.symm (List.forall_mem_nil _)
  have typed : (Vocabulary.sineOf 0.75).WellTyped := by
    refine .node _ _ _ rfl ?_
    rw [List.forall_mem_singleton]
    exact leaf _ rfl
  have listed : (Vocabulary.sineOf 0.75).Over default.productions := by
    rw [default_productions]
    refine .node (by simp [Vocabulary.productions]) ?_
    rw [List.forall_mem_singleton]
    exact .node (by simp [Vocabulary.productions]) (List.forall_mem_nil _)
  have drawable : (Vocabulary.sineOf 0.75).All Node.Drawable := by
    refine .node ⟨[], List.forall_mem_nil _, rfl⟩ ?_
    rw [List.forall_mem_singleton]
    refine .node ⟨[.finite false 7 (-3)], ?_, rfl⟩ (List.forall_mem_nil _)
    rw [List.forall_mem_singleton]
    exact ⟨by decide, by decide⟩
  obtain ⟨⟨script, is, -, recorded⟩, replay⟩ := complete _ rfl typed listed (by decide) drawable
  exact ⟨script, is, recorded, replay script is recorded⟩

end Grammar

end ExpressionArt
