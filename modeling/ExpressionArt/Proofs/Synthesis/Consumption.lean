import ExpressionArt.Proofs.Synthesis.Lookahead
import ExpressionArt.Proofs.Synthesis.Replay

/-!
# Draws that synthesis takes

An expression takes one draw for each of its nodes and those of the samplers, and it takes them in
pre-order: at a node the draw that chooses its production, then the draws of its sampler, then those
of its children from left to right. What comes behind them in the source has no influence on the
outcome, nor has it if a draw is refused midway.
-/

namespace ExpressionArt

variable {ω : Type}

namespace Tree

variable {α β : Type}

/-- The labels, every node before its children. -/
def preorder : Tree α → List α := fold fun a ls => a :: ls.flatten

theorem preorder_node (a : α) (ts : List (Tree α)) :
    preorder (.node a ts) = a :: ts.flatMap preorder := by
  rw [preorder, fold_node, List.flatMap_def]

theorem preorder_relabel (f : α → β) (t : Tree α) :
    (t.relabel f).preorder = t.preorder.map f := by
  induction t using Tree.induct with
  | node a ts ih =>
    rw [relabel_node, preorder_node, preorder_node, List.map_cons, List.map_flatMap,
      List.flatMap_map]
    congr 1
    exact List.flatMap_congr ih

/-- The pre-order of a tree has each of its nodes once. -/
theorem length_preorder (t : Tree α) : t.preorder.length = t.size := by
  induction t using Tree.induct with
  | node a ts ih =>
    rw [preorder_node, size_node, List.length_cons, Nat.add_comm]
    congr 1
    induction ts with
    | nil => rfl
    | cons t ts ihs =>
      have sum : (ts.map size).foldl (· + ·) (t.size + 0) =
          t.size + (ts.map size).foldl (· + ·) 0 := List.foldl_assoc
      rw [List.flatMap_cons, List.length_append, ih t (by simp),
        ihs fun u hu => ih u (by simp [hu]), List.map_cons, List.foldl_cons, Nat.zero_add, ← sum,
        Nat.add_zero]

end Tree

/-- A node with the draws that it was made from. -/
structure MadeNode (ω : Type) where
  node : Node ω
  /-- The draw that chose the production. -/
  choice : Binary64
  /-- The draws of the sampler. -/
  own : List Binary64

/-- The draws of a node in the order in which they are taken. -/
def MadeNode.draws (m : MadeNode ω) : List Binary64 := m.choice :: m.own

theorem length_flatMap_draws (ms : List (MadeNode ω)) :
    (ms.flatMap MadeNode.draws).length = ms.length + (ms.flatMap MadeNode.own).length := by
  induction ms with
  | nil => rfl
  | cons m ms ih =>
    simp only [List.flatMap_cons, List.length_append, List.length_cons, MadeNode.draws, ih]
    omega

namespace Grammar

variable {g : Grammar ω}

/-- At each node the first draw chooses the production among those that fit the budget which is left
there, and the sampler returns the parameters on the other draws. -/
inductive Made (g : Grammar ω) : Nat → Tree (MadeNode ω) → Prop where
  | node {budget : Nat} {p : Production ω} {params : List Float} {choice : Binary64}
    {own : List Binary64} {ts : List (Tree (MadeNode ω))}
    {i : Fin (g.fitting p.type (budget + 1 : Nat)).length} :
    choiceIndex choice (g.fitting p.type (budget + 1 : Nat)).length = .ok i →
    (g.fitting p.type (budget + 1 : Nat)).get i = p → p.sampler.feed own = some params →
    (∀ t ∈ ts, Made g budget t) → Made g (budget + 1) (.node ⟨⟨p, params⟩, choice, own⟩ ts)

mutual

/-- The draws that are recorded for an expression are those of its nodes in pre-order. -/
theorem Recorded.made {budget : Nat} {e : Expr ω} {ds : List Binary64} {is : List Nat}
    (h : g.Recorded budget e ds is) : ∃ t, g.Made budget t ∧ t.relabel MadeNode.node = e ∧
      t.preorder.flatMap MadeNode.draws = ds :=
  match h with
  | .node chosen position fed children => by
    obtain ⟨ts, made, labels, draws⟩ := children.made
    refine ⟨_, .node chosen position fed made, ?_, ?_⟩
    · rw [Tree.relabel_node, labels]
    · rw [Tree.preorder_node, List.flatMap_cons, List.flatMap_assoc, draws]
      rfl

theorem RecordedAll.made {budget : Nat} {es : List (Expr ω)} {ds : List Binary64} {is : List Nat}
    (h : g.RecordedAll budget es ds is) : ∃ ts : List (Tree (MadeNode ω)),
      (∀ t ∈ ts, g.Made budget t) ∧ ts.map (Tree.relabel MadeNode.node) = es ∧
      (ts.flatMap fun t => t.preorder.flatMap MadeNode.draws) = ds :=
  match h with
  | .nil => ⟨[], nofun, rfl, rfl⟩
  | .cons first others => by
    obtain ⟨t, made, label, draws⟩ := first.made
    obtain ⟨ts, mades, labels, rest⟩ := others.made
    refine ⟨t :: ts, List.forall_mem_cons.2 ⟨made, mades⟩, ?_, ?_⟩
    · rw [List.map_cons, label, labels]
    · rw [List.flatMap_cons, draws, rest]

end

/-- What a drawing of expressions within a budget takes from its source, and what it depends on. -/
structure Spends (g : Grammar ω) (budget : Int) (draw : AnyDrawing (Expr ω)) : Prop where
  /-- The draws noted down are all that is taken, and noting them down changes nothing. -/
  logged {σ : Type} [RandomSource σ] (s : σ) : (draw (Logged σ)).runOn ⟨s, []⟩ =
    (((draw σ).runOn s).1, ⟨((draw σ).runOn s).2, draw.taken s⟩)
  /-- They are the next draws of the source, which is left behind them. -/
  left {σ : Type} [RandomSource σ] (s : σ) :
    RandomSource.take (draw.taken s).length s = (draw.taken s, ((draw σ).runOn s).2)
  /-- An expression takes the draws of its nodes in pre-order: one for each node, and those of the
  samplers. -/
  preorder {σ : Type} [RandomSource σ] {s s' : σ} {e : Expr ω}
    (grown : (draw σ).runOn s = (.ok e, s')) : ∃ made : Tree (MadeNode ω),
      g.Made budget.toNat made ∧ made.relabel MadeNode.node = e ∧
      draw.taken s = made.preorder.flatMap MadeNode.draws ∧
      (draw.taken s).length = e.size + (made.preorder.flatMap MadeNode.own).length
  /-- A source with the same draws, as far as they are taken, has the same outcome and is left
  behind as many draws, unless the first one ran dry. -/
  blind {σ τ : Type} [RandomSource σ] [RandomSource τ] {s : σ} {t : τ}
    (supplied : ((draw σ).runOn s).1 ≠ .error .exhausted)
    (agree : (RandomSource.take (draw.taken s).length s).1 =
      (RandomSource.take (draw.taken s).length t).1) :
    ((draw τ).runOn t).1 = ((draw σ).runOn s).1 ∧
      (draw.taken t).length = (draw.taken s).length

/-- A script gives its draws and ends. -/
theorem take_script (ds : List Binary64) (n : Nat) :
    RandomSource.take ds.length (⟨ds, n⟩ : Script) = (ds, ⟨[], n + ds.length⟩) := by
  induction ds generalizing n with
  | nil => rfl
  | cons d ds ih =>
    have first : RandomSource.next? (⟨d :: ds, n⟩ : Script) = some (d, ⟨ds, n + 1⟩) := rfl
    rw [List.length_cons, Plan.take_succ_some first, ih, Nat.add_assoc, Nat.add_comm 1]

/-- Where a drawing by plan succeeds, it succeeds on the script of the draws that it takes there,
and takes them all. -/
theorem runOn_script_taken {σ : Type} [RandomSource σ] {draw : AnyDrawing (Expr ω)} {s s' : σ}
    {e : Expr ω} (planned : draw.Planned) (grown : (draw σ).runOn s = (.ok e, s')) :
    (draw Script).runOn ⟨draw.taken s, 0⟩ =
      (.ok e, (⟨[], (draw.taken s).length⟩ : Script)) := by
  have supplied : ((draw σ).runOn s).1 ≠ .error .exhausted := by simp [grown]
  have whole := take_script (draw.taken s) 0
  have agree : (RandomSource.take (draw.taken s).length s).1 =
      (RandomSource.take (draw.taken s).length (⟨draw.taken s, 0⟩ : Script)).1 := by
    rw [planned.left, whole]
  obtain ⟨same, draws⟩ := planned.blind supplied agree
  have left := planned.left (⟨draw.taken s, 0⟩ : Script)
  rw [draws, whole, Nat.zero_add] at left
  rw [grown] at same
  exact Prod.ext same (congrArg Prod.snd left).symm

/-- A drawing by plan that grows expressions from scripts spends its draws on their nodes. -/
theorem spends_of_planned {draw : AnyDrawing (Expr ω)} {type : String} {d : Int}
    (planned : draw.Planned) (grows : ∀ {s s' : Script} {e}, (draw Script).runOn s = (.ok e, s') →
      (g.grow d.toNat type).runOn s = (.ok e, s')) : g.Spends d draw where
  logged := planned.logged
  left := planned.left
  blind supplied agree := by
    obtain ⟨same, draws⟩ := planned.blind supplied agree
    exact ⟨same, congrArg _ draws⟩
  preorder {_ _ s _ _} grown := by
    obtain ⟨-, ds, is, recorded, spends⟩ :=
      recorded_of_runOn_grow (grows (runOn_script_taken planned grown))
    obtain ⟨made, sound, labels, draws⟩ := recorded.made
    have all : draw.taken s = ds := by simpa using spends.pending
    refine ⟨made, sound, labels, all.trans draws.symm, ?_⟩
    rw [all, ← draws, length_flatMap_draws, Tree.length_preorder, ← labels, ← Tree.length_preorder,
      ← Tree.length_preorder, Tree.preorder_relabel, List.length_map]

/-- Without the check at the root expressions grow from a budget above zero only. -/
theorem runOn_grow_of_build {σ : Type} [RandomSource σ] {type : String} {d : Int} {e : Expr ω}
    {s s' : σ} (h : (g.build type d).runOn s = (.ok e, s')) :
    (g.grow d.toNat type).runOn s = (.ok e, s') := by
  rw [build] at h
  split at h
  · exact absurd h runOn_refuse
  · exact h

/-- The draws of a sampler belong to a node of a production that is listed. -/
theorem Made.each {budget : Nat} {t : Tree (MadeNode ω)} (h : g.Made budget t) :
    ∀ m ∈ t.preorder, m.node.production ∈ g.productions ∧
      m.node.production.sampler.feed m.own = some m.node.params := by
  induction h with
  | node _ position fed _ ih =>
    rw [Tree.preorder_node]
    refine List.forall_mem_cons.2 ⟨⟨?_, fed⟩, fun m member => ?_⟩
    · exact (mem_fitting.1 (List.mem_iff_get.2 ⟨_, position⟩)).1
    · obtain ⟨t, child, inside⟩ := List.mem_flatMap.1 member
      exact ih t child m inside

end Grammar

namespace Vocabulary

/-- The number of constants in an expression. -/
def constants (e : Expr (Option Operation)) : Nat :=
  e.preorder.countP fun node => node.production.name = "rand"

/-- Samplers of the vocabulary take as many draws as they return parameters. -/
theorem length_own {m : MadeNode (Option Operation)} (member : m.node.production ∈ productions)
    (fed : m.node.production.sampler.feed m.own = some m.node.params) :
    m.own.length = parameterCount m.node.production := by
  obtain ⟨sampler, count⟩ | ⟨sampler, count⟩ := sampler_of_mem member
  · rw [sampler] at fed
    rw [count]
    cases own : m.own with
    | nil => rfl
    | cons d ds =>
      rw [own] at fed
      cases fed
  · rw [sampler] at fed
    rw [count]
    match own : m.own with
    | [d] => rfl
    | [] =>
      rw [own] at fed
      cases fed
    | d :: d' :: ds =>
      rw [own] at fed
      cases fed

theorem length_flatMap_own {ms : List (MadeNode (Option Operation))}
    (each : ∀ m ∈ ms, m.own.length = parameterCount m.node.production) :
    (ms.flatMap MadeNode.own).length =
      (ms.map MadeNode.node).countP fun node => node.production.name = "rand" := by
  induction ms with
  | nil => rfl
  | cons m ms ih =>
    rw [List.flatMap_cons, List.length_append, each m (by simp),
      ih fun m' member => each m' (by simp [member]), List.map_cons, List.countP_cons,
      Nat.add_comm]
    simp [parameterCount]

/-- An expression of the default grammar takes one draw for each of its nodes and one more for each
of its constants. -/
theorem length_taken {budget : Int} {draw : AnyDrawing (Expr (Option Operation))}
    (spends : Grammar.default.Spends budget draw) {σ : Type} [RandomSource σ] {s s' : σ}
    {e : Expr (Option Operation)} (grown : (draw σ).runOn s = (.ok e, s')) :
    (draw.taken s).length = e.size + constants e := by
  obtain ⟨made, sound, labels, -, length⟩ := spends.preorder grown
  have each : ∀ m ∈ made.preorder, m.own.length = parameterCount m.node.production := by
    intro m member
    obtain ⟨listed, fed⟩ := sound.each m member
    rw [Grammar.default_productions] at listed
    exact length_own listed fed
  rw [length, length_flatMap_own each, constants, ← labels, Tree.preorder_relabel]

end Vocabulary

namespace Grammar

/-- Synthesis, with and without the check of the budget at the root, takes the draws of the nodes
that it makes in pre-order, and is blind to all draws behind those that it takes. Over the default
grammar these are as many as there are nodes and constants. -/
theorem synthesize_spends (g : Grammar ω) (type : String) (budget : Int) :
    g.Spends budget (fun _ _ => g.synthesize type budget) ∧
    g.Spends budget (fun _ _ => g.build type budget) ∧
    ∀ (σ : Type) [RandomSource σ] (s s' : σ) (e : Expr (Option Operation)),
      ((default.synthesize type budget).runOn s = (.ok e, s') →
        (AnyDrawing.taken (fun _ _ => default.synthesize type budget) s).length =
          e.size + Vocabulary.constants e) ∧
      ((default.build type budget).runOn s = (.ok e, s') →
        (AnyDrawing.taken (fun _ _ => default.build type budget) s).length =
          e.size + Vocabulary.constants e) := by
  have checked {ω : Type} (g : Grammar ω) :
      g.Spends budget (fun _ _ => g.synthesize type budget) :=
    spends_of_planned (AnyDrawing.planned_synthesize g type budget)
      fun h => (runOn_synthesize_eq.1 h).2
  have unchecked {ω : Type} (g : Grammar ω) : g.Spends budget (fun _ _ => g.build type budget) :=
    spends_of_planned (AnyDrawing.planned_build g type budget) runOn_grow_of_build
  refine ⟨checked g, unchecked g, fun σ _ s s' e => ⟨fun grown => ?_, fun grown => ?_⟩⟩
  · exact Vocabulary.length_taken (checked default) grown
  · exact Vocabulary.length_taken (unchecked default) grown

/-- Synthesis from a seed leaves the generator behind one draw for each node and each constant. -/
theorem synthesize_spends_seed : ∃ e s',
    (default.synthesize Vocabulary.vector 5).runOn (Lehmer.ofSeed 7) = (.ok e, s') ∧
    RandomSource.take (e.size + Vocabulary.constants e) (Lehmer.ofSeed 7) =
      (AnyDrawing.taken (fun _ _ => default.synthesize Vocabulary.vector 5) (Lehmer.ofSeed 7),
        s') := by
  have few : default.productions.length ≤ Lehmer.maxOptions := by
    rw [default_productions]
    decide
  obtain ⟨e, s', grown⟩ := synthesize_total default_minDepth (show ((2 : Nat) : Int) ≤ 5 by decide)
    few (Lehmer.supplies (Lehmer.ofSeed 7))
  obtain ⟨spends, -, counted⟩ := synthesize_spends default Vocabulary.vector 5
  have left := spends.left (Lehmer.ofSeed 7)
  rw [(counted Lehmer (Lehmer.ofSeed 7) s' e).1 grown, grown] at left
  exact ⟨e, s', grown, left⟩

end Grammar

end ExpressionArt
