import ExpressionArt.Proofs.Forests
import ExpressionArt.Proofs.Grammar.Exactness
import ExpressionArt.Proofs.Grammar.Fitting

/-!
# Expressions as trees of a table

Typed expressions over some productions are the trees of their table with parameters at the nodes:
without them each expression is such a tree, and each tree is an expression whose nodes carry none.
-/

namespace ExpressionArt

variable {ω : Type}

theorem mem_tableOf_self {ps : List (Production ω)} {p : Production ω} (h : p ∈ ps) :
    (p.type, ps.filter (·.type = p.type)) ∈ tableOf ps :=
  List.mem_map.2 ⟨p.type, List.mem_eraseDups.2 (List.mem_map.2 ⟨p, h, rfl⟩), rfl⟩

theorem Tree.depth_relabel {α β : Type} (f : α → β) (t : Tree α) :
    (t.relabel f).depth = t.depth := by
  induction t using Tree.induct with
  | node a ts ih =>
    rw [relabel_node, depth_node, depth_node, List.map_map]
    congr 2
    exact List.map_congr_left ih

namespace Expr

variable {ps : List (Production ω)} {type : String} {d : Nat}

/-- The productions of an expression, node by node. -/
def skeleton : Expr ω → Tree (Production ω) := Tree.fold fun node ts => .node node.production ts

theorem skeleton_node (node : Node ω) (ts : List (Expr ω)) :
    skeleton (.node node ts) = .node node.production (ts.map skeleton) := Tree.fold_node ..

theorem depth_skeleton (e : Expr ω) : e.skeleton.depth = e.depth := Tree.depth_relabel _ e

/-- A typed expression is a tree of the table of its productions. -/
theorem WellTyped.derives {e : Expr ω} {ps : List (Production ω)} (typed : e.WellTyped)
    (listed : e.Over ps) : Termination.Derives (tableOf ps) e.type e.skeleton := by
  induction typed with
  | node p params children types _ ih =>
    obtain ⟨member, below⟩ := Tree.all_node.1 listed
    rw [skeleton_node]
    refine .node (mem_tableOf_self member) (List.mem_filter.2 ⟨member, decide_eq_true rfl⟩) ?_
    rw [← types, List.forall₂_map_left_iff, List.forall₂_map_right_iff, List.forall₂_same]
    exact fun c hc => ih c hc (below c hc)

/-- The expression without parameters over a tree of productions. -/
def bare (t : Tree (Production ω)) : Expr ω := t.relabel fun p => ⟨p, []⟩

theorem bare_node (p : Production ω) (ts : List (Tree (Production ω))) :
    bare (.node p ts) = .node ⟨p, []⟩ (ts.map bare) := Tree.relabel_node ..

theorem depth_bare (t : Tree (Production ω)) : (bare t).depth = t.depth := Tree.depth_relabel _ t

/-- An expression of the type over some productions, typed node by node. -/
def Inhabits (ps : List (Production ω)) (type : String) (e : Expr ω) : Prop :=
  e.type = type ∧ e.WellTyped ∧ e.Over ps

open Termination

theorem inhabits_children {args : List String} {ts : List (Tree (Production ω))}
    (children : List.Forall₂ (Derives (tableOf ps)) args ts)
    (each : ∀ t ∈ ts, ∀ a, Derives (tableOf ps) a t → Inhabits ps a (bare t)) :
    (ts.map bare).map Expr.type = args ∧ ∀ c ∈ ts.map bare, c.WellTyped ∧ c.Over ps := by
  induction children with
  | nil => exact ⟨rfl, nofun⟩
  | cons first _ ih =>
    obtain ⟨here, later⟩ := List.forall_mem_cons.1 each
    obtain ⟨typed, sound⟩ := here _ first
    obtain ⟨types, all⟩ := ih later
    rw [List.map_cons, List.map_cons, typed, types]
    exact ⟨rfl, List.forall_mem_cons.2 ⟨sound, all⟩⟩

/-- A tree of the table of some productions makes a typed expression. -/
theorem inhabits_bare {t : Tree (Production ω)} (h : Derives (tableOf ps) type t) :
    Inhabits ps type (bare t) := by
  induction t using Tree.induct generalizing type with
  | node p ts ih =>
    obtain ⟨listed, member, children⟩ := h
    rw [mem_tableOf listed, List.mem_filter, decide_eq_true_eq] at member
    obtain ⟨types, each⟩ := inhabits_children children fun t ht a => ih t ht
    rw [bare_node]
    exact ⟨member.2, .node p [] _ types fun c hc => (each c hc).1,
      .node member.1 fun c hc => (each c hc).2⟩

/-- A type fits a budget if one of its typed expressions is no deeper. -/
theorem exists_inhabits_iff :
    (∃ e, Inhabits ps type e ∧ e.depth ≤ d) ↔ Fits (tableOf ps) type d := by
  constructor
  · rintro ⟨e, ⟨rfl, typed, listed⟩, depth⟩
    exact ⟨e.skeleton, typed.derives listed, by rwa [e.depth_skeleton]⟩
  · rintro ⟨t, derives, depth⟩
    exact ⟨bare t, inhabits_bare derives, by rwa [depth_bare]⟩

theorem inhabited_iff :
    (∃ e, Inhabits ps type e) ↔ ∃ t, Derives (tableOf ps) type t := by
  constructor
  · rintro ⟨e, rfl, typed, listed⟩
    exact ⟨e.skeleton, typed.derives listed⟩
  · rintro ⟨t, derives⟩
    exact ⟨bare t, inhabits_bare derives⟩

end Expr

namespace Grammar

variable {g : Grammar ω} {type : String} {p : Production ω} {d : Int}

/-- A production that fits shows that its type is completed. -/
theorem completes_of_mem_fitting (h : p ∈ g.fitting type d) : g.Completes type d := by
  obtain ⟨member, rfl, positive, args⟩ := mem_fitting.1 h
  obtain ⟨n, rfl⟩ : ∃ n : Nat, d = (n + 1 : Nat) := Int.eq_succ_of_zero_lt positive
  have less : ((n + 1 : Nat) : Int) - 1 = n := by omega
  rw [Completes, g.analysed, Termination.solve_below_iff, Termination.fits_succ_iff]
  refine ⟨_, p, mem_tableOf_self member, List.mem_filter.2 ⟨member, decide_eq_true rfl⟩, ?_⟩
  intro a ha
  rw [← Termination.solve_below_iff, ← g.analysed, ← less]
  exact args a ha

theorem fitting_eq_nil_iff : g.fitting type d = [] ↔ ¬ g.Completes type d := by
  constructor
  · exact fun none completes => fitting_ne_nil completes none
  · intro short
    rw [List.eq_nil_iff_forall_not_mem]
    exact fun p fits => short (completes_of_mem_fitting fits)

/-- A budget completes a type just if some expression of the type is no deeper. -/
theorem completes_iff_exists_inhabits :
    g.Completes type d ↔ ∃ e, Expr.Inhabits g.productions type e ∧ e.depth ≤ d := by
  by_cases negative : d < 0
  · refine iff_of_false ?_ ?_
    · intro completes
      have positive := Steps.pos_of_below completes
      omega
    · rintro ⟨e, -, depth⟩
      omega
  · obtain ⟨n, rfl⟩ := Int.eq_ofNat_of_zero_le (Int.not_lt.1 negative)
    rw [Completes, g.analysed, Termination.solve_below_iff, ← Expr.exists_inhabits_iff]
    simp only [Int.ofNat_le]

end Grammar

end ExpressionArt
