import ExpressionArt.Grammar.Termination
import ExpressionArt.Proofs.Expressions
import Mathlib.Data.List.Forall2
import Mathlib.Data.List.Perm.Subperm
import Mathlib.Data.Nat.Find

/-!
# Trees of a table

A finite tree has a type of a table if its root is listed under the type and its children have the
argument types of the root. A type fits a budget if one of its trees is no deeper. Budgets are told
apart by single steps: a type that needs a budget has an argument type that needs one less. So there
are as many listed types as the least budget of any of them, and a budget for each type suffices
for every type that has a tree at all.
-/

namespace ExpressionArt

variable {ω : Type}

namespace Tree

theorem depth_pos {α : Type} (t : Tree α) : 0 < t.depth := by
  cases t with
  | node a ts => rw [depth_node]; omega

end Tree

namespace Termination

/-- A finite tree of a type: its root is listed under the type, and each child is a tree of the
argument type at its place. -/
inductive Derives (table : Table ω) : String → Tree (Production ω) → Prop where
  | node {type : String} {ps : List (Production ω)} {p : Production ω}
    {ts : List (Tree (Production ω))} : (type, ps) ∈ table → p ∈ ps →
      List.Forall₂ (Derives table) p.args ts → Derives table type (.node p ts)

/-- A finite tree with a production at its root, which need not be listed itself. -/
def Rooted (table : Table ω) (p : Production ω) (t : Tree (Production ω)) : Prop :=
  t.label = p ∧ List.Forall₂ (Derives table) p.args t.children

/-- Some tree of the type is no deeper than the budget. -/
def Fits (table : Table ω) (type : String) (d : Nat) : Prop :=
  ∃ t, Derives table type t ∧ t.depth ≤ d

variable {table : Table ω} {type : String} {d : Nat}

theorem derives_iff {t : Tree (Production ω)} :
    Derives table type t ↔ ∃ ps p, (type, ps) ∈ table ∧ p ∈ ps ∧ Rooted table p t := by
  constructor
  · rintro ⟨listed, member, children⟩
    exact ⟨_, _, listed, member, rfl, children⟩
  · rintro ⟨ps, p, listed, member, label, children⟩
    cases t with
    | node q ts =>
      cases label
      exact .node listed member children

theorem Fits.mono {d' : Nat} (h : Fits table type d) (le : d ≤ d') : Fits table type d' := by
  obtain ⟨t, ht, depth⟩ := h
  exact ⟨t, ht, Nat.le_trans depth le⟩

theorem not_fits_zero : ¬ Fits table type 0 := by
  rintro ⟨t, -, depth⟩
  have := t.depth_pos
  omega

/-- Trees for some types, one by one, make up a list of children. -/
theorem exists_children {args : List String} (each : ∀ a ∈ args, Fits table a d) :
    ∃ ts, List.Forall₂ (Derives table) args ts ∧ ∀ t ∈ ts, t.depth ≤ d := by
  induction args with
  | nil => exact ⟨[], .nil, nofun⟩
  | cons a args ih =>
    obtain ⟨t, ht, depth⟩ := each a (by simp)
    obtain ⟨ts, hts, depths⟩ := ih fun a' ha => each a' (by simp [ha])
    exact ⟨t :: ts, .cons ht hts, List.forall_mem_cons.2 ⟨depth, depths⟩⟩

/-- Children within a budget bear out that their types fit it. -/
theorem fits_of_children {args : List String} {ts : List (Tree (Production ω))}
    (children : List.Forall₂ (Derives table) args ts) (depths : ∀ t ∈ ts, t.depth ≤ d) :
    ∀ a ∈ args, Fits table a d := by
  induction children with
  | nil => nofun
  | cons ht _ ih =>
    obtain ⟨depth, depths⟩ := List.forall_mem_cons.1 depths
    exact List.forall_mem_cons.2 ⟨⟨_, ht, depth⟩, ih depths⟩

/-- A production is completed within a budget if its arguments are within one less. -/
theorem exists_rooted_iff {p : Production ω} :
    (∃ t, Rooted table p t ∧ t.depth ≤ d + 1) ↔ ∀ a ∈ p.args, Fits table a d := by
  constructor
  · rintro ⟨t, ⟨-, children⟩, depth⟩
    cases t with
    | node q ts => exact fits_of_children children (Tree.depth_node_le.1 depth)
  · intro each
    obtain ⟨ts, children, depths⟩ := exists_children each
    exact ⟨.node p ts, ⟨rfl, children⟩, Tree.depth_node_le.2 depths⟩

/-- A type fits a budget if the arguments of one of its productions fit one less. -/
theorem fits_succ_iff : Fits table type (d + 1) ↔
    ∃ ps p, (type, ps) ∈ table ∧ p ∈ ps ∧ ∀ a ∈ p.args, Fits table a d := by
  simp only [← exists_rooted_iff]
  constructor
  · rintro ⟨t, derives, depth⟩
    obtain ⟨ps, p, listed, member, rooted⟩ := derives_iff.1 derives
    exact ⟨ps, p, listed, member, t, rooted, depth⟩
  · rintro ⟨ps, p, listed, member, t, rooted, depth⟩
    exact ⟨t, derives_iff.2 ⟨ps, p, listed, member, rooted⟩, depth⟩

/-- A type with a tree is listed. -/
theorem Fits.listed (h : Fits table type d) : type ∈ table.map (·.1) := by
  obtain ⟨t, ⟨listed, -, -⟩, -⟩ := h
  exact List.mem_map.2 ⟨_, listed, rfl⟩

/-- A type that needs a budget has an argument type that needs one less. -/
theorem exists_needs (fits : Fits table type (d + 2)) (needs : ¬ Fits table type (d + 1)) :
    ∃ a, Fits table a (d + 1) ∧ ¬ Fits table a d := by
  obtain ⟨ps, p, listed, member, args⟩ := fits_succ_iff.1 fits
  by_contra none
  push Not at none
  exact needs (fits_succ_iff.2 ⟨ps, p, listed, member, fun a ha => none a (args a ha)⟩)

/-- A type that needs a budget comes with as many types that fit it. -/
theorem exists_distinct (fits : Fits table type (d + 1)) (needs : ¬ Fits table type d) :
    ∃ types : List String, types.Nodup ∧ types.length = d + 1 ∧
      ∀ u ∈ types, Fits table u (d + 1) := by
  induction d generalizing type with
  | zero => exact ⟨[type], by simp, rfl, by simpa using fits⟩
  | succ d ih =>
    obtain ⟨a, fitsArg, needsArg⟩ := exists_needs fits needs
    obtain ⟨types, distinct, length, each⟩ := ih fitsArg needsArg
    -- The others fit one less, and this type does not: it is none of them.
    have new : type ∉ types := fun member => needs (each type member)
    refine ⟨type :: types, List.nodup_cons.2 ⟨new, distinct⟩, by simp [length], ?_⟩
    exact List.forall_mem_cons.2 ⟨fits, fun u hu => (each u hu).mono (by omega)⟩

/-- A budget of one for each listed type suffices wherever any does. -/
theorem Fits.bounded (h : Fits table type d) :
    ∃ k, Fits table type k ∧ k ≤ d ∧ k ≤ table.length := by
  classical
  have some : ∃ k, Fits table type k := ⟨d, h⟩
  refine ⟨Nat.find some, Nat.find_spec some, Nat.find_min' some h, ?_⟩
  obtain ⟨k, least⟩ : ∃ k, Nat.find some = k + 1 := by
    refine Nat.exists_eq_succ_of_ne_zero fun zero => ?_
    exact not_fits_zero (zero ▸ Nat.find_spec some)
  obtain ⟨types, distinct, length, each⟩ := exists_distinct (least ▸ Nat.find_spec some)
    (Nat.find_min some (least ▸ Nat.lt_succ_self k))
  have listed : types ⊆ table.map (·.1) := fun u hu => (each u hu).listed
  have count := (List.Nodup.subperm distinct listed).length_le
  rwa [length, List.length_map, ← least] at count

end Termination

end ExpressionArt
