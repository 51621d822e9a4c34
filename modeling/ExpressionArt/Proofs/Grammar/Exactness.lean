import ExpressionArt.Proofs.Grammar.Derivation
import ExpressionArt.Proofs.Grammar.Support
import Mathlib.Order.Bounds.Basic

/-!
# The termination analysis is exact

The count of a type tells the least depth of its trees, and there is none if the count is infinite.
Counts never drop below: each is borne out by productions, so a tree of its depth can be built. They
come down far enough: a pass over the table settles all types that fit one more step, a pass without
a change settles all there are, and no type needs more passes than there are types.
-/

namespace ExpressionArt

variable {ω : Type}

namespace Steps

/-- A count is one less than the least depth of some trees, and infinite if there are none. -/
def Measures {α : Type} (s : Steps) (P : Tree α → Prop) : Prop :=
  match s with
  | .finite n => IsLeast {d | ∃ t, P t ∧ t.depth = d} (n + 1)
  | .infinite => ∀ t, ¬ P t

/-- A count measures the trees if it is below just the budgets that some of them fit. -/
theorem measures_of_below {α : Type} {s : Steps} {P : Tree α → Prop}
    (h : ∀ d : Nat, s.below d ↔ ∃ t, P t ∧ t.depth ≤ d) : s.Measures P := by
  cases s with
  | finite n =>
    have least : ∀ t, P t → n + 1 ≤ t.depth := by
      intro t ht
      have below := (h t.depth).2 ⟨t, ht, le_rfl⟩
      rw [below_finite] at below
      omega
    obtain ⟨t, ht, depth⟩ := (h (n + 1)).1 (below_finite.2 (by omega))
    refine ⟨⟨t, ht, le_antisymm depth (least t ht)⟩, ?_⟩
    rintro _ ⟨u, hu, rfl⟩
    exact least u hu
  | infinite =>
    intro t ht
    have below := (h t.depth).2 ⟨t, ht, le_rfl⟩
    simp [Steps.below] at below

theorem Measures.eq_infinite_iff {α : Type} {s : Steps} {P : Tree α → Prop} (h : s.Measures P) :
    s = .infinite ↔ ¬ ∃ t, P t := by
  cases s with
  | finite n =>
    obtain ⟨⟨t, ht, -⟩, -⟩ := h
    simpa using ⟨t, ht⟩
  | infinite => simpa using fun t => h t

end Steps

namespace StepTable

variable {t : StepTable} {type : String} {s : Steps} {d : Int}

/-- A lowering reaches its type. -/
theorem lower_below (listed : type ∈ t.map (·.1)) (h : s.below d) :
    ((t.lower type s).get type).below d := by
  rw [get_lower_of_mem listed]
  split
  · exact h
  · next higher => exact Steps.below_of_not_lt (fun less => higher ⟨rfl, less⟩) h

/-- Every entry holds the count that the table gives for its type. -/
def Consistent (t : StepTable) : Prop := ∀ entry ∈ t, entry.2 = t.get entry.1

theorem Consistent.lower (h : t.Consistent) (type : String) (s : Steps) :
    (t.lower type s).Consistent := by
  intro entry member
  obtain ⟨⟨u, old⟩, old_mem, rfl⟩ := List.mem_map.1 member
  have listed : u ∈ t.map (·.1) := List.mem_map.2 ⟨_, old_mem, rfl⟩
  have count : old = t.get u := h _ old_mem
  have keep : (if u = type ∧ s.lt old then (u, s) else (u, old)).1 = u := by split <;> rfl
  change (if u = type ∧ s.lt old then (u, s) else (u, old)).2 = (t.lower type s).get _
  rw [keep, get_lower_of_mem listed, ← count]
  split <;> rfl

end StepTable

namespace Termination

variable {table : Table ω} {t : StepTable} {type : String} {d k : Nat}

/-- One pass lowers the count of every type at least to the best that its productions had before. -/
theorem pass_below {ps : List (Production ω)} {d : Int} (keys : t.map (·.1) = table.map (·.1))
    (listed : (type, ps) ∈ table) (h : (best t ps).below d) :
    ((pass table t).get type).below d := by
  suffices ∀ (rows : Table ω) t, t.map (·.1) = table.map (·.1) → (type, ps) ∈ rows →
      (best t ps).below d → ((rows.foldl lowered t).get type).below d from
    this table t keys listed h
  intro rows
  induction rows with
  | nil => nofun
  | cons row rows ih =>
    intro t keys member h
    obtain rfl | later := List.mem_cons.1 member
    · have here : type ∈ t.map (·.1) := keys ▸ List.mem_map.2 ⟨_, listed, rfl⟩
      exact noHigher_foldl rows _ type d (StepTable.lower_below here h)
    · exact ih _ (by rw [lowered, StepTable.keys_lower, keys]) later ((noHigher_lower _ _).best h)

/-- All trees within a budget are accounted for. -/
def Accounts (table : Table ω) (t : StepTable) (k : Nat) : Prop :=
  ∀ type d, d ≤ k → Fits table type d → (t.get type).below d

/-- A pass accounts for trees that are one step deeper. -/
theorem Accounts.pass (keys : t.map (·.1) = table.map (·.1)) (h : Accounts table t k) :
    Accounts table (pass table t) (k + 1) := by
  intro type d le fits
  cases d with
  | zero => exact absurd fits not_fits_zero
  | succ d =>
    obtain ⟨ps, p, listed, member, args⟩ := fits_succ_iff.1 fits
    refine pass_below keys listed (best_below.2 ⟨p, member, productionSteps_below.2 ⟨?_, ?_⟩⟩)
    · omega
    · intro a ha
      simpa using h a d (by omega) (args a ha)

theorem keys_pass (keys : t.map (·.1) = table.map (·.1)) :
    (pass table t).map (·.1) = table.map (·.1) :=
  pass_induction (motive := fun t => t.map (·.1) = table.map (·.1))
    (fun t type ps _ h => by rw [StepTable.keys_lower, h]) keys

/-- Passes account for one step each, or for all trees if a pass changes nothing. -/
theorem Accounts.settle {n : Nat} (keys : t.map (·.1) = table.map (·.1))
    (h : Accounts table t k) : Accounts table (settle table n t) (k + n) := by
  induction n generalizing t k with
  | zero => exact h
  | succ n ih =>
    rw [Termination.settle]
    split
    · next fixed =>
      -- Nothing changes any more, so each further step is accounted for as well.
      have all : ∀ j, Accounts table t (k + j) := by
        intro j
        induction j with
        | zero => exact h
        | succ j ihj => exact fixed ▸ ihj.pass keys
      exact all (n + 1)
    · rw [Nat.add_comm n 1, ← Nat.add_assoc]
      exact ih (keys_pass keys) (h.pass keys)

theorem accounts_start : Accounts table (start table) 0 := by
  intro type d le fits
  exact absurd (Nat.le_zero.1 le ▸ fits) not_fits_zero

theorem accounts_solve : Accounts table (solve table) (table.length + 1) := by
  have h := (@accounts_start _ table).settle (n := table.length + 1) keys_start
  rwa [Nat.zero_add] at h

/-- Once there are as many passes as types, the trees within any budget are accounted for. -/
theorem Accounts.below_of_fits (h : Accounts table t k) (enough : table.length ≤ k)
    (fits : Fits table type d) : (t.get type).below d := by
  obtain ⟨j, fits, le, small⟩ := fits.bounded
  obtain ⟨n, count, less⟩ := Steps.below_iff.1 (h type j (by omega) fits)
  exact Steps.below_iff.2 ⟨n, count, by omega⟩

/-- The best production of a type comes with a tree if productions bear the counts out. -/
theorem Supported.fits_of_best (h : Supported table t) {ps : List (Production ω)}
    (listed : (type, ps) ∈ table) (below : (best t ps).below d) : Fits table type d := by
  induction d generalizing type ps with
  | zero => exact absurd (Steps.pos_of_below below) (Int.lt_irrefl 0)
  | succ d ih =>
    obtain ⟨p, member, below⟩ := best_below.1 below
    obtain ⟨-, args⟩ := productionSteps_below.1 below
    refine fits_succ_iff.2 ⟨ps, p, listed, member, fun a ha => ?_⟩
    obtain ⟨qs, listed, below⟩ := h a d (by simpa using args a ha)
    exact ih listed below

/-- A count that productions bear out comes with a tree. -/
theorem Supported.fits (h : Supported table t) (below : (t.get type).below d) :
    Fits table type d := by
  obtain ⟨ps, listed, below⟩ := h type d below
  exact h.fits_of_best listed below

/-- The analysis completes a type within a budget just if one of its trees is no deeper. -/
theorem solve_below_iff : ((solve table).get type).below d ↔ Fits table type d := by
  exact ⟨supported_solve.fits, accounts_solve.below_of_fits (Nat.le_succ _)⟩

/-- The same for a production. -/
theorem productionSteps_below_iff {p : Production ω} :
    (productionSteps (solve table) p).below d ↔ ∃ t, Rooted table p t ∧ t.depth ≤ d := by
  rw [productionSteps_below]
  cases d with
  | zero =>
    refine ⟨fun h => absurd h.1 (by simp), ?_⟩
    rintro ⟨t, -, depth⟩
    have := t.depth_pos
    omega
  | succ d =>
    have less : ((d + 1 : Nat) : Int) - 1 = d := by omega
    simp only [exists_rooted_iff, less, solve_below_iff]
    exact ⟨And.right, fun args => ⟨by omega, args⟩⟩

theorem measures_solve (table : Table ω) (type : String) :
    ((solve table).get type).Measures (Derives table type) :=
  Steps.measures_of_below fun _ => solve_below_iff

theorem measures_productionSteps (table : Table ω) (p : Production ω) :
    (productionSteps (solve table) p).Measures (Rooted table p) :=
  Steps.measures_of_below fun _ => productionSteps_below_iff

theorem consistent_start : (start table).Consistent := by
  intro entry member
  obtain ⟨row, -, rfl⟩ := List.mem_map.1 member
  rw [get_start]

theorem consistent_solve : (solve table).Consistent :=
  solve_induction consistent_start fun _ _ _ _ h => h.lower _ _

theorem isListed_iff : isListed table type ↔ type ∈ table.map (·.1) := by
  simp [isListed]

theorem missingArg?_eq_none {p : Production ω} (h : ∀ a ∈ p.args, a ∈ table.map (·.1)) :
    missingArg? table p = none := by
  rw [missingArg?, List.find?_eq_none]
  intro a ha
  simpa using isListed_iff.2 (h a ha)

theorem firstMissing?_eq_none_iff : firstMissing? table = none ↔
    ∀ row ∈ table, ∀ p ∈ row.2, ∀ a ∈ p.args, a ∈ table.map (·.1) := by
  simp only [firstMissing?, missingArg?, List.findSome?_eq_none_iff, List.find?_eq_none,
    Bool.not_eq_true, Bool.not_eq_false', isListed_iff]

end Termination

open Termination

theorem Analysis.ofTable_eq_ok {table : Table ω}
    (closed : ∀ row ∈ table, ∀ p ∈ row.2, ∀ a ∈ p.args, a ∈ table.map (·.1)) :
    Analysis.ofTable table = .ok ⟨table, solve table⟩ := by
  rw [Analysis.ofTable, firstMissing?_eq_none_iff.2 closed]

open Classical in
theorem Analysis.unproductive_eq_filter (table : Table ω) :
    (Analysis.mk table (solve table)).unproductive =
      (table.map (·.1)).filter fun type => ¬ ∃ t, Derives table type t := by
  rw [Analysis.unproductive, ← keys_solve, List.filter_map]
  congr 1
  refine List.filter_congr fun entry member => ?_
  rw [consistent_solve entry member]
  simp only [Function.comp, decide_eq_decide]
  exact (measures_solve table entry.1).eq_infinite_iff

open Classical in
/-- The steps of a listed type and those of a production over listed types are one less than the
least depth of their trees, and infinite just if they have none. The types reported are those
without a tree, in the order of the table. -/
theorem Analysis.ofTable_measures {table : Table ω}
    (closed : ∀ row ∈ table, ∀ p ∈ row.2, ∀ a ∈ p.args, a ∈ table.map (·.1)) :
    ∃ analysis : Analysis ω, Analysis.ofTable table = .ok analysis ∧
      (∀ type ∈ table.map (·.1), ∃ s, analysis.stepsToTerminal? type = some s ∧
        s.Measures (Derives table type)) ∧
      (∀ p : Production ω, (∀ a ∈ p.args, a ∈ table.map (·.1)) →
        ∃ s, analysis.productionSteps p = .ok s ∧ s.Measures (Rooted table p)) ∧
      analysis.unproductive =
        (table.map (·.1)).filter fun type => ¬ ∃ t, Derives table type t := by
  refine ⟨_, ofTable_eq_ok closed, fun type listed => ?_, fun p args => ?_,
    unproductive_eq_filter table⟩
  · have found := StepTable.lookup_eq_get (@keys_solve _ table ▸ listed)
    exact ⟨_, found, measures_solve table type⟩
  · refine ⟨_, ?_, measures_productionSteps table p⟩
    rw [Analysis.productionSteps, missingArg?_eq_none args]

/-- Two types that need each other and a third one, a type that only repeats itself, and one without
productions. -/
def knot : Table Unit :=
  let rule (name : String) (args : List String) : Production Unit :=
    ⟨name, "", args, .call, (), .nothing⟩
  [("first", [rule "both" ["second", "third"]]),
    ("second", [rule "back" ["first"], rule "end" []]),
    ("third", [rule "step" ["second"]]),
    ("fourth", [rule "again" ["fourth", "second"]]),
    ("fifth", [])]

theorem Analysis.ofTable_knot : ∃ analysis, Analysis.ofTable knot = .ok analysis ∧
    analysis.stepsToTerminal? "first" = some (.finite 2) ∧
    IsLeast {d | ∃ t, Derives knot "first" t ∧ t.depth = d} 3 ∧
    analysis.unproductive = ["fourth", "fifth"] ∧ ¬ ∃ t, Derives knot "fourth" t := by
  obtain ⟨analysis, ok, types, -, -⟩ := @ofTable_measures _ knot (by decide)
  obtain ⟨a, same, first, fourth, unproductive⟩ : ∃ a, Analysis.ofTable knot = .ok a ∧
      a.stepsToTerminal? "first" = some (.finite 2) ∧
      a.stepsToTerminal? "fourth" = some .infinite ∧ a.unproductive = ["fourth", "fifth"] :=
    ⟨_, rfl, by decide⟩
  cases same.symm.trans ok
  obtain ⟨s, found, measured⟩ := types "first" (by decide)
  cases first.symm.trans found
  obtain ⟨s, found, none⟩ := types "fourth" (by decide)
  cases fourth.symm.trans found
  exact ⟨analysis, ok, first, measured, unproductive, fun ⟨t, ht⟩ => none t ht⟩

end ExpressionArt
