import ExpressionArt.Proofs.Grammar.Support

/-!
# Productions that fit

What a budget completes in a checked grammar. A type within its least budget has a production that
fits, and every argument of a production that fits can be completed with one less: the filter of
candidates, the check at the root and the recursion agree on one count.
-/

namespace ExpressionArt

variable {ω : Type}

theorem mem_tableOf {ps qs : List (Production ω)} {type : String}
    (h : (type, qs) ∈ tableOf ps) : qs = ps.filter (·.type = type) := by
  obtain ⟨t, -, eq⟩ := List.mem_map.1 h
  cases eq
  rfl

theorem keys_tableOf (ps : List (Production ω)) : (tableOf ps).map (·.1) = typesOf ps := by
  simp [tableOf, Function.comp_def]

namespace Grammar

variable {g : Grammar ω} {type : String} {p : Production ω} {d : Int}

/-- Some expression of the type is known to fit the budget. -/
def Completes (g : Grammar ω) (type : String) (d : Int) : Prop := (g.steps.get type).below d

theorem mem_fitting : p ∈ g.fitting type d ↔
    p ∈ g.productions ∧ p.type = type ∧ 0 < d ∧ ∀ a ∈ p.args, g.Completes a (d - 1) := by
  simp only [fitting, productionsOf, productionSteps, Completes, List.mem_filter,
    Termination.productionSteps_below, decide_eq_true_eq, and_assoc]

theorem fitting_ne_nil (h : g.Completes type d) : g.fitting type d ≠ [] := by
  have supported : Termination.Supported (tableOf g.productions) g.steps := by
    rw [g.analysed]
    exact Termination.supported_solve
  obtain ⟨ps, listed, hbest⟩ := supported type d h
  obtain ⟨p, hp, below⟩ := Termination.best_below.1 hbest
  rw [mem_tableOf listed] at hp
  exact List.ne_nil_of_mem (List.mem_filter.2 ⟨hp, below⟩)

/-- Every type of a checked grammar has a finite count. -/
theorem steps_get (known : type ∈ g.types) : g.steps.get type = .finite (g.stepsOf type) := by
  have keys : type ∈ g.steps.map (·.1) := by
    rw [g.analysed, Termination.keys_solve, keys_tableOf]
    exact known
  have found := StepTable.lookup_eq_get keys
  rw [stepsOf]
  generalize g.steps.get type = s at found ⊢
  have member : (type, s) ∈ g.steps := by
    obtain ⟨l₁, l₂, split, -⟩ := List.lookup_eq_some_iff.1 found
    rw [split]
    simp
  have finite := g.productive _ member
  cases s with
  | finite n => rfl
  | infinite => exact absurd rfl finite

theorem completes_iff (known : type ∈ g.types) : g.Completes type d ↔ g.stepsOf type < d := by
  rw [Completes, steps_get known, Steps.below_finite]

theorem ofKnown_eq_ok {α : Type} {answer a : α} :
    g.ofKnown type answer = .ok a ↔ type ∈ g.types ∧ answer = a := by
  unfold ofKnown
  split
  · next h => simp [List.contains_iff_mem.1 h]
  · next h => simp [mt List.contains_iff_mem.2 h]

theorem minDepth_eq_ok {n : Nat} :
    g.minDepth type = .ok n ↔ type ∈ g.types ∧ n = g.stepsOf type + 1 := by
  rw [minDepth, ofKnown_eq_ok, eq_comm (a := n)]

/-- The least budget of a type completes it, and so does any greater one. -/
theorem completes_of_minDepth {n : Nat} (h : g.minDepth type = .ok n) (enough : (n : Int) ≤ d) :
    g.Completes type d := by
  obtain ⟨known, rfl⟩ := minDepth_eq_ok.1 h
  rw [completes_iff known]
  omega

end Grammar

end ExpressionArt
