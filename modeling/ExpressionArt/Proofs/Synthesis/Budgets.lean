import ExpressionArt.Proofs.Generator
import ExpressionArt.Proofs.Grammar.Expressions
import Mathlib.Data.List.TFAE
import Mathlib.Tactic.TFAE

/-!
# Budgets are refused at the door

A budget is too small for a type if no expression of the type fits it. Then nothing is drawn at all:
synthesis refuses the budget, growth without that check finds no production, and a generator is not
made. Otherwise each production that fits leaves its arguments enough, so whatever else may go wrong
on the way, the budget never runs out.
-/

namespace ExpressionArt

variable {σ ω α β : Type}

/-- The failures of a budget: it is below the least one of the root, or no production fits it. -/
def SynthesisError.IsBudget : SynthesisError → Prop
  | .budgetTooSmall .. | .nothingFits .. => True
  | _ => False

/-! ## Failures that never come up -/

/-- From no source does the drawing fail in one of some ways. -/
def Drawing.Avoids (P : SynthesisError → Prop) (d : Drawing σ α) : Prop :=
  ∀ s e s', d.runOn s = (.error e, s') → ¬ P e

namespace Drawing

variable {P : SynthesisError → Prop} {d : Drawing σ α} {f : α → Drawing σ β}

theorem avoids_pure (a : α) : (pure a : Drawing σ α).Avoids P := by
  intro s e s' h
  cases h

theorem avoids_throw {e : SynthesisError} (other : ¬ P e) : (throw e : Drawing σ α).Avoids P := by
  intro s e' s' h
  cases h
  exact other

theorem Avoids.bind (hd : d.Avoids P)
    (hf : ∀ a s t, d.runOn s = (.ok a, t) → (f a).Avoids P) : (d >>= f).Avoids P := by
  intro s e s' h
  obtain first | ⟨a, t, ha, h⟩ := runOn_bind_eq_error.1 h
  · exact hd s e s' first
  · exact hf a s t ha t e s' h

theorem avoids_mapM {as : List α} (h : ∀ a ∈ as, (f a).Avoids P) : (as.mapM f).Avoids P := by
  induction as with
  | nil => exact avoids_pure []
  | cons a as ih =>
    rw [List.mapM_cons]
    refine (h a (by simp)).bind fun b _ _ _ => ?_
    exact (ih fun a' ha => h a' (by simp [ha])).bind fun bs _ _ _ => avoids_pure _

/-- If the budget is small, the drawing throws this error before it looks at the source. Otherwise
it never fails in a way that `P` tells of. -/
structure Refuses (P : SynthesisError → Prop) (d : Drawing σ α) (small : Prop)
    (e : SynthesisError) : Prop where
  fails : P e
  throws : small → d = throw e
  avoids : ¬ small → d.Avoids P

theorem Refuses.of_runOn {small : Prop} {e e' : SynthesisError} {s s' : σ}
    (h : d.Refuses P small e) (hP : P e') (failed : d.runOn s = (.error e', s')) :
    s' = s ∧ small := by
  by_cases refused : small
  · rw [h.throws refused] at failed
    cases failed
    exact ⟨rfl, refused⟩
  · exact absurd hP (h.avoids refused s e' s' failed)

theorem Refuses.failed_iff {small : Prop} {e : SynthesisError} (h : d.Refuses P small e) (s : σ) :
    small ↔ ∃ e', P e' ∧ (d.runOn s).1 = .error e' := by
  constructor
  · intro refused
    rw [h.throws refused]
    exact ⟨e, h.fails, rfl⟩
  · rintro ⟨e', hP, failed⟩
    have whole : d.runOn s = (.error e', (d.runOn s).2) := Prod.ext failed rfl
    exact (h.of_runOn hP whole).2

variable [RandomSource σ]

theorem avoids_drawOne : (drawOne : Drawing σ Binary64).Avoids SynthesisError.IsBudget := by
  intro s e s' h
  rw [runOn_drawOne_eq_error h]
  exact id

theorem avoids_choose (options : List (Production ω)) :
    (Grammar.choose options : Drawing σ _).Avoids SynthesisError.IsBudget := by
  refine avoids_drawOne.bind fun d _ _ _ => ?_
  split
  · exact avoids_pure _
  · exact avoids_throw id

theorem avoids_sampler (sampler : Sampler) :
    (sampler.run : Drawing σ (List Float)).Avoids SynthesisError.IsBudget := by
  induction sampler with
  | done params => exact avoids_pure params
  | draw next ih => exact avoids_drawOne.bind fun d _ _ _ => ih d

end Drawing

namespace Grammar

variable {g : Grammar ω} {type : String} {d : Int}

theorem refuse_known (known : type ∈ g.types) :
    (g.refuse type d : Drawing σ α) = throw (.nothingFits type d) := by
  rw [refuse, if_pos (List.contains_iff_mem.2 known)]

variable [RandomSource σ]

/-- The budget of a type that it completes never runs out while an expression grows. -/
theorem avoids_grow {budget : Nat} (enough : g.Completes type budget) :
    (g.grow budget type : Drawing σ (Expr ω)).Avoids SynthesisError.IsBudget := by
  -- Every type that is grown is completed by what is left: a production that fits sees to that.
  induction budget generalizing type with
  | zero => exact absurd (Steps.pos_of_below enough) (Int.lt_irrefl 0)
  | succ budget ih =>
    rw [grow, if_neg (by simpa using fitting_ne_nil enough)]
    refine (Drawing.avoids_choose _).bind fun p s t hp => ?_
    refine (Drawing.avoids_sampler p.sampler).bind fun params _ _ _ => ?_
    refine (Drawing.avoids_mapM fun a ha => ih ?_).bind fun children _ _ _ =>
      Drawing.avoids_pure _
    obtain ⟨-, -, -, args⟩ := mem_fitting.1 (mem_of_runOn_choose hp)
    simpa using args a ha

theorem avoids_build (enough : g.Completes type d) :
    (g.build type d : Drawing σ (Expr ω)).Avoids SynthesisError.IsBudget := by
  have positive := Steps.pos_of_below enough
  rw [build, if_neg (by omega)]
  refine avoids_grow ?_
  rwa [Int.toNat_of_nonneg (by omega)]

/-- Without the check at the root a budget that is too small is refused by the first node. -/
theorem build_eq_throw (known : type ∈ g.types) (short : ¬ g.Completes type d) :
    (g.build type d : Drawing σ (Expr ω)) = throw (.nothingFits type d) := by
  rw [build]
  split
  · exact refuse_known known
  · next positive =>
    obtain ⟨n, rfl⟩ : ∃ n : Nat, d = (n + 1 : Nat) := Int.eq_succ_of_zero_lt (Int.not_le.1 positive)
    rw [Int.toNat_natCast, grow, fitting_eq_nil_iff.2 short, if_pos List.isEmpty_nil,
      refuse_known known]

/-- Growth without the check at the root refuses just what does not complete the type. -/
theorem refuses_build (known : type ∈ g.types) :
    (g.build type d : Drawing σ (Expr ω)).Refuses SynthesisError.IsBudget (¬ g.Completes type d)
      (.nothingFits type d) where
  fails := trivial
  throws := build_eq_throw known
  avoids enough := avoids_build (Classical.not_not.1 enough)

/-- Synthesis refuses just the budgets below the least one of the type. -/
theorem refuses_synthesize {required : Nat} (least : g.minDepth type = .ok required) :
    (g.synthesize type d : Drawing σ (Expr ω)).Refuses SynthesisError.IsBudget (d < required)
      (.budgetTooSmall d type required) where
  fails := trivial
  throws small := by simp only [synthesize, least, if_pos small]
  avoids enough := by
    simp only [synthesize, least, if_neg enough]
    exact avoids_build (completes_of_minDepth least (Int.not_lt.1 enough))

/-- The check of the root, the candidates, the two ways to synthesize, the check of a generator and
the depth of expressions agree on the budgets that are too small for a type. Whatever the source,
such a budget fails before a draw, and no other ever runs out. -/
theorem exhausted_tfae (g : Grammar ω) {type : String} (known : type ∈ g.types) (d : Int) :
    ∃ required, g.minDepth type = .ok required ∧
      (∀ s : σ, [d < required,
        g.candidates type d = .ok [],
        ∃ e, e.IsBudget ∧ ((g.synthesize type d).runOn s).1 = .error e,
        ∃ e, e.IsBudget ∧ ((g.build type d).runOn s).1 = .error e,
        ¬ ∃ e, Expr.Inhabits g.productions type e ∧ e.depth ≤ d].TFAE) ∧
      (d < required →
        (g.synthesize type d : Drawing σ (Expr ω)) = throw (.budgetTooSmall d type required) ∧
        (g.build type d : Drawing σ (Expr ω)) = throw (.nothingFits type d)) ∧
      (∀ (s s' : σ) e, e.IsBudget → ((g.synthesize type d).runOn s = (.error e, s') ∨
        (g.build type d).runOn s = (.error e, s')) → s' = s ∧ d < required) ∧
      ∀ (c : Grammar (Option Operation)) least epsilon, c.minDepth type = .ok least →
        ((∃ n, Generator.make c type d epsilon = .error (.budgetTooSmall d type n)) ↔
          d < least) := by
  have least : g.minDepth type = .ok (g.stepsOf type + 1) := minDepth_eq_ok.2 ⟨known, rfl⟩
  have short : d < (g.stepsOf type + 1 : Nat) ↔ ¬ g.Completes type d := by
    rw [completes_iff known]
    omega
  have door := refuses_synthesize (σ := σ) (d := d) least
  have inner := refuses_build (σ := σ) (d := d) known
  rw [← short] at inner
  refine ⟨_, least, fun s => ?_, fun small => ⟨door.throws small, inner.throws small⟩, ?_, ?_⟩
  · tfae_have 1 ↔ 2 := by
      rw [short, ← fitting_eq_nil_iff, candidates, ofKnown_eq_ok, and_iff_right known]
    tfae_have 1 ↔ 3 := door.failed_iff s
    tfae_have 1 ↔ 4 := inner.failed_iff s
    tfae_have 1 ↔ 5 := by rw [short, completes_iff_exists_inhabits]
    tfae_finish
  · rintro s s' e budget (failed | failed)
    · exact door.of_runOn budget failed
    · exact inner.of_runOn budget failed
  · intro c required epsilon least
    constructor
    · rintro ⟨n, failed⟩
      by_contra enough
      obtain ⟨made, ok, -⟩ := Generator.make_eq_ok epsilon least (Int.not_lt.1 enough)
      cases ok.symm.trans failed
    · intro small
      exact ⟨required, Generator.make_eq_error epsilon least small⟩

/-- Vectors over the default grammar take two levels. -/
theorem exhausted_default_vector : Vocabulary.vector ∈ default.types ∧
    default.candidates Vocabulary.vector 1 = .ok [] ∧
    (default.synthesize Vocabulary.vector 1).runOn (Lehmer.ofSeed 7) =
      (.error (.budgetTooSmall 1 Vocabulary.vector 2), Lehmer.ofSeed 7) ∧
    ¬ ∃ e, Expr.Inhabits default.productions Vocabulary.vector e ∧ e.depth ≤ (1 : Int) := by
  obtain ⟨known, -⟩ := minDepth_eq_ok.1 default_minDepth
  obtain ⟨required, least, agree, throws, -⟩ := exhausted_tfae (σ := Lehmer) default known 1
  cases least.symm.trans default_minDepth
  have small : (1 : Int) < (2 : Nat) := by decide
  have same := agree (.ofSeed 7)
  refine ⟨known, (same.out 0 1).1 small, ?_, (same.out 0 4).1 small⟩
  rw [(throws small).1]
  rfl

end Grammar

end ExpressionArt
