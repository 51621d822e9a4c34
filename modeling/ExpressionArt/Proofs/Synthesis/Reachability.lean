import ExpressionArt.Proofs.Synthesis.Budgets
import ExpressionArt.Proofs.Vocabulary.Default

/-!
# Synthesis stays within what its type reaches

From a type, argument lists lead to further types. Two grammars that list the same productions in
the same order for each of these types give them the same steps, however their tables are ordered
and whatever other types they have: the steps of a type are told by its expressions, whose nodes are
of types that it reaches. So every choice is among the same productions.
-/

namespace ExpressionArt

variable {σ α β ω : Type}

namespace Grammar

/-- The types that argument lists lead to from a type, itself included. -/
inductive Reaches (g : Grammar ω) (start : String) : String → Prop where
  | refl : Reaches g start start
  | step {type a : String} {p : Production ω} :
    Reaches g start type → p ∈ g.productionsOf type → a ∈ p.args → Reaches g start a

variable {g h : Grammar ω} {start type : String}

theorem mem_types_iff : type ∈ g.types ↔ g.productionsOf type ≠ [] := by
  simp [types, typesOf, productionsOf, List.mem_eraseDups]

theorem mem_fitting_iff {p : Production ω} {d : Int} : p ∈ g.fitting type d ↔
    p ∈ g.productionsOf type ∧ 0 < d ∧ ∀ a ∈ p.args, g.Completes a (d - 1) := by
  simp only [mem_fitting, productionsOf, List.mem_filter, decide_eq_true_eq, and_assoc]

/-- A type is completed by one of its productions, the arguments of which are with one less. -/
theorem completes_iff_exists {d : Int} : g.Completes type d ↔
    ∃ p ∈ g.productionsOf type, 0 < d ∧ ∀ a ∈ p.args, g.Completes a (d - 1) := by
  constructor
  · intro completes
    obtain ⟨p, fits⟩ := List.exists_mem_of_ne_nil _ (fitting_ne_nil completes)
    exact ⟨p, mem_fitting_iff.1 fits⟩
  · rintro ⟨p, fits⟩
    exact completes_of_mem_fitting (mem_fitting_iff.2 fits)

section

variable (agree : ∀ type, g.Reaches start type → g.productionsOf type = h.productionsOf type)

include agree

/-- The same budgets complete a type that is reached. -/
theorem completes_congr (reached : g.Reaches start type) (d : Int) :
    g.Completes type d ↔ h.Completes type d := by
  by_cases positive : 0 < d
  · -- By induction on the budget, since each argument is to be completed with one less.
    obtain ⟨n, rfl⟩ := Int.eq_ofNat_of_zero_le (Int.le_of_lt positive)
    clear positive
    induction n generalizing type with
    | zero =>
      exact iff_of_false (fun c => Int.lt_irrefl 0 (Steps.pos_of_below c))
        fun c => Int.lt_irrefl 0 (Steps.pos_of_below c)
    | succ n ih =>
      have less : ((n + 1 : Nat) : Int) - 1 = n := by omega
      rw [completes_iff_exists, completes_iff_exists, less, ← agree type reached]
      refine exists_congr fun p => and_congr_right fun listed => and_congr_right fun _ => ?_
      exact forall₂_congr fun a ha => ih (reached.step listed ha)
  · exact iff_of_false (fun c => positive (Steps.pos_of_below c))
      fun c => positive (Steps.pos_of_below c)

theorem fitting_congr (reached : g.Reaches start type) (d : Int) :
    g.fitting type d = h.fitting type d := by
  rw [fitting, fitting, ← agree type reached]
  refine List.filter_congr fun p listed => ?_
  rw [Bool.eq_iff_iff, productionSteps, productionSteps, Termination.productionSteps_below,
    Termination.productionSteps_below]
  refine and_congr_right fun _ => forall₂_congr fun a ha => ?_
  exact completes_congr agree (reached.step listed ha) (d - 1)

theorem known_congr (reached : g.Reaches start type) : type ∈ g.types ↔ type ∈ h.types := by
  rw [mem_types_iff, mem_types_iff, agree type reached]

/-- What is asked of a type that is reached has the same answer, or is refused in both grammars. -/
theorem ofKnown_congr (reached : g.Reaches start type) {a b : α}
    (same : type ∈ g.types → a = b) : g.ofKnown type a = h.ofKnown type b := by
  have known := known_congr agree reached
  unfold ofKnown
  simp only [List.contains_iff_mem, ← known]
  split
  · next listed => rw [same listed]
  · rfl

theorem stepsOf_congr (reached : g.Reaches start type) (known : type ∈ g.types) :
    g.stepsOf type = h.stepsOf type := by
  have same (d : Int) : (g.stepsOf type : Int) < d ↔ (h.stepsOf type : Int) < d := by
    rw [← completes_iff known, ← completes_iff ((known_congr agree reached).1 known)]
    exact completes_congr agree reached d
  have upper := (same (h.stepsOf type + 1)).2 (by omega)
  have lower := (same (g.stepsOf type + 1)).1 (by omega)
  omega

theorem refuse_congr (reached : g.Reaches start type) (d : Int) :
    (g.refuse type d : Drawing σ α) = h.refuse type d := by
  have known := known_congr agree reached
  unfold refuse
  simp only [List.contains_iff_mem, known]

end

/-- What is done with each member of a list matters only for its members. -/
theorem mapM_congr {as : List α} {f f' : α → Drawing σ β} (same : ∀ a ∈ as, f a = f' a) :
    as.mapM f = as.mapM f' := by
  induction as with
  | nil => rfl
  | cons a as ih =>
    rw [List.mapM_cons, List.mapM_cons, same a (by simp), ih fun a' ha => same a' (by simp [ha])]

section

variable [RandomSource σ]

/-- What follows a choice matters only for the options that there are. -/
theorem choose_bind_congr {options : List (Production ω)} {f f' : Production ω → Drawing σ β}
    (same : ∀ p ∈ options, f p = f' p) : choose options >>= f = choose options >>= f' := by
  unfold choose
  rw [bind_assoc, bind_assoc]
  congr 1
  funext d
  split
  · rw [pure_bind, pure_bind]
    exact same _ (List.getElem_mem _)
  · rfl

variable (agree : ∀ type, g.Reaches start type → g.productionsOf type = h.productionsOf type)

include agree

theorem grow_congr (reached : g.Reaches start type) (budget : Nat) :
    (g.grow budget type : Drawing σ (Expr ω)) = h.grow budget type := by
  induction budget generalizing type with
  | zero => exact refuse_congr agree reached 0
  | succ budget ih =>
    rw [grow, grow, ← fitting_congr agree reached, ← refuse_congr agree reached]
    congr 1
    refine choose_bind_congr fun p fits => ?_
    have listed := (mem_fitting_iff.1 fits).1
    have children : p.args.mapM (g.grow budget : String → Drawing σ (Expr ω)) =
        p.args.mapM (h.grow budget) :=
      mapM_congr fun a ha => ih (reached.step listed ha)
    rw [children]

theorem build_congr (d : Int) : (g.build start d : Drawing σ (Expr ω)) = h.build start d := by
  rw [build, build, refuse_congr agree .refl, grow_congr agree .refl]

/-- Grammars with the same productions, in order, for each type that a type reaches give all of
these the same steps. From every source and within every budget synthesis of the type comes to the
same outcome in both and leaves the same source. -/
theorem synthesize_congr :
    (∀ type, g.Reaches start type → g.stepsToTerminal type = h.stepsToTerminal type) ∧
    ∀ (d : Int) (s : σ), (g.synthesize start d).runOn s = (h.synthesize start d).runOn s := by
  refine ⟨fun type reached => ?_, fun d s => ?_⟩
  · exact ofKnown_congr agree reached (stepsOf_congr agree reached)
  · have least : g.minDepth start = h.minDepth start :=
      ofKnown_congr agree .refl fun known => congrArg (· + 1) (stepsOf_congr agree .refl known)
    rw [synthesize, synthesize, least, build_congr agree]

end

end Grammar

namespace Vocabulary

/-- The vocabulary with numbers before vectors, and with a type of tints around the numbers. -/
def tinted : List (Production (Option Operation)) :=
  rule "tint" "Tint" [vector, "Tint"] .call .x :: productions.filter (·.type = number) ++
    rule "blank" "Tint" [] .call .y :: productions.filter (·.type = vector)

theorem tinted_accepted : ∃ g, Grammar.ofProductions tinted = .ok g := by
  have accepted : (Grammar.ofProductions tinted).isOk = true := by decide +kernel
  cases made : Grammar.ofProductions tinted with
  | ok g => exact ⟨g, rfl⟩
  | error e =>
    rw [made] at accepted
    cases accepted

/-- Vectors are made of vectors and numbers only. -/
theorem reaches_vector {type : String} (h : Grammar.default.Reaches vector type) :
    type = vector ∨ type = number := by
  have closed : ∀ p ∈ productions, ∀ a ∈ p.args, a = vector ∨ a = number := by decide +kernel
  induction h with
  | refl => exact .inl rfl
  | step _ listed member _ =>
    rw [Grammar.productionsOf, Grammar.default_productions] at listed
    exact closed _ (List.mem_filter.1 listed).1 _ member

end Vocabulary

namespace Grammar

theorem synthesize_tinted : ∃ g, ofProductions Vocabulary.tinted = .ok g ∧
    (∀ type, default.Reaches Vocabulary.vector type →
      default.productionsOf type = g.productionsOf type) ∧
    default.stepsToTerminal Vocabulary.vector = g.stepsToTerminal Vocabulary.vector ∧
    (default.synthesize Vocabulary.vector 5).runOn (Lehmer.ofSeed 7) =
      (g.synthesize Vocabulary.vector 5).runOn (Lehmer.ofSeed 7) := by
  obtain ⟨g, accepted⟩ := Vocabulary.tinted_accepted
  have agree (type : String) (reached : default.Reaches Vocabulary.vector type) :
      default.productionsOf type = g.productionsOf type := by
    rw [productionsOf, productionsOf, default_productions, productions_of_ofProductions accepted]
    obtain rfl | rfl := Vocabulary.reaches_vector reached
    · rfl
    · rfl
  obtain ⟨steps, outcomes⟩ := synthesize_congr (σ := Lehmer) agree
  exact ⟨g, accepted, agree, steps _ .refl, outcomes 5 (Lehmer.ofSeed 7)⟩

end Grammar

end ExpressionArt
