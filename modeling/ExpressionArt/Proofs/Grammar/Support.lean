import ExpressionArt.Grammar.Basic
import Mathlib.Logic.Basic

/-!
# Support of step counts

Counts are compared with budgets. A production is completed within a budget when each of its
arguments is within one less, a type when one of its productions is. Whatever count the analysis
gives to a type, some production of the type bears it out, so a type within a budget always has a
production that fits.
-/

namespace ExpressionArt

namespace Steps

variable {a b s : Steps} {d : Int}

theorem below_finite {n : Nat} : (finite n).below d ↔ (n : Int) < d := by simp [below]

theorem below_succ : s.succ.below d ↔ s.below (d - 1) := by
  cases s with
  | finite n => simp only [succ, below_finite]; omega
  | infinite => simp [succ, below]

/-- What is less than a count is within every budget that the count is within. -/
theorem below_of_lt (h : a.lt b) (hb : b.below d) : a.below d := by
  cases a with
  | finite m =>
    cases b with
    | finite n =>
      have less : m < n := by simpa [lt] using h
      rw [below_finite] at hb ⊢
      omega
    | infinite => simp [below] at hb
  | infinite => simp [lt] at h

theorem below_of_not_lt (h : ¬ b.lt a) (hb : b.below d) : a.below d := by
  cases a with
  | finite m =>
    cases b with
    | finite n =>
      have le : m ≤ n := by simpa [lt] using h
      rw [below_finite] at hb ⊢
      omega
    | infinite => simp [below] at hb
  | infinite =>
    cases b with
    | finite n => simp [lt] at h
    | infinite => exact hb

theorem below_min : (min a b).below d ↔ a.below d ∨ b.below d := by
  unfold min
  split
  · next h => exact ⟨.inr, fun hab => hab.elim (below_of_lt h) id⟩
  · next h => exact ⟨.inl, fun hab => hab.elim id (below_of_not_lt h)⟩

theorem below_max : (max a b).below d ↔ a.below d ∧ b.below d := by
  unfold max
  split
  · next h => exact ⟨fun hb => ⟨below_of_lt h hb, hb⟩, And.right⟩
  · next h => exact ⟨fun ha => ⟨ha, below_of_not_lt h ha⟩, And.left⟩

theorem below_foldl_min {ss : List Steps} :
    (ss.foldl min s).below d ↔ s.below d ∨ ∃ r ∈ ss, r.below d := by
  induction ss generalizing s with
  | nil => simp
  | cons r ss ih => simp [ih, below_min, or_assoc]

theorem below_foldl_max {ss : List Steps} :
    (ss.foldl max s).below d ↔ s.below d ∧ ∀ r ∈ ss, r.below d := by
  induction ss generalizing s with
  | nil => simp
  | cons r ss ih => simp [ih, below_max, and_assoc]

end Steps

namespace StepTable

variable {t : StepTable} {type u : String} {s : Steps}

theorem lookup_eq_get (listed : type ∈ t.map (·.1)) : t.lookup type = some (t.get type) := by
  obtain ⟨entry, member, rfl⟩ := List.mem_map.1 listed
  have found : (t.lookup entry.1).isSome := List.lookup_isSome_iff.2 ⟨entry, member, by simp⟩
  obtain ⟨s, hs⟩ := Option.isSome_iff_exists.1 found
  rw [get, hs, Option.getD_some]

/-- A listed count after a lowering. -/
theorem get_lower_of_mem (listed : u ∈ t.map (·.1)) :
    (t.lower type s).get u = if u = type ∧ s.lt (t.get u) then s else t.get u := by
  induction t with
  | nil => cases listed
  | cons entry t ih =>
    obtain ⟨v, old⟩ := entry
    unfold lower get at ih ⊢
    rw [List.map_cons, List.lookup_cons, List.lookup_cons]
    have keep : (if v = type ∧ s.lt old then (v, s) else (v, old)).1 = v := by split <;> rfl
    by_cases here : u = v
    · subst here
      rw [keep, beq_self_eq_true]
      change (some (ite _ _ _ : String × Steps).2).getD _ = _
      split <;> simp_all
    · have skip : (u == v) = false := by simpa using here
      rw [keep, skip]
      exact ih ((List.mem_cons.1 listed).resolve_left here)

theorem keys_lower (t : StepTable) (type : String) (s : Steps) :
    (t.lower type s).map (·.1) = t.map (·.1) := by
  simp only [lower, List.map_map, List.map_inj_left]
  intro entry _
  simp only [Function.comp]
  split <;> rfl

theorem lookup_eq_none (absent : type ∉ t.map (·.1)) : t.lookup type = none := by
  rw [List.lookup_eq_none_iff]
  intro entry member
  simpa using fun same : type = entry.1 => absent (List.mem_map.2 ⟨entry, member, same.symm⟩)

theorem get_of_not_mem (absent : type ∉ t.map (·.1)) : t.get type = .infinite := by
  rw [get, lookup_eq_none absent, Option.getD_none]

/-- Lowering a count changes no other count, and its own only to something less. -/
theorem get_lower (t : StepTable) (type u : String) (s : Steps) :
    (t.lower type s).get u = t.get u ∨
      u = type ∧ s.lt (t.get u) ∧ (t.lower type s).get u = s := by
  by_cases listed : u ∈ t.map (·.1)
  · rw [get_lower_of_mem listed]
    split
    · next h => exact .inr ⟨h.1, h.2, rfl⟩
    · exact .inl rfl
  · have absent : u ∉ (t.lower type s).map (·.1) := by rwa [keys_lower]
    exact .inl ((get_of_not_mem absent).trans (get_of_not_mem listed).symm)

end StepTable

namespace Termination

variable {ω : Type} {t t' : StepTable} {d : Int}

theorem productionSteps_below {p : Production ω} :
    (productionSteps t p).below d ↔ 0 < d ∧ ∀ a ∈ p.args, (t.get a).below (d - 1) := by
  unfold productionSteps
  split
  · next h => simp [h, Steps.below_finite]
  · next h =>
    rw [Steps.below_succ, Steps.below_foldl_max, Steps.below_finite]
    simp only [List.mem_map, forall_exists_index, and_imp, forall_apply_eq_imp_iff₂]
    constructor
    · rintro ⟨pos, args⟩
      exact ⟨by omega, args⟩
    · rintro ⟨pos, args⟩
      obtain ⟨a, ha⟩ := List.exists_mem_of_ne_nil p.args h
      have less := Steps.pos_of_below (args a ha)
      exact ⟨by omega, args⟩

theorem best_below {ps : List (Production ω)} :
    (best t ps).below d ↔ ∃ p ∈ ps, (productionSteps t p).below d := by
  have none : Steps.infinite.below d = false := rfl
  simp only [best, Steps.below_foldl_min, none, List.mem_map, exists_exists_and_eq_and,
    Bool.false_eq_true, false_or]

/-- Counts of one table are within all budgets that those of another table are within. -/
def NoHigher (t' t : StepTable) : Prop := ∀ type d, (t.get type).below d → (t'.get type).below d

theorem noHigher_lower (type : String) (s : Steps) : NoHigher (t.lower type s) t := by
  intro u d h
  obtain same | ⟨-, less, new⟩ := t.get_lower type u s
  · rwa [same]
  · rw [new]
    exact Steps.below_of_lt less h

theorem NoHigher.best (h : NoHigher t' t) {ps : List (Production ω)}
    (hb : (best t ps).below d) : (best t' ps).below d := by
  obtain ⟨p, hp, below⟩ := best_below.1 hb
  obtain ⟨pos, args⟩ := productionSteps_below.1 below
  exact best_below.2 ⟨p, hp, productionSteps_below.2 ⟨pos, fun a ha => h a _ (args a ha)⟩⟩

theorem NoHigher.trans {t'' : StepTable} (h : NoHigher t'' t') (h' : NoHigher t' t) :
    NoHigher t'' t :=
  fun type d below => h type d (h' type d below)

/-- The table once the count of a type is lowered to that of its best production. -/
def lowered (t : StepTable) (row : String × List (Production ω)) : StepTable :=
  t.lower row.1 (Termination.best t row.2)

theorem noHigher_foldl (rows : Table ω) (t : StepTable) : NoHigher (rows.foldl lowered t) t := by
  induction rows generalizing t with
  | nil => exact fun _ _ below => below
  | cons row rows ih => exact (ih _).trans (noHigher_lower _ _)

/-- Every count is borne out by productions of its type. -/
def Supported (table : Table ω) (t : StepTable) : Prop :=
  ∀ type d, (t.get type).below d → ∃ ps, (type, ps) ∈ table ∧ (best t ps).below d

variable {table : Table ω}

/-- What holds at the start and is kept by each lowering of a listed type holds of a pass. -/
theorem pass_induction {motive : StepTable → Prop}
    (lower : ∀ t type ps, (type, ps) ∈ table → motive t → motive (t.lower type (best t ps)))
    (h : motive t) : motive (pass table t) := by
  suffices ∀ rows : Table ω, (∀ row ∈ rows, row ∈ table) → ∀ t, motive t →
      motive (rows.foldl lowered t) from
    this table (fun _ => id) t h
  intro rows
  induction rows with
  | nil => exact fun _ _ h => h
  | cons row rows ih =>
    intro listed t h
    exact ih (fun r hr => listed r (by simp [hr])) _ (lower t _ _ (listed row (by simp)) h)

/-- What holds at the start and is kept by each lowering of a listed type holds at the end. -/
theorem solve_induction {motive : StepTable → Prop} (first : motive (start table))
    (lower : ∀ t type ps, (type, ps) ∈ table → motive t → motive (t.lower type (best t ps))) :
    motive (solve table) := by
  suffices ∀ n t, motive t → motive (settle table n t) from this _ _ first
  intro n
  induction n with
  | zero => exact fun _ h => h
  | succ n ih =>
    intro t h
    simp only [settle]
    split
    · exact h
    · exact ih _ (pass_induction lower h)

theorem get_start (type : String) : (start table).get type = .infinite := by
  unfold start StepTable.get
  induction table with
  | nil => rfl
  | cons entry table ih =>
    rw [List.map_cons, List.lookup_cons]
    split
    · rfl
    · exact ih

theorem Supported.lower (h : Supported table t) {type : String} {ps : List (Production ω)}
    (listed : (type, ps) ∈ table) : Supported table (t.lower type (best t ps)) := by
  intro u d below
  obtain same | ⟨rfl, -, new⟩ := t.get_lower type u (best t ps)
  · rw [same] at below
    obtain ⟨qs, hqs, hbest⟩ := h u d below
    exact ⟨qs, hqs, (noHigher_lower _ _).best hbest⟩
  · rw [new] at below
    exact ⟨ps, listed, (noHigher_lower _ _).best below⟩

theorem supported_start : Supported table (start table) := by
  intro type d h
  rw [get_start] at h
  cases h

theorem supported_solve : Supported table (solve table) :=
  solve_induction supported_start fun _ _ _ listed h => h.lower listed

theorem keys_start : (start table).map (·.1) = table.map (·.1) := by
  rw [start, List.map_map]
  rfl

/-- The analysis lists the types of the table in its order. -/
theorem keys_solve : (solve table).map (·.1) = table.map (·.1) := by
  refine solve_induction (motive := fun t => t.map (·.1) = table.map (·.1)) keys_start ?_
  intro t type ps _ h
  rw [StepTable.keys_lower, h]

end Termination

end ExpressionArt
