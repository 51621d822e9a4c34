import ExpressionArt.Grammar.Relaxation
import ExpressionArt.Proofs.Grammar.Exactness
import ExpressionArt.Proofs.Outcome

/-!
# Relaxation ends

The passes over a table end by themselves: a type whose least tree is of some depth is settled once
as many passes are over, no least tree is deeper than there are types, and the pass behind them
finds nothing to lower. What they come to are the steps of the analysis. A type that is not listed
is missed in the first pass already.
-/

namespace ExpressionArt

namespace Steps

/-- A lesser count is within a budget that the other is not within. -/
theorem exists_below_of_lt {a b : Steps} (h : a.lt b) : ∃ d : Nat, a.below d ∧ ¬ b.below d := by
  cases a with
  | finite m =>
    refine ⟨m + 1, below_finite.2 (by omega), fun hb => ?_⟩
    obtain ⟨n, rfl, less⟩ := below_iff.1 hb
    simp only [lt, decide_eq_true_eq] at h
    omega
  | infinite => cases h

end Steps

namespace StepTable

variable {t : StepTable} {type : String} {s : Steps}

/-- A count that is no less lowers nothing. -/
theorem Consistent.lower_eq_self (h : t.Consistent) (worse : ¬ s.lt (t.get type)) :
    t.lower type s = t := by
  have kept : ∀ entry ∈ t,
      (if entry.1 = type ∧ s.lt entry.2 then (entry.1, s) else entry) = entry := by
    intro entry member
    refine if_neg ?_
    rintro ⟨rfl, less⟩
    exact worse (h entry member ▸ less)
  calc t.lower type s = t.map id := List.map_congr_left kept
    _ = t := List.map_id t

/-- A listed type has a count, any other one is missed. -/
theorem find_eq (t : StepTable) (type : String) :
    t.find type = (Option.guard (· ∉ t.map (·.1)) type).elim (.ok (t.get type)) (.error ∘ .mk) := by
  by_cases listed : type ∈ t.map (·.1)
  · simp [find, lookup_eq_get listed, Option.guard, listed]
  · simp [find, lookup_eq_none listed, Option.guard, listed]

end StepTable

namespace Termination

variable {ω : Type} {table : Table ω} {t : StepTable} {k n : Nat}

theorem unlisted_of_firstMissing? {a : String} (h : firstMissing? table = some a) :
    ∃ row ∈ table, ∃ p ∈ row.2, a ∈ p.args ∧ a ∉ table.map (·.1) := by
  obtain ⟨row, listed, h⟩ := List.exists_of_findSome?_eq_some h
  obtain ⟨p, member, h⟩ := List.exists_of_findSome?_eq_some h
  have missing : isListed table a = false := by simpa using List.find?_some h
  refine ⟨row, listed, p, member, List.mem_of_find?_eq_some h, ?_⟩
  rw [← isListed_iff, missing]
  exact Bool.false_ne_true

/-! ## One pass -/

/-- Some production of the row does better than the count of its type. -/
def Betters (t : StepTable) (row : String × List (Production ω)) : Prop :=
  (best t row.2).lt (t.get row.1)

instance (t : StepTable) (row : String × List (Production ω)) : Decidable (Betters t row) :=
  inferInstanceAs (Decidable ((best t row.2).lt (t.get row.1)))

theorem missingArg?_eq_find? (p : Production ω) :
    missingArg? table p = p.args.find? (· ∉ table.map (·.1)) := by
  refine congrArg (List.find? · p.args) (funext fun a => ?_)
  simp only [decide_not, ← isListed_iff, Bool.decide_eq_true]

theorem findSteps_eq (keys : t.map (·.1) = table.map (·.1)) (p : Production ω) :
    findSteps t p = (missingArg? table p).elim (.ok (productionSteps t p)) (.error ∘ .mk) := by
  have looked := mapM_eq_elim p.args fun a _ => t.find_eq a
  rw [← List.find?_eq_findSome?_guard, keys, ← missingArg?_eq_find?] at looked
  unfold findSteps productionSteps
  cases args : p.args with
  | nil =>
    have leaf : p.isTerminal = true := by simp [Production.isTerminal, args]
    rw [leaf, missingArg?, args]
    rfl
  | cons a as =>
    have inner : p.isTerminal = false := by simp [Production.isTerminal, args]
    rw [args] at looked
    rw [inner, looked]
    cases missingArg? table p <;> rfl

/-- A visit of a row fails at the first argument that is missing. -/
theorem visit_eq (keys : t.map (·.1) = table.map (·.1)) (changed : Bool)
    (row : String × List (Production ω)) : visit (t, changed) row =
      (row.2.findSome? (missingArg? table)).elim
        (.ok (if Betters t row then (lowered t row, true) else (t, changed))) (.error ∘ .mk) := by
  have looked := mapM_eq_elim row.2 fun p _ => findSteps_eq keys p
  rw [visit, looked]
  cases row.2.findSome? (missingArg? table) <;> rfl

/-- What is lowered once differs from before, whatever is lowered afterwards. -/
theorem foldl_lowered_ne {row : String × List (Production ω)} (listed : row.1 ∈ t.map (·.1))
    (better : Betters t row) (rows : Table ω) : rows.foldl lowered (lowered t row) ≠ t := by
  intro same
  obtain ⟨d, below, above⟩ := Steps.exists_below_of_lt better
  have after := noHigher_foldl rows _ _ _ (StepTable.lower_below listed below)
  exact above (same ▸ after)

/-- Rows visited one after the other: the first argument missing ends them, and otherwise the flag
tells whether the table is another one now. -/
theorem foldlM_visit {rows : Table ω} (rows_mem : ∀ row ∈ rows, row.1 ∈ table.map (·.1))
    (keys : t.map (·.1) = table.map (·.1)) (consistent : t.Consistent) (changed : Bool) :
    rows.foldlM visit (t, changed) =
      (rows.findSome? fun row => row.2.findSome? (missingArg? table)).elim
        (.ok (rows.foldl lowered t, changed || decide (rows.foldl lowered t ≠ t)))
        (.error ∘ .mk) := by
  induction rows generalizing t changed with
  | nil => simp only [List.foldl_nil, ne_eq, not_true, decide_false, Bool.or_false]; rfl
  | cons row rows ih =>
    obtain ⟨here, later⟩ := List.forall_mem_cons.1 rows_mem
    rw [List.foldlM_cons, visit_eq keys, List.findSome?_cons]
    cases row.2.findSome? (missingArg? table) with
    | some a => rfl
    | none =>
      by_cases better : Betters t row
      · have differs := foldl_lowered_ne (keys ▸ here) better rows
        have keys' : (lowered t row).map (·.1) = table.map (·.1) := by
          rw [lowered, StepTable.keys_lower, keys]
        simp only [better, if_true, Option.elim_none, ok_bind, List.foldl_cons, differs,
          ih later keys' (consistent.lower _ _), ne_eq, not_false_eq_true, decide_true,
          Bool.true_or, Bool.or_true]
      · have same : lowered t row = t := consistent.lower_eq_self better
        simp only [better, if_false, Option.elim_none, ok_bind, List.foldl_cons, same,
          ih later keys consistent]

theorem sweep_eq (keys : t.map (·.1) = table.map (·.1)) (consistent : t.Consistent) :
    sweep table t = (firstMissing? table).elim
      (.ok (pass table t, decide (pass table t ≠ t))) (.error ∘ .mk) := by
  have visited := foldlM_visit (fun row listed => List.mem_map.2 ⟨row, listed, rfl⟩) keys
    consistent false
  rwa [Bool.false_or] at visited

/-! ## All passes -/

/-- What is true of the counts between two passes. -/
structure Sound (table : Table ω) (t : StepTable) : Prop where
  keys : t.map (·.1) = table.map (·.1)
  consistent : t.Consistent
  supported : Supported table t

theorem sound_start : Sound table (start table) := ⟨keys_start, consistent_start, supported_start⟩

theorem Sound.pass (h : Sound table t) : Sound table (pass table t) :=
  pass_induction (motive := Sound table) (fun t type ps listed h => {
    keys := by rw [StepTable.keys_lower, h.keys]
    consistent := h.consistent.lower _ _
    supported := h.supported.lower listed }) h

/-- Once as many passes as there are types are over, no production does better: it would show a
tree of its type that none of them accounts for. -/
theorem Sound.not_betters (h : Sound table t) (accounts : Accounts table t k)
    (enough : table.length ≤ k) {row : String × List (Production ω)} (listed : row ∈ table) :
    ¬ Betters t row := by
  intro better
  obtain ⟨d, below, above⟩ := Steps.exists_below_of_lt better
  exact above (accounts.below_of_fits enough (h.supported.fits_of_best listed below))

theorem Sound.pass_eq_self (h : Sound table t) (accounts : Accounts table t k)
    (enough : table.length ≤ k) : Termination.pass table t = t := by
  suffices ∀ rows : Table ω, (∀ row ∈ rows, row ∈ table) → rows.foldl lowered t = t from
    this table fun _ => id
  intro rows
  induction rows with
  | nil => exact fun _ => rfl
  | cons row rows ih =>
    intro listed
    obtain ⟨here, later⟩ := List.forall_mem_cons.1 listed
    have same : lowered t row = t :=
      h.consistent.lower_eq_self (h.not_betters accounts enough here)
    rw [List.foldl_cons, same, ih later]

/-- A pass that changes nothing is the last one. -/
theorem Sound.relaxes_of_fixed (h : Sound table t) (closed : firstMissing? table = none)
    (fixed : Termination.pass table t = t) (n : Nat) :
    Relaxes table t 1 (.ok (settle table (n + 1) t)) := by
  rw [settle, if_pos fixed]
  refine .settled ?_
  rw [sweep_eq h.keys h.consistent, closed, fixed]
  simp only [Option.elim_none, ne_eq, not_true, decide_false]

/-- The passes end once all types are accounted for, and one more has found nothing to lower. -/
theorem Sound.relaxes (h : Sound table t) (closed : firstMissing? table = none)
    (accounts : Accounts table t k) (enough : table.length ≤ k + n) :
    ∃ passes ≤ n + 1, Relaxes table t passes (.ok (settle table (n + 1) t)) := by
  -- By induction on the passes that the types not yet accounted for leave to make.
  induction n generalizing t k with
  | zero =>
    have fixed := h.pass_eq_self accounts enough
    exact ⟨1, le_rfl, h.relaxes_of_fixed closed fixed 0⟩
  | succ n ih =>
    by_cases fixed : Termination.pass table t = t
    · exact ⟨1, by omega, h.relaxes_of_fixed closed fixed _⟩
    · obtain ⟨passes, few, rest⟩ := ih h.pass (accounts.pass h.keys) (by omega)
      refine ⟨passes + 1, by omega, ?_⟩
      rw [settle, if_neg fixed]
      refine .again ?_ rest
      rw [sweep_eq h.keys h.consistent, closed, Option.elim_none, decide_eq_true fixed]

theorem relaxes_solve (closed : firstMissing? table = none) :
    ∃ passes ≤ table.length + 1, Relaxes table (start table) passes (.ok (solve table)) :=
  sound_start.relaxes closed accounts_start (Nat.zero_add _).ge

/-- Passes go in one way only. -/
theorem Relaxes.unique {m : Nat} {r r' : Except UnlistedType StepTable}
    (h : Relaxes table t n r) (h' : Relaxes table t m r') : n = m ∧ r = r' := by
  induction h generalizing m r' with
  | failed swept =>
    cases h' with
    | failed swept' => cases swept.symm.trans swept'; exact ⟨rfl, rfl⟩
    | settled swept' => cases swept.symm.trans swept'
    | again swept' _ => cases swept.symm.trans swept'
  | settled swept =>
    cases h' with
    | failed swept' => cases swept.symm.trans swept'
    | settled swept' => cases swept.symm.trans swept'; exact ⟨rfl, rfl⟩
    | again swept' _ => cases swept.symm.trans swept'
  | again swept _ ih =>
    cases h' with
    | failed swept' => cases swept.symm.trans swept'
    | settled swept' => cases swept.symm.trans swept'
    | again swept' rest =>
      cases swept.symm.trans swept'
      obtain ⟨rfl, rfl⟩ := ih rest
      exact ⟨rfl, rfl⟩

end Termination

open Termination

theorem Analysis.ofTable_of_missing {ω : Type} {table : Table ω} {type : String}
    (missing : firstMissing? table = some type) : Analysis.ofTable table = .error ⟨type⟩ := by
  rw [Analysis.ofTable, missing]

/-- The passes over a table end, in one way only: after at most one more than there are types they
come to the steps of the analysis, and the first one fails if some argument type is not listed. -/
theorem Analysis.relaxes_iff {ω : Type} (table : Table ω) : ∃ passes ≤ table.length + 1,
    (∀ n r, Relaxes table (start table) n r ↔
      n = passes ∧ r = (Analysis.ofTable table).map (·.steps)) ∧
    ((∃ row ∈ table, ∃ p ∈ row.2, ∃ a ∈ p.args, a ∉ table.map (·.1)) ↔
      ∃ type, Analysis.ofTable table = .error ⟨type⟩) ∧
    ∀ type, Analysis.ofTable table = .error ⟨type⟩ → passes = 1 ∧ type ∉ table.map (·.1) := by
  have only {passes : Nat} {r : Except UnlistedType StepTable}
      (h : Relaxes table (start table) passes r) (n : Nat) (r' : Except UnlistedType StepTable) :
      Relaxes table (start table) n r' ↔ n = passes ∧ r' = r := by
    refine ⟨fun h' => h'.unique h, ?_⟩
    rintro ⟨rfl, rfl⟩
    exact h
  cases missing : firstMissing? table with
  | none =>
    have closed := firstMissing?_eq_none_iff.1 missing
    have analysed := Analysis.ofTable_eq_ok closed
    obtain ⟨passes, few, relaxes⟩ := relaxes_solve missing
    refine ⟨passes, few, ?_, ⟨?_, ?_⟩, ?_⟩
    · rw [analysed]
      exact only relaxes
    · rintro ⟨row, listed, p, member, a, ha, unlisted⟩
      exact absurd (closed row listed p member a ha) unlisted
    · rintro ⟨type, failed⟩
      cases analysed.symm.trans failed
    · intro type failed
      cases analysed.symm.trans failed
  | some type =>
    have failed := Analysis.ofTable_of_missing missing
    have swept : sweep table (start table) = .error ⟨type⟩ := by
      rw [sweep_eq sound_start.keys sound_start.consistent, missing]
      rfl
    obtain ⟨row, listed, p, member, ha, unlisted⟩ := unlisted_of_firstMissing? missing
    refine ⟨1, by omega, ?_, ⟨fun _ => ⟨type, failed⟩,
      fun _ => ⟨row, listed, p, member, type, ha, unlisted⟩⟩, ?_⟩
    · rw [failed]
      exact only (.failed swept)
    · intro type' failed'
      cases failed.symm.trans failed'
      exact ⟨rfl, unlisted⟩

end ExpressionArt
