import ExpressionArt.Proofs.Grammar.Expressions
import ExpressionArt.Proofs.Grammar.Relaxation
import ExpressionArt.Proofs.Lookup
import Mathlib.Data.List.Sort
import Mathlib.Data.String.Basic

/-!
# Which productions make a grammar

Productions make a grammar if there are some, their names differ, every argument type has
productions and every type has an expression. Any others are refused for the first of these reasons
that applies. Whether a type has an expression is found out by the analysis, which is asked only
when all argument types are listed and therefore never misses one.
-/

namespace ExpressionArt

variable {ω : Type}

/-- What a list of productions has to satisfy to make a grammar. -/
structure WellFormed (ps : List (Production ω)) : Prop where
  nonempty : ps ≠ []
  distinct : (ps.map (·.name)).Nodup
  closed : ∀ p ∈ ps, ∀ a ∈ p.args, ∃ q ∈ ps, q.type = a
  productive : ∀ p ∈ ps, ∃ e, Expr.Inhabits ps p.type e

open Classical in
/-- The first reason why some productions make no grammar, with all that it names. -/
inductive FirstFault (ps : List (Production ω)) : GrammarError → Prop where
  | empty : ps = [] → FirstFault ps .empty
  | duplicateNames {names : List String} :
    ps ≠ [] → names ≠ [] → names.Pairwise (· < ·) →
    (∀ name, name ∈ names ↔ 1 < (ps.map (·.name)).count name) →
    FirstFault ps (.duplicateNames names)
  | missingTypes {before after : List (Production ω)} {p : Production ω} :
    ps ≠ [] → (ps.map (·.name)).Nodup → tableOrder ps = before ++ p :: after →
    (∀ q ∈ before, ∀ a ∈ q.args, a ∈ ps.map (·.type)) → (∃ a ∈ p.args, a ∉ ps.map (·.type)) →
    FirstFault ps (.missingTypes p.name p.type (p.args.filter (· ∉ ps.map (·.type))))
  | unproductiveTypes :
    ps ≠ [] → (ps.map (·.name)).Nodup → (∀ p ∈ ps, ∀ a ∈ p.args, a ∈ ps.map (·.type)) →
    (∃ type ∈ ps.map (·.type), ¬ ∃ e, Expr.Inhabits ps type e) →
    FirstFault ps (.unproductiveTypes
      ((typesOf ps).filter fun type => ¬ ∃ e, Expr.Inhabits ps type e))

namespace Grammar

variable {ps : List (Production ω)}

/-! ## Names -/

theorem mem_duplicateNames {name : String} :
    name ∈ duplicateNames ps ↔ 1 < (ps.map (·.name)).count name := by
  rw [duplicateNames, List.mem_mergeSort, List.mem_eraseDups, List.mem_filter, decide_eq_true_eq]
  refine ⟨And.right, fun twice => ⟨?_, twice⟩⟩
  exact List.count_pos_iff.1 (by omega)

theorem duplicateNames_eq_nil_iff : duplicateNames ps = [] ↔ (ps.map (·.name)).Nodup := by
  rw [List.eq_nil_iff_forall_not_mem, List.nodup_iff_count_le_one]
  simp only [mem_duplicateNames, Nat.not_lt]

theorem pairwise_duplicateNames : (duplicateNames ps).Pairwise (· < ·) := by
  have sorted : (duplicateNames ps).Pairwise fun a b => decide (a ≤ b) = true :=
    List.pairwise_mergeSort (fun a b c => by simpa using le_trans)
      (fun a b => by simpa using le_total a b) _
  have distinct : (duplicateNames ps).Nodup :=
    (List.mergeSort_perm _ _).nodup_iff.2 (Lookup.nodup_eraseDups _)
  refine (sorted.and distinct).imp ?_
  rintro a b ⟨le, ne⟩
  exact lt_of_le_of_ne (of_decide_eq_true le) ne

/-- The duplicates are told by what they are and by their order. -/
theorem eq_duplicateNames {names : List String} (sorted : names.Pairwise (· < ·))
    (same : ∀ name, name ∈ names ↔ 1 < (ps.map (·.name)).count name) :
    names = duplicateNames ps :=
  sorted.eq_of_mem_iff pairwise_duplicateNames fun name => (same name).trans mem_duplicateNames.symm

/-! ## Argument types -/

theorem mem_typesOf {type : String} : type ∈ typesOf ps ↔ type ∈ ps.map (·.type) :=
  List.mem_eraseDups

/-- The order of the table is an order of the productions. -/
theorem mem_tableOrder {p : Production ω} : p ∈ tableOrder ps ↔ p ∈ ps := by
  constructor
  · intro h
    obtain ⟨row, listed, member⟩ := List.mem_flatMap.1 h
    rw [mem_tableOf listed] at member
    exact (List.mem_filter.1 member).1
  · intro h
    exact List.mem_flatMap.2 ⟨_, mem_tableOf_self h, List.mem_filter.2 ⟨h, decide_eq_true rfl⟩⟩

theorem missingTypes_eq (p : Production ω) :
    missingTypes ps p = p.args.filter (· ∉ ps.map (·.type)) := by
  refine List.filter_congr fun a _ => ?_
  simp [← mem_typesOf]

theorem missingTypes_eq_nil_iff {p : Production ω} :
    missingTypes ps p = [] ↔ ∀ a ∈ p.args, a ∈ ps.map (·.type) := by
  simp only [missingTypes_eq, List.filter_eq_nil_iff, decide_eq_true_eq, not_not]

/-- No production of the table misses a type if all argument types have productions. -/
theorem find?_missingTypes_eq_none_iff :
    ((tableOrder ps).find? fun p => !(missingTypes ps p).isEmpty) = none ↔
      ∀ p ∈ ps, ∀ a ∈ p.args, a ∈ ps.map (·.type) := by
  simp only [List.find?_eq_none, mem_tableOrder, Bool.not_eq_true, Bool.not_eq_false',
    List.isEmpty_iff, missingTypes_eq_nil_iff]

/-- The first production of the table that misses a type. -/
theorem find?_missingTypes_eq_some_iff {p : Production ω} :
    ((tableOrder ps).find? fun p => !(missingTypes ps p).isEmpty) = some p ↔
      ∃ before after, tableOrder ps = before ++ p :: after ∧
        (∀ q ∈ before, ∀ a ∈ q.args, a ∈ ps.map (·.type)) ∧ ∃ a ∈ p.args, a ∉ ps.map (·.type) := by
  have misses : (!(missingTypes ps p).isEmpty) = true ↔ ∃ a ∈ p.args, a ∉ ps.map (·.type) := by
    rw [Bool.not_eq_true', ← Bool.not_eq_true, List.isEmpty_iff, missingTypes_eq_nil_iff]
    push Not
    rfl
  rw [List.find?_eq_some_iff_append, misses]
  simp only [Bool.not_not, List.isEmpty_iff, missingTypes_eq_nil_iff]
  constructor
  · rintro ⟨missing, before, after, split, earlier⟩
    exact ⟨before, after, split, earlier, missing⟩
  · rintro ⟨before, after, split, earlier, missing⟩
    exact ⟨missing, before, after, split, earlier⟩

/-! ## Types without expressions -/

open Classical in
/-- The types that the analysis finds no end for are those without an expression. -/
theorem unproductive_tableOf (ps : List (Production ω)) :
    ((Termination.solve (tableOf ps)).filter (·.2 = .infinite)).map (·.1) =
      (typesOf ps).filter fun type => ¬ ∃ e, Expr.Inhabits ps type e := by
  simp only [Expr.inhabited_iff, ← keys_tableOf]
  exact Analysis.unproductive_eq_filter (tableOf ps)

theorem productive_iff : (∀ entry ∈ Termination.solve (tableOf ps), entry.2 ≠ .infinite) ↔
    ∀ type ∈ ps.map (·.type), ∃ e, Expr.Inhabits ps type e := by
  classical
  have none := congrArg (· = []) (unproductive_tableOf ps)
  simpa only [List.map_eq_nil_iff, List.filter_eq_nil_iff, decide_eq_true_eq, not_not, mem_typesOf,
    eq_iff_iff] using none

/-! ## The checks -/

theorem ofProductions_of_duplicates (some : ps ≠ []) (twice : duplicateNames ps ≠ []) :
    ofProductions ps = .error (.duplicateNames (duplicateNames ps)) := by
  rw [ofProductions, dif_neg some, dif_neg twice]

section

variable (some : ps ≠ []) (distinct : (ps.map (·.name)).Nodup)

include some distinct

theorem ofProductions_of_missing {p : Production ω}
    (missing : ((tableOrder ps).find? fun p => !(missingTypes ps p).isEmpty) = .some p) :
    ofProductions ps = .error (.missingTypes p.name p.type (missingTypes ps p)) := by
  rw [ofProductions, dif_neg some, dif_pos (duplicateNames_eq_nil_iff.2 distinct)]
  split
  · next q found =>
    cases missing.symm.trans found
    rfl
  · next none => cases missing.symm.trans none

variable (closed : ∀ p ∈ ps, ∀ a ∈ p.args, a ∈ ps.map (·.type))

include closed

theorem ofProductions_of_unproductive
    (endless : ¬ ∀ type ∈ ps.map (·.type), ∃ e, Expr.Inhabits ps type e) :
    ofProductions ps = .error (.unproductiveTypes
      (((Termination.solve (tableOf ps)).filter (·.2 = .infinite)).map (·.1))) := by
  have none := find?_missingTypes_eq_none_iff.2 closed
  rw [ofProductions, dif_neg some, dif_pos (duplicateNames_eq_nil_iff.2 distinct)]
  split
  · next found => cases none.symm.trans found
  · exact dif_neg (mt productive_iff.1 endless)

theorem ofProductions_of_productive
    (productive : ∀ type ∈ ps.map (·.type), ∃ e, Expr.Inhabits ps type e) :
    ∃ g, ofProductions ps = .ok g ∧ g.productions = ps ∧
      g.steps = Termination.solve (tableOf ps) := by
  have none := find?_missingTypes_eq_none_iff.2 closed
  rw [ofProductions, dif_neg some, dif_pos (duplicateNames_eq_nil_iff.2 distinct)]
  split
  · next found => cases none.symm.trans found
  · exact ⟨_, dif_pos (productive_iff.2 productive), rfl, rfl⟩

end

/-- The first fault is the one that is reported. -/
theorem ofProductions_of_firstFault {fault : GrammarError} (h : FirstFault ps fault) :
    ofProductions ps = .error fault := by
  cases h with
  | empty none => rw [ofProductions, dif_pos none]
  | duplicateNames some twice sorted same =>
    obtain rfl := eq_duplicateNames sorted same
    exact ofProductions_of_duplicates some twice
  | missingTypes some distinct split earlier missing =>
    rw [← missingTypes_eq]
    exact ofProductions_of_missing some distinct
      (find?_missingTypes_eq_some_iff.2 ⟨_, _, split, earlier, missing⟩)
  | unproductiveTypes some distinct closed endless =>
    rw [← unproductive_tableOf]
    refine ofProductions_of_unproductive some distinct closed ?_
    push Not
    simpa using endless

/-- Productions have a first fault or are well formed. -/
theorem firstFault_or_wellFormed (ps : List (Production ω)) :
    (∃ fault, FirstFault ps fault) ∨ WellFormed ps := by
  by_cases none : ps = []
  · exact .inl ⟨_, .empty none⟩
  by_cases distinct : (ps.map (·.name)).Nodup
  case neg =>
    have twice := mt duplicateNames_eq_nil_iff.1 distinct
    exact .inl ⟨_, .duplicateNames none twice pairwise_duplicateNames fun _ => mem_duplicateNames⟩
  cases found : (tableOrder ps).find? fun p => !(missingTypes ps p).isEmpty with
  | some p =>
    obtain ⟨before, after, split, earlier, missing⟩ := find?_missingTypes_eq_some_iff.1 found
    exact .inl ⟨_, .missingTypes none distinct split earlier missing⟩
  | none =>
    have closed := find?_missingTypes_eq_none_iff.1 found
    by_cases productive : ∀ type ∈ ps.map (·.type), ∃ e, Expr.Inhabits ps type e
    · refine .inr ⟨none, distinct, fun p hp a ha => ?_, fun p hp => ?_⟩
      · exact List.mem_map.1 (closed p hp a ha)
      · exact productive _ (List.mem_map.2 ⟨p, hp, rfl⟩)
    · push Not at productive
      exact .inl ⟨_, .unproductiveTypes none distinct closed (by simpa using productive)⟩

theorem ofProductions_of_wellFormed (h : WellFormed ps) : ∃ g, ofProductions ps = .ok g ∧
    g.productions = ps ∧ g.steps = Termination.solve (tableOf ps) := by
  refine ofProductions_of_productive h.nonempty h.distinct (fun p hp a ha => ?_) fun type ht => ?_
  · exact List.mem_map.2 (h.closed p hp a ha)
  · obtain ⟨p, hp, rfl⟩ := List.mem_map.1 ht
    exact h.productive p hp

/-- Productions make a grammar just if they are well formed, and otherwise it is their first fault
that is reported. Where the analysis is asked at all, its passes end and miss no type. -/
theorem ofProductions_iff (ps : List (Production ω)) :
    ((∃ g, ofProductions ps = .ok g) ↔ WellFormed ps) ∧
    (∀ fault, ofProductions ps = .error fault ↔ FirstFault ps fault) ∧
    (∀ g, ofProductions ps = .ok g → g.productions = ps ∧
      Analysis.ofTable (tableOf ps) = .ok ⟨tableOf ps, g.steps⟩) ∧
    ((∀ p ∈ ps, ∀ a ∈ p.args, ∃ q ∈ ps, q.type = a) → ∃ steps, ∃ passes ≤ (typesOf ps).length + 1,
      Analysis.ofTable (tableOf ps) = .ok ⟨tableOf ps, steps⟩ ∧
      Termination.Relaxes (tableOf ps) (Termination.start (tableOf ps)) passes (.ok steps)) := by
  have analysed (closed : ∀ p ∈ ps, ∀ a ∈ p.args, ∃ q ∈ ps, q.type = a) :
      ∀ row ∈ tableOf ps, ∀ p ∈ row.2, ∀ a ∈ p.args, a ∈ (tableOf ps).map (·.1) := by
    intro row listed p member a ha
    rw [mem_tableOf listed] at member
    rw [keys_tableOf, mem_typesOf]
    exact List.mem_map.2 (closed p (List.mem_filter.1 member).1 a ha)
  refine ⟨⟨?_, ?_⟩, fun fault => ⟨?_, ofProductions_of_firstFault⟩, ?_, ?_⟩
  · rintro ⟨g, made⟩
    obtain ⟨fault, first⟩ | sound := firstFault_or_wellFormed ps
    · cases made.symm.trans (ofProductions_of_firstFault first)
    · exact sound
  · intro sound
    obtain ⟨g, made, -⟩ := ofProductions_of_wellFormed sound
    exact ⟨g, made⟩
  · intro refused
    obtain ⟨fault', first⟩ | sound := firstFault_or_wellFormed ps
    · cases refused.symm.trans (ofProductions_of_firstFault first)
      exact first
    · obtain ⟨g, made, -⟩ := ofProductions_of_wellFormed sound
      cases refused.symm.trans made
  · intro g made
    obtain ⟨fault, first⟩ | sound := firstFault_or_wellFormed ps
    · cases made.symm.trans (ofProductions_of_firstFault first)
    · obtain ⟨g', made', productions, steps⟩ := ofProductions_of_wellFormed sound
      cases made.symm.trans made'
      exact ⟨productions, by rw [steps]; exact Analysis.ofTable_eq_ok (analysed sound.closed)⟩
  · intro closed
    have none := Termination.firstMissing?_eq_none_iff.2 (analysed closed)
    obtain ⟨passes, few, relaxes⟩ := Termination.relaxes_solve none
    rw [tableOf, List.length_map] at few
    exact ⟨_, passes, few, Analysis.ofTable_eq_ok (analysed closed), relaxes⟩

end Grammar

end ExpressionArt
