import ExpressionArt.Proofs.Number.Order
import ExpressionArt.Proofs.Timing.Tables
import ExpressionArt.Proofs.Timing.Totals
import Mathlib.Data.List.DropRight

/-!
# Reports of timings

However timings came about, by durations, by names that came up without one and by resets, they are
told by what was done since the last reset: the names in the order in which they first came up,
each with its own durations. A report has one line for each name with durations, which shows how
many these are. The lines go by total, the largest first, and equal totals by the order of the
names.
-/

namespace ExpressionArt

/-- What is done to timings. -/
inductive TimingEvent where
  | record (name : String) (duration : Float)
  | touch (name : String)
  | reset

namespace TimingEvent

def isReset : TimingEvent → Bool
  | .reset => true
  | _ => false

/-- The name that comes up. -/
def name? : TimingEvent → Option String
  | .record name _ => some name
  | .touch name => some name
  | .reset => none

/-- The duration for a name. -/
def duration? (name : String) : TimingEvent → Option Float
  | .record n duration => if n = name then some duration else none
  | _ => none

end TimingEvent

namespace Timings

def apply (t : Timings) : TimingEvent → Timings
  | .record name duration => t.record name duration
  | .touch name => t.touch name
  | .reset => []

/-- The timings that some events lead to. -/
def after (events : List TimingEvent) : Timings := events.foldl apply []

end Timings

/-! ## What was done since the last reset -/

namespace TimingEvent

/-- The events behind the last reset. -/
def sinceReset (events : List TimingEvent) : List TimingEvent := events.rtakeWhile (!·.isReset)

/-- The names that came up, each where it did so first. -/
def created (events : List TimingEvent) : List String :=
  ((sinceReset events).filterMap name?).eraseDups

def durations (events : List TimingEvent) (name : String) : List Float :=
  (sinceReset events).filterMap (duration? name)

/-- The names with durations. -/
def measured (events : List TimingEvent) : List String :=
  (created events).filter fun name => durations events name ≠ []

variable (events : List TimingEvent) (name : String) (duration : Float)

theorem sinceReset_reset : sinceReset (events ++ [.reset]) = [] :=
  List.rtakeWhile_concat_neg _ _ _ Bool.false_ne_true

theorem sinceReset_concat {e : TimingEvent} (inner : e.isReset = false) :
    sinceReset (events ++ [e]) = sinceReset events ++ [e] :=
  List.rtakeWhile_concat_pos _ _ _ (by rw [inner]; rfl)

theorem created_reset : created (events ++ [.reset]) = [] := by
  rw [created, sinceReset_reset]
  rfl

theorem created_of_name {e : TimingEvent} (inner : e.isReset = false)
    (named : e.name? = some name) :
    created (events ++ [e]) = withName (created events) name := by
  rw [created, sinceReset_concat events inner, List.filterMap_append,
    List.filterMap_cons_some named, List.filterMap_nil, eraseDups_concat]
  rfl

theorem durations_reset : durations (events ++ [.reset]) name = [] := by
  rw [durations, sinceReset_reset]
  rfl

theorem durations_touch (n : String) :
    durations (events ++ [.touch name]) n = durations events n := by
  rw [durations, sinceReset_concat events rfl, List.filterMap_append]
  exact List.append_nil _

theorem durations_record (n : String) : durations (events ++ [.record name duration]) n =
    durations events n ++ if name = n then [duration] else [] := by
  rw [durations, sinceReset_concat events rfl, List.filterMap_append]
  congr 1
  by_cases same : name = n <;> simp [duration?, same]

variable {events name}

theorem mem_created_of_durations (filled : durations events name ≠ []) : name ∈ created events := by
  obtain ⟨d, present⟩ := List.exists_mem_of_ne_nil _ filled
  obtain ⟨e, member, taken⟩ := List.mem_filterMap.1 present
  refine List.mem_eraseDups.2 (List.mem_filterMap.2 ⟨e, member, ?_⟩)
  cases e with
  | record n duration =>
    by_cases same : n = name
    · exact congrArg Option.some same
    · rw [duration?, if_neg same] at taken
      cases taken
  | touch n => cases taken
  | reset => cases taken

end TimingEvent

/-! ## The timings that some events lead to -/

namespace Timings

open TimingEvent

variable (events : List TimingEvent)

theorem names_after : (after events).names = created events := by
  induction events using List.reverseRecOn with
  | nil => rfl
  | append_singleton events e ih =>
    rw [after, List.foldl_concat, ← after]
    cases e with
    | record name duration =>
      rw [created_of_name events name rfl rfl, ← ih]
      exact names_record ..
    | touch name =>
      rw [created_of_name events name rfl rfl, ← ih]
      exact names_touch ..
    | reset => rw [created_reset]; rfl

theorem durationsOf_after (name : String) :
    (after events).durationsOf name = durations events name := by
  induction events using List.reverseRecOn with
  | nil => rfl
  | append_singleton events e ih =>
    rw [after, List.foldl_concat, ← after]
    cases e with
    | record n duration =>
      rw [durations_record, ← ih]
      exact durationsOf_record ..
    | touch n =>
      rw [durations_touch, ← ih]
      exact durationsOf_touch ..
    | reset => rw [durations_reset]; rfl

/-- Timings are told by the names that came up since the last reset and their durations. -/
theorem after_eq : after events =
    (created events).map fun name => (name, (durations events name).toArray) := by
  have distinct : (after events).names.Nodup := names_after events ▸ Lookup.nodup_eraseDups _
  rw [eq_map_names distinct, names_after]
  exact List.map_congr_left fun name _ => by rw [durationsOf_after]

theorem summaries_after :
    (after events).summaries =
      (measured events).map fun name => .ofDurations name (durations events name) := by
  rw [summaries, after_eq, List.filter_map, List.map_map, measured]
  congr 1
  refine List.filter_congr fun name _ => ?_
  rw [Bool.eq_iff_iff]
  simp

end Timings

/-! ## Names by a key -/

section

variable {names : List String} {key : String → Float}

/-- The names by their keys, the greatest first. -/
def descending (key : String → Float) (names : List String) : List String :=
  names.mergeSort fun m n => !decide (key m < key n)

theorem pair_or_pair {α : Type} {xs : List α} {a b : α} (left : a ∈ xs) (right : b ∈ xs)
    (ne : a ≠ b) : [a, b].Sublist xs ∨ [b, a].Sublist xs := by
  have : Std.Symm fun a b => [a, b].Sublist xs ∨ [b, a].Sublist xs := ⟨fun _ _ => Or.symm⟩
  have all : xs.Pairwise fun a b => [a, b].Sublist xs ∨ [b, a].Sublist xs :=
    List.pairwise_iff_forall_sublist.2 Or.inl
  exact all.forall left right ne

theorem not_pair_of_pair {α : Type} {xs : List α} (distinct : xs.Nodup) {a b : α}
    (pair : [a, b].Sublist xs) : ¬ [b, a].Sublist xs := by
  induction xs with
  | nil => cases pair
  | cons x xs ih =>
    obtain ⟨new, rest⟩ := List.nodup_cons.1 distinct
    intro flipped
    cases pair with
    | cons _ pair =>
      cases flipped with
      | cons _ flipped => exact ih rest pair flipped
      | cons_cons _ flipped => exact new (pair.subset (by simp))
    | cons_cons _ pair =>
      cases flipped with
      | cons _ flipped => exact new (flipped.subset (by simp))
      | cons_cons _ flipped => exact new (pair.subset (by simp))

theorem pairwise_descending (distinct : names.Nodup) (known : ∀ n, (key n).isNaN = false) :
    (descending key names).Pairwise fun m n =>
      key n < key m ∨ (key m == key n) = true ∧ [m, n].Sublist names := by
  have before (m n : String) : (!decide (key m < key n)) = true ↔
      (Extended.ofFloat (key n)).place ≤ (Extended.ofFloat (key m)).place := by
    rw [Bool.not_eq_true', decide_eq_false_iff_not, Binary64.lt_iff_place (known m) (known n),
      not_lt]
  have transitive (l m n : String) (lm : (!decide (key l < key m)) = true)
      (mn : (!decide (key m < key n)) = true) : (!decide (key l < key n)) = true :=
    (before l n).2 (((before m n).1 mn).trans ((before l m).1 lm))
  have linear (m n : String) : (!decide (key m < key n) || !decide (key n < key m)) = true := by
    rw [Bool.or_eq_true, before, before]
    exact le_total _ _
  have ordered := List.pairwise_mergeSort transitive linear names
  have perm := List.mergeSort_perm names fun m n => !decide (key m < key n)
  refine List.pairwise_iff_forall_sublist.2 fun {m n} pair => ?_
  have le := (before m n).1 (List.pairwise_iff_forall_sublist.1 ordered pair)
  rcases le.lt_or_eq with less | same
  · exact .inl ((Binary64.lt_iff_place (known n) (known m)).2 less)
  · refine .inr ⟨(Binary64.beq_iff_place (known m) (known n)).2 same.symm, ?_⟩
    have sorted : (descending key names).Nodup := perm.nodup_iff.2 distinct
    have ne : m ≠ n := fun same => List.nodup_iff_sublist.1 sorted m (same ▸ pair)
    have member {x : String} (h : x ∈ [m, n]) : x ∈ names := perm.mem_iff.1 (pair.subset h)
    refine (pair_or_pair (member (by simp)) (member (by simp)) ne).resolve_right fun flipped => ?_
    -- Had they been the other way round among the names, sorting would have left them so.
    have kept := List.pair_sublist_mergeSort transitive linear ((before n m).2 same.ge) flipped
    exact not_pair_of_pair sorted pair kept

end

/-! ## Reports -/

theorem total_nil : total [] = 0 := adds_iff_total.1 (.few (by decide))

/-- A text with blanks behind it up to a width. -/
def filled (width : Nat) (text : String) : List Char :=
  text.toList ++ List.replicate (width - text.length) ' '

theorem Summary.columns_eq (name total calls mean deviation : String) :
    columns name total calls mean deviation = .ofList (filled 40 name ++ ' ' :: (filled 12 total ++
      ' ' :: (filled 8 calls ++ ' ' :: (filled 10 mean ++ ' ' :: filled 10 deviation)))) := by
  rw [← String.toList_inj, columns, String.toList_intercalate]
  simp [padded, filled]

namespace TimingEvent

/-- The line of a name: the name itself, the total of its durations, how many these are, their mean
and their deviation, each filled up with blanks. -/
def lineOf (events : List TimingEvent) (name : String) : String :=
  let xs := durations events name
  .ofList (filled 40 name ++ ' ' :: (filled 12 (floatFixed 4 (total xs)) ++
    ' ' :: (filled 8 (toString xs.length) ++ ' ' :: (filled 10 (floatFixed 4 (mean xs)) ++
      ' ' :: filled 10 (floatFixed 4 (deviation xs))))))

/-- The names as a report has them: each one with durations, once, by their totals, the largest
first, and where totals are equal in the order in which they came up. -/
structure Ranks (events : List TimingEvent) (names : List String) : Prop where
  distinct : names.Nodup
  complete : ∀ name, name ∈ names ↔ durations events name ≠ []
  ordered : names.Pairwise fun m n =>
    total (durations events n) < total (durations events m) ∨
      (total (durations events m) == total (durations events n)) = true ∧
        [m, n].Sublist (created events)

variable {events : List TimingEvent}

theorem mem_measured {name : String} : name ∈ measured events ↔ durations events name ≠ [] := by
  rw [measured, List.mem_filter, decide_eq_true_iff]
  exact and_iff_right_of_imp mem_created_of_durations

theorem ranks_descending (known : ∀ name, (total (durations events name)).isNaN = false) :
    Ranks events (descending (fun name => total (durations events name)) (measured events)) := by
  have distinct : (measured events).Nodup := (Lookup.nodup_eraseDups _).filter _
  have perm : (descending (fun name => total (durations events name)) (measured events)).Perm
    (measured events) := List.mergeSort_perm _ _
  exact {
    distinct := perm.nodup_iff.2 distinct
    complete name := perm.mem_iff.trans mem_measured
    ordered := (pairwise_descending distinct known).imp fun either => either.imp_right fun tie =>
      ⟨tie.1, tie.2.trans List.filter_sublist⟩ }

end TimingEvent

namespace Timings

open TimingEvent

variable {events : List TimingEvent}

theorem ranked_after (known : ∀ name, (total (durations events name)).isNaN = false) :
    (after events).ranked =
      (descending (fun name => total (durations events name)) (measured events)).map
        fun name => .ofDurations name (durations events name) := by
  have numbers : (after events).summaries.any (·.total.isNaN) = false := by
    rw [summaries_after, List.any_map, List.any_eq_false]
    intro name _
    rw [Function.comp_apply, Summary.ofDurations, known name]
    exact Bool.false_ne_true
  rw [ranked, numbers, if_neg Bool.false_ne_true, summaries_after, descending]
  refine (List.map_mergeSort fun m _ n _ => ?_).symm
  rfl

/-- After any events the report has one line for each name with durations since the last reset, with
the number of these durations, by total, the largest first, and equal totals in the order in which
the names came up. A total is the sum of the durations, its additions being where they belong. -/
theorem report_after (known : ∀ name, durations events name ≠ [] →
      (total (durations events name)).isNaN = false) :
    (∀ name sum, Summation.Adds (durations events name) sum ↔
      total (durations events name) = sum) ∧
    ∃ names, Ranks events names ∧
      (after events).report = "\n".intercalate (Summary.heading :: names.map (lineOf events)) := by
  have numbers (name : String) : (total (durations events name)).isNaN = false := by
    by_cases empty : durations events name = []
    · rw [empty, total_nil]
      rfl
    · exact known name empty
  refine ⟨fun name sum => adds_iff_total, _, ranks_descending numbers, ?_⟩
  have lines (name : String) :
      (Summary.ofDurations name (durations events name)).line = lineOf events name :=
    Summary.columns_eq ..
  rw [report, ranked_after numbers, List.map_map]
  simp only [Function.comp_def, lines]

/-- Two names with the same total, the one that came up first with its durations behind the other
one's, and a name that comes up without a duration. -/
theorem report_after_tie :
    let events : List TimingEvent := [.record "render" 8, .reset, .touch "grow", .record "render" 2,
      .touch "compile", .record "grow" 1.5, .record "grow" 0.5]
    (∀ name, durations events name ≠ [] → (total (durations events name)).isNaN = false) ∧
      (∀ name sum, Summation.Adds (durations events name) sum ↔
        total (durations events name) = sum) ∧
      ∃ names, Ranks events names ∧ (after events).report =
        "\n".intercalate (Summary.heading :: names.map (lineOf events)) := by
  intro events
  have known (name : String) (filled : durations events name ≠ []) :
      (total (durations events name)).isNaN = false := by
    have present := mem_created_of_durations filled
    have names : created events = ["grow", "render", "compile"] := by decide
    rw [names] at present
    fin_cases present <;> decide +kernel
  exact ⟨known, report_after known⟩

end Timings

end ExpressionArt
