import ExpressionArt.Proofs.Lookup
import ExpressionArt.Timing.Timings
import Mathlib.Data.List.Nodup
import Mathlib.Data.List.Induction

/-!
# Timings name by name

Timings are a list of names, each with a list of durations. A duration that is added to a name goes
behind those that this name has and behind no other ones, and the name goes behind all names unless
it is among them.
-/

namespace ExpressionArt

/-- The names with one more, unless it is among them. -/
def withName (names : List String) (name : String) : List String :=
  if name ∈ names then names else names ++ [name]

theorem mem_withName (names : List String) (name : String) : name ∈ withName names name := by
  rw [withName]
  split
  · next old => exact old
  · simp

theorem eraseDups_concat (names : List String) (name : String) :
    (names ++ [name]).eraseDups = withName names.eraseDups name := by
  rw [List.eraseDups_append, withName]
  by_cases old : name ∈ names <;> simp [List.removeAll, List.eraseDups_cons, old]

theorem withName_append {names : List String} {name : String} (new : name ∉ names)
    (later : List String) : withName (names ++ later) name = names ++ withName later name := by
  rw [withName, withName]
  by_cases old : name ∈ later <;> simp [new, old]

/-- Names that come up one after the other stand in the order in which they first do so. -/
theorem foldl_withName (names new : List String) :
    new.foldl withName names = names ++ (new.filter (· ∉ names)).eraseDups := by
  induction new using List.reverseRecOn with
  | nil => simp
  | append_singleton new name ih =>
    rw [List.foldl_concat, ih, List.filter_append]
    by_cases old : name ∈ names
    · simp [withName, old]
    · rw [withName_append old, ← eraseDups_concat]
      simp [old]

namespace Timings

variable (t : Timings) (name : String) (duration : Float)

/-- The names that have come up, in order. -/
def names (t : Timings) : List String := t.map (·.1)

/-- The durations of a name, in order. -/
def durationsOf (t : Timings) (name : String) : List Float :=
  ((t.lookup name).map Array.toList).getD []

theorem any_iff : t.any (·.1 == name) ↔ name ∈ t.names := by
  simp [names]

theorem names_touch : (t.touch name).names = withName t.names name := by
  rw [touch, withName]
  simp only [any_iff]
  split
  · rfl
  · exact List.map_append

theorem durationsOf_touch (n : String) : (t.touch name).durationsOf n = t.durationsOf n := by
  rw [touch]
  split
  · rfl
  · next new =>
    rw [Lookup.any_iff_lookup, Option.not_isSome_iff_eq_none] at new
    rw [durationsOf, durationsOf, List.lookup_append, Lookup.lookup_cons]
    by_cases same : n = name
    · subst same
      simp [new]
    · simp [same]

theorem names_record : (t.record name duration).names = withName t.names name := by
  rw [← names_touch, record, names, names, List.map_map]
  refine List.map_congr_left fun e _ => ?_
  by_cases same : e.1 = name <;> simp [same]

theorem durationsOf_record (n : String) : (t.record name duration).durationsOf n =
    t.durationsOf n ++ if name = n then [duration] else [] := by
  have pushed : t.record name duration =
      (t.touch name).map fun e => if e.1 = name then (name, e.2.push duration) else e := by
    rw [record]
    refine List.map_congr_left fun e _ => ?_
    by_cases same : e.1 = name <;> simp [same]
  rw [pushed, ← durationsOf_touch t name, durationsOf, durationsOf,
    Lookup.lookup_modify (t.touch name) fun xs => xs.push duration]
  by_cases same : n = name
  · subst same
    have up : n ∈ (t.touch n).names := names_touch t n ▸ mem_withName t.names n
    rw [← any_iff, Lookup.any_iff_lookup] at up
    obtain ⟨xs, found⟩ := Option.isSome_iff_exists.1 up
    simp [found]
  · simp [same, Ne.symm same]

/-- Timings with some measurements more, one after the other. -/
def recordAll (t : Timings) (ms : List (String × Float)) : Timings :=
  ms.foldl (fun t (key, duration) => t.record key duration) t

theorem recordAll_append (ms ms' : List (String × Float)) :
    t.recordAll (ms ++ ms') = (t.recordAll ms).recordAll ms' := List.foldl_append

theorem names_recordAll (ms : List (String × Float)) : (t.recordAll ms).names =
    t.names ++ ((ms.map (·.1)).filter (· ∉ t.names)).eraseDups := by
  rw [← foldl_withName, List.foldl_map]
  induction ms generalizing t with
  | nil => rfl
  | cons m ms ih =>
    refine (ih (t.record m.1 m.2)).trans ?_
    rw [names_record]
    rfl

/-- Each name gets its own measurements, in order. -/
theorem durationsOf_recordAll (ms : List (String × Float)) : (t.recordAll ms).durationsOf name =
    t.durationsOf name ++ (ms.filter (·.1 = name)).map (·.2) := by
  induction ms generalizing t with
  | nil => exact (List.append_nil _).symm
  | cons m ms ih =>
    refine (ih (t.record m.1 m.2)).trans ?_
    rw [durationsOf_record, List.append_assoc]
    by_cases own : m.1 = name <;> simp [own]

variable {t}

/-- Timings are told by their names and durations. -/
theorem eq_map_names (distinct : t.names.Nodup) :
    t = t.names.map fun name => (name, (t.durationsOf name).toArray) := by
  rw [names, List.map_map]
  refine (List.map_id t).symm.trans (List.map_congr_left fun e member => ?_)
  have found : t.lookup e.1 = some e.2 := Lookup.lookup_eq_some member fun w again => by
    have same := List.inj_on_of_nodup_map distinct again member rfl
    exact congrArg Prod.snd same
  simp [durationsOf, found]

end Timings

end ExpressionArt
