import ExpressionArt.Events.QueuedLog
import ExpressionArt.Proofs.Events.CsvLog

/-!
# Rows on their way to the file

A row that a caller queues has no name that is no column, so the writer never refuses it, and the
record that the writer makes of it is the row of the event: its data over its stamp and type.
-/

namespace ExpressionArt

namespace Fields

variable {c name : String} {pairs : List (String × Value)}

/-- The names of some fields. -/
def names (fs : Fields) : List String := fs.map (·.1)

theorem mem_names_iff (fs : Fields) : name ∈ fs.names ↔ (List.lookup name fs).isSome := by
  rw [← Lookup.any_iff_lookup]
  simp [names]

theorem names_put (fs : Fields) (v : Value) :
    (fs.put name v).names = if name ∈ fs.names then fs.names else fs.names ++ [name] := by
  have present : fs.any (·.1 == name) ↔ name ∈ fs.names := by
    rw [mem_names_iff, Lookup.any_iff_lookup]
  rw [put]
  simp only [present]
  split
  · rw [names, List.map_map]
    refine List.map_congr_left fun f _ => ?_
    by_cases h : f.1 = name <;> simp [h]
  · simp [names]

theorem nodup_names_put {fs : Fields} (distinct : fs.names.Nodup) (v : Value) :
    (fs.put name v).names.Nodup := by
  rw [names_put]
  split
  · exact distinct
  · next fresh => exact List.nodup_append.2 ⟨distinct, by simp, by grind⟩

theorem nodup_names_ofPairs (pairs : List (String × Value)) : (ofPairs pairs).names.Nodup := by
  have kept (fs : Fields) (distinct : fs.names.Nodup) : (fs.update pairs).names.Nodup := by
    induction pairs generalizing fs with
    | nil => exact distinct
    | cons p pairs ih => exact ih _ (nodup_names_put distinct p.2)
  exact kept [] List.nodup_nil

/-- The values given stand over those that were there. -/
theorem lookup_update (fs : Fields) {data : Fields} (distinct : data.names.Nodup) :
    List.lookup c (fs.update data) = (List.lookup c data).or (List.lookup c fs) := by
  induction data generalizing fs with
  | nil => rfl
  | cons p data ih =>
    obtain ⟨name, v⟩ := p
    obtain ⟨fresh, distinct⟩ := List.nodup_cons.1 distinct
    have none : List.lookup name data = none := by
      rw [← Option.not_isSome_iff_eq_none, ← mem_names_iff]
      exact fresh
    change List.lookup c ((fs.put name v).update data) = _
    rw [ih _ distinct, lookup_put, Lookup.lookup_cons]
    by_cases h : c = name
    · simp [h, none]
    · simp [h]

theorem lookup_setDefault (fs : Fields) (v : Value) :
    List.lookup c (fs.setDefault name v) =
      (List.lookup c fs).or (if c = name then some v else none) := by
  rw [setDefault]
  split
  · next present =>
    rw [Lookup.any_iff_lookup] at present
    by_cases h : c = name
    · subst h
      rw [Option.or_of_isSome present]
    · simp [h]
  · next absent =>
    rw [Lookup.any_iff_lookup, Option.not_isSome_iff_eq_none] at absent
    rw [lookup_put]
    by_cases h : c = name
    · simp [h, absent]
    · simp [h]

theorem lookup_setDefaults (fs : Fields) (v : Value) (columns : List String) :
    List.lookup c (columns.foldl (fun (fs : Fields) column => fs.setDefault column v) fs) =
      (List.lookup c fs).or (if c ∈ columns then some v else none) := by
  induction columns generalizing fs with
  | nil => simp
  | cons column columns ih =>
    rw [List.foldl_cons, ih, lookup_setDefault]
    by_cases h : c = column <;> grind

end Fields

namespace CsvLog

variable {l : CsvLog} {now : Moment} {e : Event} {c : String} {row : Fields}

theorem record?_isSome_iff : (l.record? row).isSome ↔ ∀ name ∈ row.names, name ∈ l.columns := by
  rw [record?]
  split
  · next columns => simpa [Fields.names] using columns
  · next other => simpa [Fields.names] using other

theorem mem_columns_of_entry (h : c ∈ (l.entry now e).names) : c ∈ l.columns := by
  rw [Fields.mem_names_iff, entry, Fields.lookup_setDefaults, Option.isSome_or, Bool.or_eq_true,
    ← Fields.mem_names_iff] at h
  obtain kept | missing := h
  · obtain ⟨f, member, rfl⟩ := List.mem_map.1 kept
    simpa using (List.mem_filter.1 member).2
  · exact (Option.isSome_ite.1 missing)

/-- In a row for the queue the data of the event stands over its stamp and type. -/
theorem written_entry (distinct : e.data.names.Nodup) (h : c ∈ l.columns) :
    ((List.lookup c (l.entry now e)).getD .absent).written = cell now e c := by
  rw [entry, Fields.lookup_setDefaults, if_pos h, cell,
    Lookup.lookup_filter l.columns.contains (by simpa using h),
    Fields.lookup_update _ distinct, Lookup.lookup_cons, Lookup.lookup_cons]
  cases List.lookup c e.data with
  | some v => cases v <;> rfl
  | none =>
    by_cases stamp : c = "timestamp"
    · simp [stamp, Value.written, Value.plain]
    · by_cases type : c = "event_type" <;> simp [stamp, type, Value.written, Value.plain]

/-- The writer makes of a queued row the row of its event. -/
theorem record?_entry (distinct : e.data.names.Nodup) :
    l.record? (l.entry now e) = some (l.row now e) := by
  have columns : (l.entry now e).all fun f => l.columns.contains f.1 := by
    rw [List.all_eq_true]
    intro f member
    simpa using mem_columns_of_entry (List.mem_map_of_mem member)
  rw [record?, if_pos columns, row]
  exact congrArg some (List.map_congr_left fun c h => written_entry distinct h)

end CsvLog

end ExpressionArt
