import ExpressionArt.Events.Csv

/-!
# Written tables are read back

The reader gives back every table whose records have a field. The proof goes along the text: every
character of a field is taken in one step whatever follows it, a field ends at a place where a comma
or a line end closes it, and each record leaves the reader as it was before the first one.
-/

namespace ExpressionArt

namespace Csv

variable {place : Place} {c : Char} {f cs rest : List Char} {fs cells : List (List Char)}

/-- Nothing of a field has been read. -/
def Place.Starts (place : Place) : Prop := place = .recordStart ∨ place = .fieldStart

theorem Place.Starts.ne_quoted (h : place.Starts) : place ≠ .quoted := by
  obtain rfl | rfl := h <;> exact nofun

/-- A comma or a line end closes the field. -/
def Place.Closes (place : Place) : Prop := place ≠ .recordStart ∧ place ≠ .quoted

theorem isSpecial_eq_false_iff :
    isSpecial c = false ↔ c ≠ ',' ∧ c ≠ '"' ∧ c ≠ '\r' ∧ c ≠ '\n' := by
  simp [isSpecial, and_assoc]

/-! ## Single steps -/

theorem readFrom_lineEnd (h : place.Closes) :
    readFrom place f fs ('\r' :: '\n' :: rest) = (fs ++ [f]) :: readFrom .recordStart [] [] rest :=
  readFrom.eq_4 place f fs rest h.1 h.2

theorem readFrom_start_quote (h : place.Starts) :
    readFrom place f fs ('"' :: rest) = readFrom .quoted [] fs rest := by
  obtain rfl | rfl := h <;> simp [readFrom]

theorem readFrom_quoted_quote :
    readFrom .quoted f fs ('"' :: rest) = readFrom .afterQuote f fs rest := by
  simp [readFrom]

theorem readFrom_afterQuote_quote :
    readFrom .afterQuote f fs ('"' :: rest) = readFrom .quoted (f ++ ['"']) fs rest := by
  simp [readFrom]

theorem readFrom_start_cons (h : place.Starts) (hc : isSpecial c = false) :
    readFrom place f fs (c :: rest) = readFrom .plain [c] fs rest := by
  obtain ⟨comma, quote, cr, -⟩ := isSpecial_eq_false_iff.1 hc
  obtain rfl | rfl := h <;> simp [readFrom, comma, quote, cr]

theorem readFrom_plain_cons (hc : isSpecial c = false) :
    readFrom .plain f fs (c :: rest) = readFrom .plain (f ++ [c]) fs rest := by
  obtain ⟨comma, -, cr, -⟩ := isSpecial_eq_false_iff.1 hc
  simp [readFrom, comma, cr]

/-- Between quotes a line end is two characters like any others. -/
theorem readFrom_quoted_cons (hc : c ≠ '"') :
    readFrom .quoted f fs (c :: rest) = readFrom .quoted (f ++ [c]) fs rest := by
  by_cases lineEnd : ∃ later, c = '\r' ∧ rest = '\n' :: later
  · obtain ⟨later, rfl, rfl⟩ := lineEnd
    simp [readFrom]
  · rw [readFrom, if_neg hc]
    exact fun later cr lf => lineEnd ⟨later, cr, lf⟩

/-! ## Fields -/

theorem readFrom_plain_append (h : cs.any isSpecial = false) :
    readFrom .plain f fs (cs ++ rest) = readFrom .plain (f ++ cs) fs rest := by
  induction cs generalizing f with
  | nil => simp
  | cons c cs ih =>
    rw [List.any_cons, Bool.or_eq_false_iff] at h
    rw [List.cons_append, readFrom_plain_cons h.1, ih h.2, List.append_assoc, List.singleton_append]

theorem readFrom_quoted_doubled :
    readFrom .quoted f fs (doubled cs ++ '"' :: rest) = readFrom .afterQuote (f ++ cs) fs rest := by
  induction cs generalizing f with
  | nil => simp [doubled, readFrom_quoted_quote]
  | cons c cs ih =>
    by_cases quote : c = '"'
    · simp [doubled, quote, readFrom_quoted_quote, readFrom_afterQuote_quote, ih]
    · simp [doubled, quote, readFrom_quoted_cons, ih]

/-- A written field is read up to a place where it can be closed. At the start of a record an empty
field leaves nothing to see. -/
theorem readFrom_field (fs : List (List Char)) (starts : place.Starts)
    (visible : place = .recordStart → cs ≠ []) :
    ∃ last : Place, last.Closes ∧
      ∀ rest, readFrom place [] fs (field cs ++ rest) = readFrom last cs fs rest := by
  cases special : cs.any isSpecial with
  | true =>
    refine ⟨.afterQuote, ⟨nofun, nofun⟩, fun rest => ?_⟩
    rw [field, if_pos special, List.append_assoc, List.cons_append, readFrom_start_quote starts,
      List.singleton_append, readFrom_quoted_doubled, List.nil_append]
  | false =>
    have written : field cs = cs := by simp [field, special]
    cases cs with
    | nil =>
      obtain rfl | rfl := starts
      · exact absurd rfl (visible rfl)
      · exact ⟨.fieldStart, ⟨nofun, nofun⟩, fun rest => rfl⟩
    | cons c cs =>
      rw [List.any_cons, Bool.or_eq_false_iff] at special
      refine ⟨.plain, ⟨nofun, nofun⟩, fun rest => ?_⟩
      rw [written, List.cons_append, readFrom_start_cons starts special.1,
        readFrom_plain_append special.2, List.singleton_append]

theorem readFrom_field_comma (starts : place.Starts) :
    readFrom place [] fs (field cs ++ ',' :: rest) =
      readFrom .fieldStart [] (fs ++ [cs]) rest := by
  by_cases empty : cs = []
  · subst empty
    exact readFrom_comma starts.ne_quoted
  · obtain ⟨last, closes, read⟩ := readFrom_field fs starts fun _ => empty
    rw [read, readFrom_comma closes.2]

/-! ## Records -/

/-- A record starts like its later fields do, unless it is one empty field. -/
theorem readFrom_separated (starts : place.Starts)
    (visible : place = .recordStart → cs :: cells ≠ [[]]) :
    readFrom place [] fs (separated (cs :: cells) ++ '\r' :: '\n' :: rest) =
      (fs ++ cs :: cells) :: readFrom .recordStart [] [] rest := by
  induction cells generalizing place fs cs with
  | nil =>
    obtain ⟨last, closes, read⟩ :=
      readFrom_field fs starts fun first => by simpa using visible first
    rw [separated, read, readFrom_lineEnd closes]
  | cons next cells ih =>
    rw [separated, List.append_assoc, List.cons_append, readFrom_field_comma starts,
      ih (.inr rfl) nofun, List.append_assoc, List.singleton_append]
    exact nofun

/-- Before and after a record nothing is left of any other. -/
theorem readFrom_recordChars (any : cells ≠ []) :
    readFrom .recordStart [] [] (recordChars cells ++ rest) =
      cells :: readFrom .recordStart [] [] rest := by
  by_cases blank : cells = [[]]
  · subst blank
    rw [recordChars, List.cons_append, readFrom_start_quote (.inl rfl), List.cons_append,
      readFrom_quoted_quote]
    exact readFrom_lineEnd ⟨nofun, nofun⟩
  · obtain ⟨cs, cells, rfl⟩ := List.exists_cons_of_ne_nil any
    rw [recordChars, List.append_assoc]
    · exact readFrom_separated (.inl rfl) fun _ => blank
    · exact blank

theorem readFrom_tableChars {rows : List (List (List Char))} (any : ∀ cells ∈ rows, cells ≠ []) :
    readFrom .recordStart [] [] (tableChars rows) = rows := by
  induction rows with
  | nil => rfl
  | cons cells rows ih =>
    rw [List.forall_mem_cons] at any
    rw [tableChars, List.flatMap_cons, readFrom_recordChars any.1]
    exact congrArg _ (ih any.2)

/-- Reading undoes writing, whatever characters the fields hold. -/
theorem read_table {rows : List (List String)} (any : ∀ fields ∈ rows, fields ≠ []) :
    read (table rows) = rows := by
  have chars : ∀ cells ∈ rows.map fun fields => fields.map String.toList, cells ≠ [] := by
    intro cells member
    obtain ⟨fields, h, rfl⟩ := List.mem_map.1 member
    exact fun none => any fields h (List.map_eq_nil_iff.1 none)
  rw [read, table, String.toList_ofList, readFrom_tableChars chars, List.map_map]
  simp [Function.comp_def]

end Csv

end ExpressionArt
