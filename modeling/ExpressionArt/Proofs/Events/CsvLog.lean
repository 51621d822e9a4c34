import ExpressionArt.Events.CsvLog
import ExpressionArt.Proofs.Events.Csv
import ExpressionArt.Proofs.Lookup
import Mathlib.Data.List.Induction

/-!
# The file of a CSV log

What a log writes is read back as its columns and, in order, a record for each event that passes.
The cells of a row may hold any text or nothing at all, and nothing is read back as the empty text.
-/

namespace ExpressionArt

/-- What a caller hands in for a cell, which holds a text or nothing. -/
def Value.ofCell : Option String → Value
  | none => .absent
  | some s => .text s

namespace Fields

variable {columns : List String} {name c : String}

/-- A name has the value given to it last. -/
theorem lookup_put (fs : Fields) (v : Value) :
    List.lookup c (fs.put name v) = if c = name then some v else List.lookup c fs :=
  Lookup.lookup_put fs v

/-- Of the values that are given to a name the last one counts. -/
theorem lookup_ofPairs (pairs : List (String × Value)) :
    List.lookup c (ofPairs pairs) = pairs.reverse.lookup c := by
  induction pairs using List.reverseRecOn with
  | nil => rfl
  | append_singleton pairs p ih =>
    have last : ofPairs (pairs ++ [p]) = (ofPairs pairs).put p.1 p.2 := List.foldl_append
    rw [last, lookup_put, ih, List.reverse_concat, Lookup.lookup_cons]

/-- The data that gives each column its cell. -/
def ofCells (columns : List String) (cells : String → Option String) : Fields :=
  ofPairs (columns.map fun c => (c, .ofCell (cells c)))

theorem lookup_ofCells (cells : String → Option String) (h : c ∈ columns) :
    List.lookup c (ofCells columns cells) = some (.ofCell (cells c)) := by
  rw [ofCells, lookup_ofPairs]
  refine Lookup.lookup_eq_some ?_ fun w given => ?_
  · exact List.mem_reverse.2 (List.mem_map_of_mem h)
  · obtain ⟨d, -, same⟩ := List.mem_map.1 (List.mem_reverse.1 given)
    obtain ⟨rfl, rfl⟩ := Prod.mk.inj same
    rfl

end Fields

/-- A row to be written: when and as which type of event it is logged, and the cell of each
column. -/
structure TableRow where
  now : Moment
  type : String
  cells : String → Option String

/-- The event that logs a row. -/
def TableRow.event (columns : List String) (r : TableRow) : Moment × Event :=
  (r.now, ⟨r.type, .ofCells columns r.cells⟩)

namespace CsvLog

variable {l : CsvLog} {columns allowed : List String}

/-- The log after some events, each at its moment. -/
def logAll (l : CsvLog) : List (Moment × Event) → Except ClosedLog CsvLog
  | [] => .ok l
  | (now, e) :: events => do (← l.log now e).logAll events

/-- The rows that a log keeps of some events: one for each event that passes. -/
def rowsOf (l : CsvLog) (events : List (Moment × Event)) : List (List String) :=
  (events.filter fun (_, e) => l.passes e.type).map fun (now, e) => l.row now e

theorem rowsOf_cons (event : Moment × Event) (events : List (Moment × Event)) :
    l.rowsOf (event :: events) = l.rowsOf [event] ++ l.rowsOf events := by
  simp [rowsOf, ← List.map_append, ← List.filter_append]

theorem log_eq_ok (opened : l.closed = false) (now : Moment) (e : Event) :
    l.log now e = .ok { l with rows := l.rows ++ l.rowsOf [(now, e)] } := by
  rw [log, if_neg (by simp [opened])]
  cases passes : l.passes e.type <;> simp [rowsOf, passes]

/-- An open log takes every event. -/
theorem logAll_eq_ok (opened : l.closed = false) (events : List (Moment × Event)) :
    l.logAll events = .ok { l with rows := l.rows ++ l.rowsOf events } := by
  induction events generalizing l with
  | nil => simp [logAll, rowsOf]
  | cons event events ih =>
    obtain ⟨now, e⟩ := event
    rw [logAll, log_eq_ok opened, rowsOf_cons (now, e) events, ← List.append_assoc]
    exact ih opened

theorem columns_create (path : String) (columns allowed : List String) :
    (create path columns allowed).columns = if columns = [] then renderColumns else columns := by
  simp [create]

theorem columns_create_ne_nil (path : String) (columns allowed : List String) :
    (create path columns allowed).columns ≠ [] := by
  rw [columns_create]
  split
  · simp [renderColumns]
  · next any => exact any

theorem row_create (path : String) (any : columns ≠ []) (allowed : List String) (now : Moment)
    (e : Event) : (create path columns allowed).row now e = columns.map (cell now e) := by
  rw [row, columns_create, if_neg any]

theorem ne_nil_of_mem_rowsOf (any : l.columns ≠ []) {events : List (Moment × Event)}
    {row : List String} (member : row ∈ l.rowsOf events) : row ≠ [] := by
  obtain ⟨⟨now, e⟩, -, rfl⟩ := List.mem_map.1 member
  simpa [CsvLog.row] using any

/-- A file with the columns of a fresh log and rows of events is read back as these. -/
theorem read_text {path : String} (same : l.columns = (create path columns allowed).columns)
    (kept : ∀ row ∈ l.rows, ∃ events, row ∈ (create path columns allowed).rowsOf events) :
    Csv.read l.text = (create path columns allowed).columns :: l.rows := by
  have any := columns_create_ne_nil path columns allowed
  rw [← same]
  refine Csv.read_table (List.forall_mem_cons.2 ⟨same ▸ any, fun row member => ?_⟩)
  obtain ⟨events, passed⟩ := kept row member
  exact ne_nil_of_mem_rowsOf any passed

/-- A file is read back as the columns and the rows of the events that pass. -/
theorem read_text_logAll (path : String) (any : columns ≠ []) (allowed : List String)
    (events : List (Moment × Event)) :
    ∃ l, (create path columns allowed).logAll events = .ok l ∧
      Csv.read l.text = columns :: (create path columns allowed).rowsOf events := by
  let fresh := create path columns allowed
  let written : CsvLog := { fresh with rows := fresh.rowsOf events }
  have read : Csv.read written.text = fresh.columns :: written.rows :=
    read_text rfl fun row member => ⟨events, member⟩
  have own : fresh.columns = columns := by rw [columns_create, if_neg any]
  refine ⟨written, logAll_eq_ok rfl events, ?_⟩
  rw [read, own]

theorem cell_event (r : TableRow) {c : String} (h : c ∈ columns) :
    cell r.now (r.event columns).2 c = (r.cells c).getD "" := by
  rw [cell, TableRow.event, Fields.lookup_ofCells r.cells h]
  cases r.cells c <;> rfl

/-- Whatever texts the cells of some rows hold, and where they hold nothing, the file that a log
leaves is read back as its columns and the rows in order. -/
theorem read_text_rows (path : String) (any : columns ≠ []) {rows : List TableRow}
    (pass : ∀ r ∈ rows, allowed = [] ∨ r.type ∈ allowed) :
    ∃ l, (create path columns allowed).logAll (rows.map (·.event columns)) = .ok l ∧
      Csv.read l.close.text =
        columns :: rows.map fun r => columns.map fun c => (r.cells c).getD "" := by
  obtain ⟨l, logged, read⟩ :=
    read_text_logAll path any allowed (rows.map (·.event columns))
  refine ⟨l, logged, read.trans ?_⟩
  have all : (rows.map (·.event columns)).filter
      (fun (_, e) => (create path columns allowed).passes e.type) =
        rows.map (·.event columns) := by
    rw [List.filter_eq_self]
    rintro _ member
    obtain ⟨r, h, rfl⟩ := List.mem_map.1 member
    simpa [TableRow.event, passes, create] using pass r h
  rw [rowsOf, all, List.map_map]
  congr 1
  refine List.map_congr_left fun r _ => ?_
  exact (row_create path any allowed _ _).trans (List.map_congr_left fun c h => cell_event r h)

/-- Rows of one column: no cell, a line end, and quotes with a comma between them. -/
theorem read_text_one_column :
    let rows := [none, some "\r\n", some "\",\""].map fun cell =>
      (⟨⟨2024, 1, 2, 3, 4, 5, 0⟩, "render", fun _ => cell⟩ : TableRow)
    (["label"] ≠ ([] : List String) ∧ ∀ r ∈ rows, ["render"] = [] ∨ r.type ∈ ["render"]) ∧
    ∃ l, (create "log.csv" ["label"] ["render"]).logAll (rows.map (·.event ["label"])) = .ok l ∧
      Csv.read l.close.text = [["label"], [""], ["\r\n"], ["\",\""]] := by
  intro rows
  have any : ["label"] ≠ ([] : List String) := by simp
  have pass : ∀ r ∈ rows, ["render"] = [] ∨ r.type ∈ ["render"] := by simp [rows]
  exact ⟨⟨any, pass⟩, read_text_rows "log.csv" any pass⟩

end CsvLog

end ExpressionArt
