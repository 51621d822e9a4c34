import ExpressionArt.Events.QueuedLog
import ExpressionArt.Proofs.Events.CsvLog

/-!
# Calls served at once

What a log would do if each call of it took effect at once: it keeps the rows of the events before
the first closing and refuses every event behind it. These rows are told by the calls alone.
-/

namespace ExpressionArt

/-- What a cell shows of a value: nothing, a text as it stands, an integer by its digits. -/
def Value.inCell : Value → String
  | .absent => ""
  | .text s => s
  | .int n => toString n
  | v => v.plain

namespace LogCall

/-- What a column shows of an event: the value that its name is given last, else the moment or the
type of the event where the column asks for it. -/
def cell (now : Moment) (type : String) (pairs : List (String × Value)) (column : String) :
    String :=
  match pairs.reverse.lookup column with
  | some v => v.inCell
  | none =>
    if column = "timestamp" then now.stamp
    else if column = "event_type" then type
    else ""

/-- The rows that some calls ask for: one for each event before the first closing that is of an
allowed type. If no type is named, all are allowed. -/
def rows (columns allowed : List String) : List LogCall → List (List String)
  | .log now type pairs :: calls =>
    (if allowed = [] ∨ type ∈ allowed then [columns.map (cell now type pairs)] else []) ++
      rows columns allowed calls
  | _ => []

/-- The events that are logged before the first closing. -/
def early : List LogCall → List (Moment × Event)
  | .log now type pairs :: calls => (now, ⟨type, .ofPairs pairs⟩) :: early calls
  | _ => []

end LogCall

namespace CsvLog

variable {l : CsvLog} {calls before behind : List LogCall}

theorem cell_ofPairs (now : Moment) (type : String) (pairs : List (String × Value)) :
    cell now ⟨type, .ofPairs pairs⟩ = LogCall.cell now type pairs := by
  funext column
  rw [cell, LogCall.cell, Fields.lookup_ofPairs]
  cases pairs.reverse.lookup column with
  | none => rfl
  | some v => cases v <;> rfl

theorem passes_iff (type : String) : l.passes type ↔ l.allowed = [] ∨ type ∈ l.allowed := by
  simp [passes]

/-- The rows that a log keeps of some calls are those that they ask for. -/
theorem rowsOf_early (l : CsvLog) (calls : List LogCall) :
    l.rowsOf (LogCall.early calls) = LogCall.rows l.columns l.allowed calls := by
  induction calls with
  | nil => rfl
  | cons call calls ih =>
    cases call with
    | close => rfl
    | log now type pairs =>
      rw [LogCall.early, rowsOf_cons, ih, LogCall.rows, ← cell_ofPairs, rowsOf]
      by_cases allowed : l.allowed = [] ∨ type ∈ l.allowed
      · simp [passes_iff, allowed, row]
      · simp [passes_iff, allowed]

/-- A call served at once. -/
def serve (l : CsvLog) : LogCall → LogAnswer × CsvLog
  | .log now type pairs =>
    match l.log now ⟨type, .ofPairs pairs⟩ with
    | .ok l => (.ok (), l)
    | .error e => (.error e, l)
  | .close => (.ok (), l.close)

/-- The answers to some calls served at once. -/
def answers (l : CsvLog) : List LogCall → List LogAnswer
  | [] => []
  | call :: calls => (l.serve call).1 :: (l.serve call).2.answers calls

/-- The log after some calls served at once. -/
def served (l : CsvLog) (calls : List LogCall) : CsvLog :=
  calls.foldl (fun l call => (l.serve call).2) l

theorem answers_append : l.answers (before ++ behind) =
    l.answers before ++ (l.served before).answers behind := by
  induction before generalizing l with
  | nil => rfl
  | cons call before ih => exact congrArg _ ih

theorem length_answers : (l.answers calls).length = calls.length := by
  induction calls generalizing l with
  | nil => rfl
  | cons call calls ih => exact congrArg Nat.succ ih

theorem served_append : l.served (before ++ behind) = (l.served before).served behind :=
  List.foldl_append

theorem serve_log_of_closed (closed : l.closed = true) (now : Moment) (type : String)
    (pairs : List (String × Value)) :
    l.serve (.log now type pairs) = (.error ⟨l.path⟩, l) := by
  simp [serve, log, closed]

theorem serve_log_of_open (opened : l.closed = false) (now : Moment) (type : String)
    (pairs : List (String × Value)) : l.serve (.log now type pairs) =
      (.ok (), { l with rows := l.rows ++ l.rowsOf [(now, ⟨type, .ofPairs pairs⟩)] }) := by
  simp only [serve, log_eq_ok opened]

theorem serve_of_closed (closed : l.closed = true) (call : LogCall) : (l.serve call).2 = l := by
  cases call with
  | log now type pairs => rw [serve_log_of_closed closed]
  | close =>
    obtain ⟨path, columns, allowed, rows, flag⟩ := l
    obtain rfl : flag = true := closed
    rfl

/-- Only a closed log refuses, and only events. -/
theorem serve_answer (l : CsvLog) (call : LogCall) :
    ((l.serve call).1 = .error ⟨l.path⟩ ∧ call ≠ .close ∧ l.closed = true) ∨
    ((l.serve call).1 = .ok () ∧ (call = .close ∨ ¬ l.closed = true)) := by
  cases call with
  | close => exact .inr ⟨rfl, .inl rfl⟩
  | log now type pairs =>
    cases state : l.closed with
    | true =>
      rw [serve_log_of_closed state]
      exact .inl ⟨rfl, nofun, rfl⟩
    | false =>
      rw [serve_log_of_open state]
      exact .inr ⟨rfl, .inr nofun⟩

/-- Closing is for good. -/
theorem served_of_closed (closed : l.closed = true) (calls : List LogCall) :
    l.served calls = l := by
  induction calls with
  | nil => rfl
  | cons call calls ih =>
    change (l.serve call).2.served calls = l
    rw [serve_of_closed closed, ih]

/-- A log keeps the rows of the events that come before it is closed, and is closed by the first
call that asks for it. -/
theorem served_of_open (opened : l.closed = false) (calls : List LogCall) :
    (l.served calls).rows = l.rows ++ l.rowsOf (LogCall.early calls) ∧
    ((l.served calls).closed = true ↔ LogCall.close ∈ calls) := by
  induction calls generalizing l with
  | nil => simp [served, LogCall.early, rowsOf, opened]
  | cons call calls ih =>
    cases call with
    | log now type pairs =>
      let first : Moment × Event := (now, ⟨type, .ofPairs pairs⟩)
      let logged : CsvLog := { l with rows := l.rows ++ l.rowsOf [first] }
      have step : l.served (.log now type pairs :: calls) = logged.served calls :=
        congrArg (fun out => out.2.served calls) (serve_log_of_open opened now type pairs)
      obtain ⟨rows, closed⟩ := ih (l := logged) opened
      rw [step]
      refine ⟨rows.trans ?_, closed.trans (by simp)⟩
      rw [LogCall.early, rowsOf_cons first, ← List.append_assoc]
      rfl
    | close =>
      have stays : l.served (.close :: calls) = l.close := served_of_closed rfl calls
      rw [stays]
      simp [close, LogCall.early, rowsOf]

theorem served_same (calls : List LogCall) : (l.served calls).path = l.path ∧
    (l.served calls).columns = l.columns ∧ (l.served calls).allowed = l.allowed := by
  induction calls generalizing l with
  | nil => exact ⟨rfl, rfl, rfl⟩
  | cons call calls ih =>
    have same : (l.serve call).2.path = l.path ∧ (l.serve call).2.columns = l.columns ∧
        (l.serve call).2.allowed = l.allowed := by
      cases call with
      | close => exact ⟨rfl, rfl, rfl⟩
      | log now type pairs =>
        cases state : l.closed with
        | true => rw [serve_log_of_closed state]; exact ⟨rfl, rfl, rfl⟩
        | false => rw [serve_log_of_open state]; exact ⟨rfl, rfl, rfl⟩
    obtain ⟨path, columns, allowed⟩ := ih (l := (l.serve call).2)
    exact ⟨path.trans same.1, columns.trans same.2.1, allowed.trans same.2.2⟩

end CsvLog

end ExpressionArt
