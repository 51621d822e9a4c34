import ExpressionArt.Events.Csv
import ExpressionArt.Events.Event

/-!
# CSV logs

A log that writes one record per event to a file of its own, below a header. Events may be
filtered by type. Data outside the columns is dropped and columns without data stay empty. A
closed log refuses every event, and its file never changes again.
-/

namespace ExpressionArt

/-- The columns of a log of rendered pictures. -/
def renderColumns : List String :=
  ["timestamp", "event_type", "seed", "label", "width", "height", "depth", "node_count",
    "expression", "duration", "image_path"]

structure CsvLog where
  path : String
  columns : List String
  /-- The types of events that pass; every type does if there is none. -/
  allowed : List String
  rows : List (List String)
  closed : Bool

/-- An event came to a log that is closed. -/
structure ClosedLog where
  path : String
deriving DecidableEq, Repr

def ClosedLog.message (e : ClosedLog) : String := s!"CSVLogger for {e.path} is closed"

namespace CsvLog

/-- A fresh log. Without columns it has those of rendered pictures. -/
def create (path : String) (columns allowed : List String) : CsvLog :=
  ⟨path, if columns.isEmpty then renderColumns else columns, allowed, [], false⟩

def passes (log : CsvLog) (type : String) : Bool :=
  log.allowed.isEmpty || log.allowed.contains type

/-- What an event shows in a column: its data, else its stamp or type where the column asks. -/
def cell (now : Moment) (e : Event) (column : String) : String :=
  match e.data.lookup column with
  | some .absent => ""
  | some v => v.plain
  | none =>
    if column = "timestamp" then now.stamp
    else if column = "event_type" then e.type
    else ""

def row (log : CsvLog) (now : Moment) (e : Event) : List String := log.columns.map (cell now e)

def log (l : CsvLog) (now : Moment) (e : Event) : Except ClosedLog CsvLog :=
  if l.closed then .error ⟨l.path⟩
  else if l.passes e.type then .ok { l with rows := l.rows ++ [l.row now e] }
  else .ok l

def close (l : CsvLog) : CsvLog := { l with closed := true }

/-- The text of the file. -/
def text (l : CsvLog) : String := Csv.table (l.columns :: l.rows)

theorem close_close (l : CsvLog) : l.close.close = l.close := rfl

theorem log_close (l : CsvLog) (now : Moment) (e : Event) :
    l.close.log now e = .error ⟨l.path⟩ := rfl

end CsvLog

end ExpressionArt
