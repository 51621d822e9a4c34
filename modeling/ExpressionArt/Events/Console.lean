import ExpressionArt.Events.Event

/-!
# Console logs

A log that prints one line per event, and the expression of an event on a line of its own at
the debug level. Lines below a threshold are not shown.
-/

namespace ExpressionArt

/-- Importance of a line. -/
abbrev Level := Int

namespace Level

def debug : Level := 10

def info : Level := 20

/-- The levels that have names. -/
def names : List (Level × String) :=
  [(10, "DEBUG"), (20, "INFO"), (30, "WARNING"), (40, "ERROR"), (50, "CRITICAL")]

def name (l : Level) : String := (names.lookup l).getD s!"Level {l}"

/-- Whether a line of this level is shown. -/
def shows (l threshold : Level) : Bool := 0 < l && threshold ≤ l

end Level

structure Line where
  logger : String
  level : Level
  message : String
deriving DecidableEq, Repr

structure ConsoleLog where
  name : String := "genart.events"
  level : Level := .info
deriving DecidableEq, Repr

namespace ConsoleLog

/-- The data of an event on one line, its expression left out. -/
def details (e : Event) : String :=
  " ".intercalate ((e.data.filter (·.1 ≠ "expression")).map fun (k, v) => k ++ "=" ++ v.plain)

/-- The name that lines carry. Without a name it is that of the root of all logs. -/
def shownName (log : ConsoleLog) : String := if log.name.isEmpty then "root" else log.name

/-- The lines of an event, whatever their level. -/
def allLines (log : ConsoleLog) (e : Event) : List Line :=
  ⟨log.shownName, log.level, s!"[{e.type}] {details e}"⟩ ::
    (e.data.lookup "expression").toList.map fun v =>
      ⟨log.shownName, .debug, s!"[{e.type}] expression={v.plain}"⟩

/-- The lines of an event that a threshold lets through. -/
def lines (log : ConsoleLog) (threshold : Level) (e : Event) : List Line :=
  (log.allLines e).filter fun l => Level.shows l.level threshold

end ConsoleLog

end ExpressionArt
