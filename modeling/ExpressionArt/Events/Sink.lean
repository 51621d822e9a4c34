import ExpressionArt.Events.Console
import ExpressionArt.Events.CsvLog

/-!
# Sinks

Where events go: a recorder keeps them, a CSV log writes them, a console prints them. Several
sinks are served in order; the first one that refuses an event ends the delivery, and those
behind it never see it.
-/

namespace ExpressionArt

/-- What a recorder keeps. -/
inductive Entry where
  | event (e : Event)
  | closed

inductive Sink where
  | recorder (entries : List Entry)
  | csv (log : CsvLog)
  | console (log : ConsoleLog)

/-- What the world adds to an event: the moment, and the threshold of the console. -/
structure Surroundings where
  now : Moment
  threshold : Level

namespace Sink

/-- A sink after an event, with the lines it prints. -/
def take (w : Surroundings) (e : Event) : Sink → Except ClosedLog (Sink × List Line)
  | .recorder entries => .ok (.recorder (entries ++ [.event e]), [])
  | .csv log => (log.log w.now e).map fun log => (.csv log, [])
  | .console log => .ok (.console log, log.lines w.threshold e)

def close : Sink → Sink
  | .recorder entries => .recorder (entries ++ [.closed])
  | .csv log => .csv log.close
  | .console log => .console log

end Sink

/-- The outcome of sending an event to several sinks. -/
structure Delivery where
  sinks : List Sink
  lines : List Line
  failure : Option ClosedLog

/-- Sends an event to sinks in order, up to the first that refuses it. -/
def deliver (w : Surroundings) (e : Event) : List Sink → Delivery
  | [] => ⟨[], [], none⟩
  | s :: ss =>
    match s.take w e with
    | .error failure => ⟨s :: ss, [], some failure⟩
    | .ok (s, lines) =>
      let rest := deliver w e ss
      ⟨s :: rest.sinks, lines ++ rest.lines, rest.failure⟩

/-- Closes all sinks. -/
def closeAll (ss : List Sink) : List Sink := ss.map Sink.close

theorem length_deliver (w : Surroundings) (e : Event) (ss : List Sink) :
    (deliver w e ss).sinks.length = ss.length := by
  induction ss with
  | nil => rfl
  | cons s ss ih =>
    rw [deliver]
    split <;> simp [ih]

end ExpressionArt
