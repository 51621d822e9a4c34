import ExpressionArt.Events.Sink
import ExpressionArt.Proofs.Events.CsvLog

/-!
# Sinks that are open

What an event does to sinks that take it. Recorders and consoles take every event and a CSV log
takes events until it is closed, so open sinks all take an event, and stay open.
-/

namespace ExpressionArt

namespace Sink

def IsOpen : Sink → Prop
  | .csv log => log.closed = false
  | _ => True

/-- An open sink after an event. -/
def told (w : Surroundings) (e : Event) : Sink → Sink
  | .recorder entries => .recorder (entries ++ [.event e])
  | .csv log => .csv { log with rows := log.rows ++ log.rowsOf [(w.now, e)] }
  | .console log => .console log

/-- What a sink prints of an event. -/
def printed (w : Surroundings) (e : Event) : Sink → List Line
  | .console log => log.lines w.threshold e
  | _ => []

theorem take_eq_ok {s : Sink} (opened : s.IsOpen) (w : Surroundings) (e : Event) :
    s.take w e = .ok (s.told w e, s.printed w e) := by
  cases s with
  | recorder entries => rfl
  | csv log =>
    rw [take, CsvLog.log_eq_ok opened]
    rfl
  | console log => rfl

theorem IsOpen.told {s : Sink} (opened : s.IsOpen) (w : Surroundings) (e : Event) :
    (s.told w e).IsOpen := by
  cases s <;> exact opened

theorem open_told {w : Surroundings} {sinks : List Sink} (opened : ∀ s ∈ sinks, s.IsOpen)
    (e : Event) : ∀ s ∈ sinks.map (·.told w e), s.IsOpen :=
  List.forall_mem_map.2 fun s member => (opened s member).told w e

/-- Sinks after some events. -/
def toldAll (w : Surroundings) (events : List Event) (sinks : List Sink) : List Sink :=
  events.foldl (fun sinks e => sinks.map (·.told w e)) sinks

theorem open_toldAll {w : Surroundings} {sinks : List Sink} (opened : ∀ s ∈ sinks, s.IsOpen)
    (events : List Event) : ∀ s ∈ toldAll w events sinks, s.IsOpen := by
  induction events generalizing sinks with
  | nil => exact opened
  | cons e events ih => exact ih (open_told opened e)

theorem toldAll_recorder (w : Surroundings) (events : List Event) (entries : List Entry) :
    toldAll w events [.recorder entries] = [.recorder (entries ++ events.map .event)] := by
  induction events generalizing entries with
  | nil => simp [toldAll]
  | cons e events ih =>
    change toldAll w events [.recorder (entries ++ [.event e])] = _
    rw [ih]
    simp

end Sink

/-- Open sinks all take an event. -/
theorem deliver_eq (w : Surroundings) (e : Event) {sinks : List Sink}
    (opened : ∀ s ∈ sinks, s.IsOpen) :
    deliver w e sinks = ⟨sinks.map (·.told w e), sinks.flatMap (·.printed w e), none⟩ := by
  induction sinks with
  | nil => rfl
  | cons s sinks ih =>
    obtain ⟨first, rest⟩ := List.forall_mem_cons.1 opened
    rw [deliver, Sink.take_eq_ok first]
    simp [ih rest]

end ExpressionArt
