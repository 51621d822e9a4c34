import ExpressionArt.Events.QueuedLog

/-!
# Shared logs

A queued log with several callers, each of which makes calls of its own one after the other. The
steps of all callers and of the writer come in an order that nothing fixes.
-/

namespace ExpressionArt

/-- Whose step comes next. -/
inductive Turn where
  | caller (position : Nat)
  | writer
deriving DecidableEq, Repr

structure SharedLog where
  callers : List Caller
  queued : QueuedLog

namespace SharedLog

/-- A fresh log, and the calls that each caller will make of it. -/
def start (path : String) (columns allowed : List String) (calls : List (List LogCall)) :
    SharedLog where
  callers := calls.map fun pending => { pending }
  queued := { log := .create path columns allowed }

def step (s : SharedLog) : Turn → SharedLog
  | .caller position =>
    match s.callers[position]? with
    | some c => ⟨s.callers.set position (c.step s.queued).1, (c.step s.queued).2⟩
    | none => s
  | .writer => { s with queued := s.queued.write }

/-- The log after some steps. -/
def after (s : SharedLog) (schedule : List Turn) : SharedLog := schedule.foldl step s

end SharedLog

end ExpressionArt
