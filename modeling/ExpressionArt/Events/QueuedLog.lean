import ExpressionArt.Events.CsvLog

/-!
# Queued logs

How a CSV log works inside. Callers put the rows of their events into a queue, and a writer of the
log's own takes them out and adds them to the file. Caller and writer take their steps in turns that
nothing fixes. Closing a log waits until every queued row is done, then stops the writer.
-/

namespace ExpressionArt

namespace Fields

/-- Gives values to names, one after the other. -/
def update (fs : Fields) (pairs : List (String × Value)) : Fields :=
  pairs.foldl (fun fs (name, v) => fs.put name v) fs

/-- Gives a name a value unless it has one. -/
def setDefault (fs : Fields) (name : String) (v : Value) : Fields :=
  if fs.any (·.1 == name) then fs else fs.put name v

end Fields

/-- The text of a value in a record. -/
def Value.written : Value → String
  | .absent => ""
  | v => v.plain

namespace CsvLog

/-- The row of an event for the queue: its stamp and type with its data over them, of which only the
columns are kept, and nothing where a column has no value. -/
def entry (l : CsvLog) (now : Moment) (e : Event) : Fields :=
  let stamped : Fields := [("timestamp", .text now.stamp), ("event_type", .text e.type)]
  let kept := (stamped.update e.data).filter fun f => l.columns.contains f.1
  l.columns.foldl (fun fs column => fs.setDefault column .absent) kept

/-- The record of a queued row. A row with a name that is no column has none. -/
def record? (l : CsvLog) (row : Fields) : Option (List String) :=
  if row.all fun f => l.columns.contains f.1 then
    some (l.columns.map fun column => ((row.lookup column).getD .absent).written)
  else none

end CsvLog

/-- Where the writer of a log stands between two steps. -/
inductive WriterPlace where
  /-- Before it looks whether it has to stop. -/
  | stopTest
  /-- It has to stop; before it looks whether anything is queued. -/
  | queueTest
  /-- Before it takes a row from the queue. -/
  | taking
  | holding (row : Fields)
  /-- Before it marks the row in hand as done, which it may have failed to write. -/
  | marking (failed : Bool)
  | gone

structure QueuedLog where
  /-- The file, and whether the log is closed. -/
  log : CsvLog
  queue : List Fields := []
  /-- How many rows were queued and not yet marked as done. -/
  undone : Nat := 0
  stop : Bool := false
  writer : WriterPlace := .stopTest

/-- One step of the writer. If nothing is queued it gives up waiting. -/
def QueuedLog.write (q : QueuedLog) : QueuedLog :=
  match q.writer with
  | .stopTest => { q with writer := if q.stop then .queueTest else .taking }
  | .queueTest => { q with writer := if q.queue.isEmpty then .gone else .taking }
  | .taking =>
    match q.queue with
    | [] => { q with writer := .stopTest }
    | row :: queue => { q with queue, writer := .holding row }
  | .holding row =>
    match q.log.record? row with
    | some record =>
      { q with log := { q.log with rows := q.log.rows ++ [record] }, writer := .marking false }
    | none => { q with writer := .marking true }
  | .marking failed =>
    { q with undone := q.undone - 1, writer := if failed then .gone else .stopTest }
  | .gone => q

/-- What a caller asks of a log: to log an event at a moment, its data as named values, or to
close. -/
inductive LogCall where
  | log (now : Moment) (type : String) (pairs : List (String × Value))
  | close

/-- What a call comes to. -/
abbrev LogAnswer := Except ClosedLog Unit

/-- Where a caller stands between two steps. -/
inductive CallerPlace where
  | ready
  /-- It has found the log open; before it queues a row. -/
  | queueing (row : Fields)
  /-- It has closed the log; before every queued row is done. -/
  | draining
  /-- Every queued row is done; before it tells the writer to stop. -/
  | stopping
  /-- Before the writer is gone. -/
  | joining

structure Caller where
  /-- The calls that have returned, each with what it came to. -/
  returned : List (LogCall × LogAnswer) := []
  pending : List LogCall
  place : CallerPlace := .ready

namespace Caller

/-- Returns from the call under way. -/
def answer (c : Caller) (a : LogAnswer) : Caller where
  returned := c.returned ++ c.pending.head?.toList.map (·, a)
  pending := c.pending.tail

/-- Begins the next call, if there is one. Looking whether the log is closed is one step, and so is
closing it. -/
def begin (c : Caller) (q : QueuedLog) : Caller × QueuedLog :=
  match c.pending with
  | [] => (c, q)
  | .log now type pairs :: _ =>
    let e : Event := ⟨type, .ofPairs pairs⟩
    if q.log.closed then (c.answer (.error ⟨q.log.path⟩), q)
    else if q.log.passes type then ({ c with place := .queueing (q.log.entry now e) }, q)
    else (c.answer (.ok ()), q)
  | .close :: _ =>
    if q.log.closed then (c.answer (.ok ()), q)
    else ({ c with place := .draining }, { q with log := q.log.close })

/-- One step of a caller. Where it has to wait nothing changes. -/
def step (c : Caller) (q : QueuedLog) : Caller × QueuedLog :=
  match c.place with
  | .ready => c.begin q
  | .queueing row =>
    (c.answer (.ok ()), { q with queue := q.queue ++ [row], undone := q.undone + 1 })
  | .draining => if q.undone = 0 then ({ c with place := .stopping }, q) else (c, q)
  | .stopping => ({ c with place := .joining }, { q with stop := true })
  | .joining =>
    match q.writer with
    | .gone => (c.answer (.ok ()), q)
    | _ => (c, q)

end Caller

inductive Party where
  | caller
  | writer
deriving DecidableEq, Repr

/-- A log with its one caller. -/
structure LogRun where
  caller : Caller
  queued : QueuedLog

namespace LogRun

/-- A fresh log, and the calls that will be made of it. -/
def start (path : String) (columns allowed : List String) (calls : List LogCall) : LogRun where
  caller := { pending := calls }
  queued := { log := .create path columns allowed }

def step (r : LogRun) : Party → LogRun
  | .caller => ⟨(r.caller.step r.queued).1, (r.caller.step r.queued).2⟩
  | .writer => { r with queued := r.queued.write }

/-- The run after some steps, each by one of the parties. -/
def after (r : LogRun) (schedule : List Party) : LogRun := schedule.foldl step r

end LogRun

end ExpressionArt
