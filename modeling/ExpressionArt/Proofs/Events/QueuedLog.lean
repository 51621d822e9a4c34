import ExpressionArt.Proofs.Events.Rows
import ExpressionArt.Proofs.Events.Serving

/-!
# Queued logs lose no row

A log with a writer of its own answers like one that serves each call at once, however the steps of
caller and writer alternate. What carries this is an invariant of the steps: the file, the row in
the writer's hand and the queue together are the file of the log that serves at once.
-/

namespace ExpressionArt

/-- The row in the writer's hand, as long as it is not written. -/
def WriterPlace.hand : WriterPlace → List Fields
  | .holding row => [row]
  | _ => []

/-- How many rows the writer has taken and not marked as done. -/
def WriterPlace.load : WriterPlace → Nat
  | .holding _ | .marking _ => 1
  | _ => 0

namespace QueuedLog

variable {q : QueuedLog} {l : CsvLog}

/-- The rows on their way to the file. -/
def waiting (q : QueuedLog) : List Fields := q.writer.hand ++ q.queue

/-- A queued log carries the rows of a log that serves at once: those in its file and, behind them,
the records of the rows that wait. The writer is told to stop only when nothing is left to do. -/
structure Carries (q : QueuedLog) (l : CsvLog) : Prop where
  same : q.log.path = l.path ∧ q.log.columns = l.columns ∧ q.log.allowed = l.allowed
  proper : ∀ row ∈ q.waiting, (q.log.record? row).isSome
  rows : l.rows = q.log.rows ++ q.waiting.filterMap q.log.record?
  undone : q.undone = q.queue.length + q.writer.load
  succeeds : q.writer ≠ .marking true
  idle : q.stop = true → q.undone = 0
  told : q.writer = .queueTest ∨ q.writer = .gone → q.stop = true

/-- What the writer leaves alone. -/
theorem write_frame (q : QueuedLog) : q.write.stop = q.stop ∧ q.write.log.closed = q.log.closed ∧
    q.write.log.path = q.log.path ∧ (q.undone = 0 → q.write.undone = 0) := by
  obtain ⟨log, queue, undone, stop, writer⟩ := q
  cases writer with
  | taking => cases queue <;> exact ⟨rfl, rfl, rfl, id⟩
  | holding row =>
    cases made : log.record? row <;> simp [write, made]
  | marking failed => exact ⟨rfl, rfl, rfl, fun none => congrArg (· - 1) none⟩
  | stopTest => exact ⟨rfl, rfl, rfl, id⟩
  | queueTest => exact ⟨rfl, rfl, rfl, id⟩
  | gone => exact ⟨rfl, rfl, rfl, id⟩

theorem write_of_gone (gone : q.writer = .gone) : q.write = q := by
  simp only [write, gone]

theorem Carries.passes (h : q.Carries l) : q.log.passes = l.passes := by
  funext type
  rw [CsvLog.passes, CsvLog.passes, h.same.2.2]

theorem Carries.entry (h : q.Carries l) : q.log.entry = l.entry := by
  funext now e
  rw [CsvLog.entry, CsvLog.entry, h.same.2.1]

theorem Carries.write (h : q.Carries l) : q.write.Carries l := by
  obtain ⟨log, queue, undone, stop, writer⟩ := q
  obtain ⟨same, proper, rows, count, succeeds, idle, told⟩ := h
  cases writer with
  | stopTest =>
    cases stop with
    | false => exact ⟨same, proper, rows, count, nofun, idle, nofun⟩
    | true => exact ⟨same, proper, rows, count, nofun, idle, fun _ => rfl⟩
  | queueTest =>
    -- a writer that was told to stop finds the queue empty
    have drained : queue = [] := by
      have none := idle (told (.inl rfl))
      exact List.eq_nil_of_length_eq_zero (Nat.eq_zero_of_add_eq_zero_right (count.symm.trans none))
    subst drained
    exact ⟨same, proper, rows, count, nofun, idle, fun _ => told (.inl rfl)⟩
  | taking =>
    cases queue with
    | nil => exact ⟨same, proper, rows, count, nofun, idle, nofun⟩
    | cons row queue => exact ⟨same, proper, rows, count, nofun, idle, nofun⟩
  | holding row =>
    obtain ⟨record, made⟩ :=
      Option.isSome_iff_exists.1 (proper row (by simp [waiting, WriterPlace.hand]))
    have written : QueuedLog.write ⟨log, queue, undone, stop, .holding row⟩ =
        ⟨{ log with rows := log.rows ++ [record] }, queue, undone, stop, .marking false⟩ := by
      simp only [QueuedLog.write, made]
    rw [written]
    refine ⟨same, fun r later => proper r (List.mem_cons_of_mem _ later), ?_, count, nofun, idle,
      nofun⟩
    rw [rows]
    simp [waiting, WriterPlace.hand, made]
    rfl
  | marking failed =>
    cases failed with
    | true => exact absurd rfl succeeds
    | false =>
      have fewer : undone - 1 = queue.length := by simp [WriterPlace.load] at count; omega
      exact ⟨same, proper, rows, fewer, nofun, fun told => congrArg (· - 1) (idle told), nofun⟩
  | gone => exact ⟨same, proper, rows, count, succeeds, idle, told⟩

/-- Queueing the row of an event that passes is logging it. -/
theorem Carries.queue (h : q.Carries l) (opened : l.closed = false) (running : q.stop = false)
    {type : String} (passes : l.passes type = true) (now : Moment)
    (pairs : List (String × Value)) : Carries { q with
      queue := q.queue ++ [l.entry now ⟨type, .ofPairs pairs⟩], undone := q.undone + 1 }
      (l.serve (.log now type pairs)).2 := by
  obtain ⟨same, proper, rows, count, succeeds, idle, told⟩ := h
  have record : q.log.record? (l.entry now ⟨type, .ofPairs pairs⟩) =
      some (l.row now ⟨type, .ofPairs pairs⟩) := by
    have columns : q.log.record? = l.record? := by
      funext row
      rw [CsvLog.record?, CsvLog.record?, same.2.1]
    rw [columns]
    exact CsvLog.record?_entry (Fields.nodup_names_ofPairs pairs)
  rw [CsvLog.serve_log_of_open opened]
  refine ⟨same, ?_, ?_, ?_, succeeds, ?_, told⟩
  · intro row member
    rw [waiting, ← List.append_assoc, List.mem_append, List.mem_singleton] at member
    obtain earlier | rfl := member
    · exact proper row earlier
    · exact Option.isSome_of_eq_some record
  · have passed :
        l.rowsOf [(now, ⟨type, .ofPairs pairs⟩)] = [l.row now ⟨type, .ofPairs pairs⟩] := by
      simp [CsvLog.rowsOf, passes]
    change l.rows ++ l.rowsOf [_] = q.log.rows ++ List.filterMap q.log.record?
      (q.writer.hand ++ (q.queue ++ [_]))
    rw [passed, ← List.append_assoc q.writer.hand, List.filterMap_append, rows, List.append_assoc]
    simp [waiting, record]
  · simp [count, Nat.add_right_comm]
  · intro stopped
    cases running.symm.trans stopped

theorem Carries.close (h : q.Carries l) : Carries { q with log := q.log.close } l :=
  ⟨h.same, h.proper, h.rows, h.undone, h.succeeds, h.idle, h.told⟩

theorem Carries.close_serving (h : q.Carries l) : q.Carries l.close :=
  ⟨h.same, h.proper, h.rows, h.undone, h.succeeds, h.idle, h.told⟩

/-- The writer may be told to stop once every row is done. -/
theorem Carries.tell (h : q.Carries l) (drained : q.undone = 0) :
    Carries { q with stop := true } l :=
  ⟨h.same, h.proper, h.rows, h.undone, h.succeeds, fun _ => drained, fun _ => rfl⟩

end QueuedLog

/-! ## Callers -/

namespace Caller

/-- Where a caller stands, with a log that so far served its calls as `l` would: the calls under
way, and how far closing has come. Between two calls the log is open with the writer at work, or
else closed with the writer gone. -/
def Stands (c : Caller) (q : QueuedLog) (l : CsvLog) : Prop :=
  match c.place with
  | .ready => q.log.closed = l.closed ∧ q.stop = l.closed ∧ (l.closed = true → q.writer = .gone)
  | .queueing row => l.closed = false ∧ q.log.closed = false ∧ q.stop = false ∧
    ∃ now type pairs later, c.pending = .log now type pairs :: later ∧ l.passes type = true ∧
      row = l.entry now ⟨type, .ofPairs pairs⟩
  | .draining => l.closed = false ∧ q.log.closed = true ∧ q.stop = false ∧
    ∃ later, c.pending = .close :: later
  | .stopping => l.closed = false ∧ q.log.closed = true ∧ q.stop = false ∧ q.undone = 0 ∧
    ∃ later, c.pending = .close :: later
  | .joining => l.closed = false ∧ q.log.closed = true ∧ q.stop = true ∧
    ∃ later, c.pending = .close :: later

theorem Stands.write {c : Caller} {q : QueuedLog} {l : CsvLog} (h : c.Stands q l) :
    c.Stands q.write l := by
  obtain ⟨stop, closed, -, drained⟩ := q.write_frame
  obtain ⟨returned, pending, place⟩ := c
  cases place with
  | ready =>
    obtain ⟨state, told, gone⟩ := h
    refine ⟨closed.trans state, stop.trans told, fun ended => ?_⟩
    rw [QueuedLog.write_of_gone (gone ended), gone ended]
  | queueing row =>
    obtain ⟨opened, state, running, call⟩ := h
    exact ⟨opened, closed.trans state, stop.trans running, call⟩
  | draining =>
    obtain ⟨opened, state, running, call⟩ := h
    exact ⟨opened, closed.trans state, stop.trans running, call⟩
  | stopping =>
    obtain ⟨opened, state, running, none, call⟩ := h
    exact ⟨opened, closed.trans state, stop.trans running, drained none, call⟩
  | joining =>
    obtain ⟨opened, state, told, call⟩ := h
    exact ⟨opened, closed.trans state, stop.trans told, call⟩

end Caller

namespace LogRun

variable {r : LogRun} {l : CsvLog} {calls : List LogCall}

/-- The calls that have returned. -/
def past (r : LogRun) : List LogCall := r.caller.returned.map (·.1)

/-- A run of some calls, in which those that have returned were answered as by a log `l` that serves
at once, and whose log carries that one's rows. -/
structure Sound (l : CsvLog) (calls : List LogCall) (r : LogRun) : Prop where
  calls : r.past ++ r.caller.pending = calls
  answers : r.caller.returned.map (·.2) = l.answers r.past
  carries : r.queued.Carries (l.served r.past)
  stands : r.caller.Stands r.queued (l.served r.past)

theorem sound_start (path : String) (columns allowed : List String) (calls : List LogCall) :
    (start path columns allowed calls).Sound (.create path columns allowed) calls := by
  refine ⟨rfl, rfl, ⟨⟨rfl, rfl, rfl⟩, nofun, ?_, rfl, nofun, nofun, ?_⟩, rfl, rfl, nofun⟩
  · exact (List.append_nil _).symm
  · rintro (h | h) <;> cases h

/-- The caller goes on with the call under way. -/
theorem Sound.goes (h : r.Sound l calls) (place : CallerPlace) {q : QueuedLog}
    (carries : q.Carries (l.served r.past))
    (stands : Caller.Stands ⟨r.caller.returned, r.caller.pending, place⟩ q (l.served r.past)) :
    Sound l calls ⟨⟨r.caller.returned, r.caller.pending, place⟩, q⟩ :=
  ⟨h.calls, h.answers, carries, stands⟩

/-- The call under way returns with the answer of a log that serves at once. -/
theorem Sound.answer (h : r.Sound l calls) {call : LogCall} {later : List LogCall}
    (next : r.caller.pending = call :: later) {a : LogAnswer} {m : CsvLog}
    (serve : (l.served r.past).serve call = (a, m)) {q : QueuedLog} (carries : q.Carries m)
    (stands : Caller.Stands (r.caller.answer a) q m) :
    (⟨r.caller.answer a, q⟩ : LogRun).Sound l calls := by
  have past : (⟨r.caller.answer a, q⟩ : LogRun).past = r.past ++ [call] := by
    simp [LogRun.past, Caller.answer, next]
  have served : l.served (r.past ++ [call]) = m := by
    rw [CsvLog.served_append]
    exact congrArg Prod.snd serve
  refine ⟨?_, ?_, ?_, ?_⟩
  · rw [past, ← h.calls, next]
    simp [Caller.answer, next]
  · rw [past, CsvLog.answers_append, ← h.answers]
    simp [Caller.answer, next, CsvLog.answers, serve]
  · rw [past, served]
    exact carries
  · rw [past, served]
    exact stands

/-- A call that changes nothing is answered as soon as it is made. -/
theorem Sound.answer_at_once (h : r.Sound l calls) (ready : r.caller.place = .ready)
    {call : LogCall} {later : List LogCall} (next : r.caller.pending = call :: later)
    {a : LogAnswer} (serve : (l.served r.past).serve call = (a, l.served r.past)) :
    (⟨r.caller.answer a, r.queued⟩ : LogRun).Sound l calls := by
  have stands := h.stands
  rw [Caller.Stands, ready] at stands
  exact h.answer next serve h.carries stands

theorem Sound.begin (h : r.Sound l calls) (ready : r.caller.place = .ready) :
    (⟨(r.caller.begin r.queued).1, (r.caller.begin r.queued).2⟩ : LogRun).Sound l calls := by
  have stands := h.stands
  rw [Caller.Stands, ready] at stands
  obtain ⟨state, told, gone⟩ := stands
  have same := h.carries.same
  rw [Caller.begin]
  match next : r.caller.pending with
  | [] => exact h
  | .log now type pairs :: later =>
    cases ended : (l.served r.past).closed with
    | true =>
      have refused := CsvLog.serve_log_of_closed ended now type pairs
      rw [← same.1] at refused
      simp only [state.trans ended, if_true]
      exact h.answer_at_once ready next refused
    | false =>
      have logged := CsvLog.serve_log_of_open ended now type pairs
      simp only [state.trans ended, Bool.false_eq_true, if_false]
      split
      · next passes =>
        rw [h.carries.passes] at passes
        have queueing := h.goes (.queueing (r.queued.log.entry now ⟨type, .ofPairs pairs⟩))
          h.carries ⟨ended, state.trans ended, told.trans ended, now, type, pairs, later, next,
            passes, by rw [h.carries.entry]⟩
        rwa [next] at queueing
      · next dropped =>
        rw [h.carries.passes] at dropped
        have none : (l.served r.past).rowsOf [(now, ⟨type, .ofPairs pairs⟩)] = [] := by
          simp [CsvLog.rowsOf, dropped]
        rw [none, List.append_nil] at logged
        exact h.answer_at_once ready next logged
  | .close :: later =>
    cases ended : (l.served r.past).closed with
    | true =>
      simp only [state.trans ended, if_true]
      exact h.answer_at_once ready next (Prod.ext rfl (CsvLog.serve_of_closed ended .close))
    | false =>
      simp only [state.trans ended, Bool.false_eq_true, if_false]
      have draining := h.goes .draining h.carries.close
        ⟨ended, rfl, told.trans ended, later, next⟩
      rwa [next] at draining

theorem Sound.step (h : r.Sound l calls) (p : Party) : (r.step p).Sound l calls := by
  cases p with
  | writer => exact ⟨h.calls, h.answers, h.carries.write, h.stands.write⟩
  | caller =>
    have stands := h.stands
    rw [LogRun.step, Caller.step]
    rw [Caller.Stands] at stands
    cases place : r.caller.place with
    | ready => exact h.begin place
    | queueing row =>
      rw [place] at stands
      obtain ⟨opened, state, running, now, type, pairs, later, next, passes, rfl⟩ := stands
      have logged := CsvLog.serve_log_of_open opened now type pairs
      have carries := h.carries.queue opened running passes now pairs
      rw [logged] at carries
      exact h.answer next logged carries ⟨state.trans opened.symm, running.trans opened.symm,
        fun ended => nomatch opened.symm.trans ended⟩
    | draining =>
      rw [place] at stands
      obtain ⟨opened, state, running, call⟩ := stands
      by_cases drained : r.queued.undone = 0
      · simp only [drained, if_true]
        exact h.goes .stopping h.carries ⟨opened, state, running, drained, call⟩
      · simp only [drained, if_false]
        exact h
    | stopping =>
      rw [place] at stands
      obtain ⟨opened, state, running, drained, call⟩ := stands
      exact h.goes .joining (h.carries.tell drained) ⟨opened, state, rfl, call⟩
    | joining =>
      rw [place] at stands
      obtain ⟨opened, state, told, later, next⟩ := stands
      cases gone : r.queued.writer with
      | gone => exact h.answer next rfl h.carries.close_serving ⟨state, told, fun _ => gone⟩
      | _ => exact h

theorem Sound.after (h : r.Sound l calls) (schedule : List Party) :
    (r.after schedule).Sound l calls := by
  induction schedule generalizing r with
  | nil => exact h
  | cons p schedule ih => exact ih (h.step p)

/-- Each call that has returned was answered as by a log that had served those before it. -/
theorem Sound.answered (h : r.Sound l calls) {before behind : List (LogCall × LogAnswer)}
    {call : LogCall} {a : LogAnswer}
    (returned : r.caller.returned = before ++ (call, a) :: behind) :
    a = ((l.served (before.map (·.1))).serve call).1 := by
  have answers := h.answers
  rw [past, returned, List.map_append, List.map_append, CsvLog.answers_append] at answers
  have aligned := List.append_inj_right answers (by simp [CsvLog.length_answers])
  exact (List.cons.inj aligned).1

/-- The rows of the file are the first ones of a log that serves at once. -/
theorem Sound.isPrefix (h : r.Sound l calls) :
    r.queued.log.rows <+: (l.served r.past).rows :=
  ⟨_, h.carries.rows.symm⟩

/-- Behind a call that closed the log nothing is under way any more. -/
theorem Sound.settled (h : r.Sound l calls) (ended : (l.served r.past).closed = true) :
    r.caller.place = .ready ∧ r.queued.log.closed = true ∧ r.queued.writer = .gone ∧
      r.queued.log.rows = (l.served r.past).rows := by
  have stands := h.stands
  rw [Caller.Stands] at stands
  cases place : r.caller.place with
  | ready =>
    rw [place] at stands
    obtain ⟨state, told, gone⟩ := stands
    have count := h.carries.undone
    rw [h.carries.idle (told.trans ended)] at count
    have drained : r.queued.queue = [] := List.eq_nil_of_length_eq_zero (by omega)
    refine ⟨rfl, state.trans ended, gone ended, ?_⟩
    rw [h.carries.rows, QueuedLog.waiting, gone ended, drained]
    exact (List.append_nil _).symm
  | _ =>
    rw [place] at stands
    exact nomatch stands.1.symm.trans ended

/-- A log that is closed and settled stays as it is. -/
theorem Sound.queued_step (h : r.Sound l calls) (ended : (l.served r.past).closed = true)
    (p : Party) : (r.step p).queued = r.queued := by
  obtain ⟨ready, closed, gone, -⟩ := h.settled ended
  cases p with
  | writer => exact QueuedLog.write_of_gone gone
  | caller =>
    rw [LogRun.step, Caller.step, ready]
    simp only [Caller.begin, closed, if_true]
    split <;> rfl

/-- The calls that have returned are never undone. -/
theorem past_step (r : LogRun) (p : Party) : r.past <+: (r.step p).past := by
  have answered (a : LogAnswer) (q : QueuedLog) :
      r.past <+: LogRun.past ⟨r.caller.answer a, q⟩ := by
    simp [LogRun.past, Caller.answer]
  cases p with
  | writer => exact List.prefix_rfl
  | caller =>
    rw [LogRun.step, Caller.step, Caller.begin]
    repeat' split
    all_goals first | exact answered _ _ | exact List.prefix_rfl

theorem Sound.queued_after (h : r.Sound l calls) (ended : (l.served r.past).closed = true)
    (schedule : List Party) : (r.after schedule).queued = r.queued := by
  induction schedule generalizing r with
  | nil => rfl
  | cons p schedule ih =>
    obtain ⟨more, past⟩ := r.past_step p
    have still : (l.served (r.step p).past).closed = true := by
      rw [← past, CsvLog.served_append, CsvLog.served_of_closed ended]
      exact ended
    exact (ih (h.step p) still).trans (h.queued_step ended p)

end LogRun

end ExpressionArt
