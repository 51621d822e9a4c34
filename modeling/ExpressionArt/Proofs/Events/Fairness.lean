import ExpressionArt.Proofs.Events.QueuedLog

/-!
# Every call of a queued log returns

A schedule without end is fair if neither caller nor writer waits forever for its next step. Then
every call returns. A step either brings a call closer to its end, or the caller has to wait, and
then each step of the writer leaves it less to do before the caller can go on.
-/

namespace ExpressionArt

/-! ## What is left to do -/

/-- How many steps of its own a caller is at most away from the end of a call. -/
def CallerPlace.left : CallerPlace → Nat
  | .ready => 4
  | .queueing _ | .draining => 3
  | .stopping => 2
  | .joining => 1

def Caller.work (c : Caller) : Nat := 5 * c.pending.length + c.place.left

/-- How far a writer is from its next look at the queue, or from its end if it has to stop. -/
def WriterPlace.left (stop : Bool) : WriterPlace → Nat
  | .holding _ => 4
  | .marking _ => 3
  | .stopTest => 2
  | .taking => if stop then 3 else 1
  | .queueTest => 1
  | .gone => 0

def QueuedLog.work (q : QueuedLog) : Nat := 4 * q.queue.length + q.writer.left q.stop

namespace QueuedLog

variable {q : QueuedLog} {l : CsvLog}

/-- As long as a row is not done the writer has less to do after each step. -/
theorem Carries.work_write (h : q.Carries l) (busy : q.undone ≠ 0) : q.write.work < q.work := by
  obtain ⟨log, queue, undone, stop, writer⟩ := q
  have running : stop = false := by
    cases stop with
    | false => rfl
    | true => exact absurd (h.idle rfl) busy
  subst running
  have count := h.undone
  cases writer with
  | stopTest => simp [QueuedLog.write, work, WriterPlace.left]
  | queueTest => exact absurd (h.told (.inl rfl)) Bool.false_ne_true
  | taking =>
    cases queue with
    | nil => exact absurd count busy
    | cons row queue =>
      simp only [QueuedLog.write, work, WriterPlace.left, List.length_cons]
      simp
      omega
  | holding row =>
    cases made : log.record? row <;> simp [QueuedLog.write, made, work, WriterPlace.left]
  | marking failed =>
    cases failed with
    | true => exact absurd rfl h.succeeds
    | false => simp [QueuedLog.write, work, WriterPlace.left]
  | gone => exact absurd (h.told (.inr rfl)) Bool.false_ne_true

/-- A writer that is told to stop comes closer to its end with each step. -/
theorem Carries.work_write_of_told (h : q.Carries l) (told : q.stop = true)
    (present : q.writer ≠ .gone) : q.write.work < q.work := by
  obtain ⟨log, queue, undone, stop, writer⟩ := q
  obtain rfl : stop = true := told
  have count := h.undone
  rw [h.idle rfl] at count
  obtain rfl : queue = [] := List.eq_nil_of_length_eq_zero (by dsimp only at count; omega)
  cases writer with
  | stopTest => simp [QueuedLog.write, work, WriterPlace.left]
  | queueTest => simp [QueuedLog.write, work, WriterPlace.left]
  | taking => simp [QueuedLog.write, work, WriterPlace.left]
  | holding row => simp [WriterPlace.load] at count
  | marking failed => simp [WriterPlace.load] at count
  | gone => exact absurd rfl present

end QueuedLog

namespace Caller

variable {c : Caller} {q : QueuedLog} {l : CsvLog}

theorem work_answer (busy : c.pending ≠ []) (a : LogAnswer) : (c.answer a).work < c.work := by
  obtain ⟨returned, pending, place⟩ := c
  cases pending with
  | nil => exact absurd rfl busy
  | cons call later =>
    have end_near : 1 ≤ place.left := by cases place <;> simp [CallerPlace.left]
    simp only [work, answer, List.length_cons, List.tail_cons, CallerPlace.left]
    omega

/-- What keeps a caller from its next step. -/
def Waits (c : Caller) (q : QueuedLog) : Prop :=
  match c.place with
  | .draining => q.undone ≠ 0
  | .joining => q.writer ≠ .gone
  | _ => False

theorem step_of_waits (waits : c.Waits q) : c.step q = (c, q) := by
  obtain ⟨returned, pending, place⟩ := c
  cases place with
  | draining => exact if_neg waits
  | joining =>
    cases writer : q.writer with
    | gone => exact absurd writer waits
    | _ => simp only [step, writer]
  | _ => exact waits.elim

/-- A step that does not return from a call brings the caller to a later place of it. -/
theorem work_goes {place : CallerPlace} (further : place.left < c.place.left) :
    Caller.work { c with place } < c.work :=
  Nat.add_lt_add_left further _

theorem work_begin (busy : c.pending ≠ []) (ready : c.place = .ready) :
    (c.begin q).1.work < c.work := by
  have starts {place : CallerPlace} (further : place.left < 4) :
      Caller.work { c with place } < c.work := work_goes (by rwa [ready])
  rw [begin]
  split
  · next none => exact absurd none busy
  · repeat' split
    · exact work_answer busy _
    · exact starts (by simp [CallerPlace.left])
    · exact work_answer busy _
  · split
    · exact work_answer busy _
    · exact starts (by simp [CallerPlace.left])

theorem work_step (busy : c.pending ≠ []) (free : ¬ c.Waits q) : (c.step q).1.work < c.work := by
  rw [Waits] at free
  rw [step]
  cases place : c.place with
  | ready => exact work_begin busy place
  | queueing row => exact work_answer busy _
  | draining =>
    rw [place] at free
    simp only [Classical.not_not.1 free, if_true]
    exact work_goes (by simp [place, CallerPlace.left])
  | stopping => exact work_goes (by simp [place, CallerPlace.left])
  | joining =>
    rw [place] at free
    simp only [Classical.not_not.1 free]
    exact work_answer busy _

/-- The writer keeps no caller waiting that can go on. -/
theorem Waits.of_write (waits : c.Waits q.write) : c.Waits q := by
  obtain ⟨returned, pending, place⟩ := c
  cases place with
  | draining => exact fun drained => waits (q.write_frame.2.2.2 drained)
  | joining => exact fun gone => waits (by rw [QueuedLog.write_of_gone gone, gone])
  | _ => exact waits

/-- A caller waits for what the writer still has to do. -/
theorem Waits.work_write (waits : c.Waits q) (stands : c.Stands q l) (carries : q.Carries l) :
    q.write.work < q.work := by
  obtain ⟨returned, pending, place⟩ := c
  cases place with
  | draining => exact carries.work_write waits
  | joining => exact carries.work_write_of_told stands.2.2.1 waits
  | _ => exact waits.elim

end Caller

/-! ## Schedules without end -/

/-- Neither party waits forever for its next step. -/
def Fair (σ : Nat → Party) : Prop := ∀ p n, ∃ m, n ≤ m ∧ σ m = p

/-- The steps before a moment. -/
def stepsBefore (σ : Nat → Party) (n : Nat) : List Party := (List.range n).map σ

variable {σ : Nat → Party}

theorem stepsBefore_add (σ : Nat → Party) (n m : Nat) :
    stepsBefore σ (n + m) = stepsBefore σ n ++ stepsBefore (fun k => σ (n + k)) m := by
  simp [stepsBefore, List.range_add, Function.comp_def]

theorem Fair.shift (fair : Fair σ) (n : Nat) : Fair fun k => σ (n + k) := by
  intro p k
  obtain ⟨m, later, party⟩ := fair p (n + k)
  have moment : n + (m - n) = m := by omega
  exact ⟨m - n, by omega, (congrArg σ moment).trans party⟩

/-- Before a party takes its first step there are only steps of the other one. -/
theorem Fair.exists_first (fair : Fair σ) (p : Party) :
    ∃ n, σ n = p ∧ ∀ q ∈ stepsBefore σ n, q ≠ p := by
  obtain ⟨m, -, party⟩ := fair p 0
  induction m using Nat.strongRecOn with
  | ind m ih =>
    by_cases earlier : ∃ k, k < m ∧ σ k = p
    · obtain ⟨k, less, party⟩ := earlier
      exact ih k less party
    · refine ⟨m, party, fun q member same => earlier ?_⟩
      obtain ⟨k, less, rfl⟩ := List.mem_map.1 member
      exact ⟨k, List.mem_range.1 less, same⟩

namespace LogRun

variable {r : LogRun} {l : CsvLog} {calls : List LogCall} {schedule : List Party}

theorem after_append (first second : List Party) :
    r.after (first ++ second) = (r.after first).after second :=
  List.foldl_append

theorem after_stepsBefore_succ (n : Nat) :
    r.after (stepsBefore σ (n + 1)) = (r.after (stepsBefore σ n)).step (σ n) := by
  rw [stepsBefore_add, after_append]
  rfl

/-- Steps of a caller that waits do nothing. -/
theorem after_of_waits (waits : r.caller.Waits r.queued) (still : ∀ p ∈ schedule, p ≠ .writer) :
    r.after schedule = r := by
  induction schedule with
  | nil => rfl
  | cons p schedule ih =>
    obtain ⟨first, later⟩ := List.forall_mem_cons.1 still
    cases p with
    | writer => exact absurd rfl first
    | caller =>
      have same : r.step .caller = r := by rw [step, Caller.step_of_waits waits]
      change (r.step .caller).after schedule = r
      rw [same, ih later]

/-- Steps of the writer leave a caller free that can go on. -/
theorem after_of_free (free : ¬ r.caller.Waits r.queued) (still : ∀ p ∈ schedule, p ≠ .caller) :
    (r.after schedule).caller = r.caller ∧ ¬ r.caller.Waits (r.after schedule).queued := by
  induction schedule generalizing r with
  | nil => exact ⟨rfl, free⟩
  | cons p schedule ih =>
    obtain ⟨first, later⟩ := List.forall_mem_cons.1 still
    cases p with
    | caller => exact absurd rfl first
    | writer => exact ih (r := r.step .writer) (fun waits => free waits.of_write) later

/-- After some steps the caller is closer to its end, or it still stands where it stood and the
writer has less to do. -/
theorem Sound.work_after (h : r.Sound l calls) (busy : r.caller.pending ≠ []) (fair : Fair σ) :
    ∃ n, (r.after (stepsBefore σ n)).caller.work < r.caller.work ∨
      (r.after (stepsBefore σ n)).caller.work = r.caller.work ∧
        (r.after (stepsBefore σ n)).queued.work < r.queued.work := by
  by_cases waits : r.caller.Waits r.queued
  · obtain ⟨n, writer, still⟩ := fair.exists_first .writer
    refine ⟨n + 1, .inr ?_⟩
    rw [after_stepsBefore_succ, writer, after_of_waits waits still]
    exact ⟨rfl, waits.work_write h.stands h.carries⟩
  · obtain ⟨n, caller, still⟩ := fair.exists_first .caller
    obtain ⟨same, free⟩ := after_of_free waits still
    refine ⟨n + 1, .inl ?_⟩
    rw [after_stepsBefore_succ, caller, LogRun.step, same]
    exact Caller.work_step busy free

/-- Every call returns if the schedule is fair. -/
theorem Sound.returns {r : LogRun} {σ : Nat → Party} (h : r.Sound l calls) (fair : Fair σ) :
    ∃ n, (r.after (stepsBefore σ n)).caller.pending = [] := by
  by_cases done : r.caller.pending = []
  · exact ⟨0, done⟩
  · obtain ⟨n, less⟩ := h.work_after done fair
    obtain ⟨m, ended⟩ := (h.after (stepsBefore σ n)).returns (fair.shift n)
    refine ⟨n + m, ?_⟩
    rw [stepsBefore_add, after_append]
    exact ended
termination_by (r.caller.work, r.queued.work)
decreasing_by exact Prod.lex_def.2 less

/-- A log with a writer of its own keeps every row. However the steps of its caller and its writer
alternate,

* the calls return in order, and exactly those are refused that log an event behind a closing,
  whether the event passes or not,
* the file is read back as the header and its rows, and these are, in order, the first rows that the
  calls ask for which have returned,
* what is on its way to the file has no name that is no column,
* after a closing has returned the file holds all rows that the calls ask for, and nothing changes
  any more, and
* if neither party waits forever for its next step, every call returns. -/
theorem keeps_every_row (path : String) (columns allowed : List String) (calls : List LogCall)
    (schedule : List Party) :
    let header := if columns = [] then renderColumns else columns
    let r := (start path columns allowed calls).after schedule
    let file := r.queued.log
    r.past ++ r.caller.pending = calls ∧
    (∀ before call a behind, r.caller.returned = before ++ (call, a) :: behind →
      (a = .error ⟨path⟩ ∧ call ≠ .close ∧ LogCall.close ∈ before.map (·.1)) ∨
      (a = .ok () ∧ (call = .close ∨ LogCall.close ∉ before.map (·.1)))) ∧
    (file.text = Csv.table (header :: file.rows) ∧ Csv.read file.text = header :: file.rows ∧
      file.rows <+: LogCall.rows header allowed r.past) ∧
    (∀ row ∈ r.queued.waiting, ∀ name ∈ row.names, name ∈ header) ∧
    (LogCall.close ∈ r.past →
      file.rows = LogCall.rows header allowed calls ∧
      ∀ later, (r.after later).queued = r.queued) ∧
    ∀ σ, Fair σ →
      ∃ n, ((start path columns allowed calls).after (stepsBefore σ n)).past = calls := by
  intro header r file
  let l := CsvLog.create path columns allowed
  have initial := sound_start path columns allowed calls
  have sound : r.Sound l calls := initial.after schedule
  have kept (calls : List LogCall) : (l.served calls).rows = l.rowsOf (LogCall.early calls) :=
    (CsvLog.served_of_open rfl calls).1
  have rows (calls : List LogCall) :
      (l.served calls).rows = LogCall.rows header allowed calls := by
    rw [kept, CsvLog.rowsOf_early, CsvLog.columns_create]
    rfl
  have closed (calls : List LogCall) : (l.served calls).closed = true ↔ LogCall.close ∈ calls :=
    (CsvLog.served_of_open rfl calls).2
  have same : file.columns = l.columns :=
    sound.carries.same.2.1.trans (CsvLog.served_same r.past).2.1
  have own : file.columns = header := same.trans (CsvLog.columns_create path columns allowed)
  refine ⟨sound.calls, fun before call a behind returned => ?_, ⟨?_, ?_, ?_⟩, ?_, ?_, ?_⟩
  · rw [sound.answered returned, ← closed]
    have answer := (l.served (before.map (·.1))).serve_answer call
    rwa [(CsvLog.served_same _).1] at answer
  · exact congrArg (fun columns => Csv.table (columns :: _)) own
  · refine (CsvLog.read_text same fun row member => ⟨LogCall.early r.past, ?_⟩).trans ?_
    · exact kept r.past ▸ sound.isPrefix.subset member
    · exact congrArg (· :: _) (CsvLog.columns_create path columns allowed)
  · exact rows r.past ▸ sound.isPrefix
  · rw [← own]
    exact fun row waiting => CsvLog.record?_isSome_iff.1 (sound.carries.proper row waiting)
  · intro closing
    have ended := (closed r.past).2 closing
    refine ⟨?_, sound.queued_after ended⟩
    rw [(sound.settled ended).2.2.2, ← rows, ← sound.calls, CsvLog.served_append,
      CsvLog.served_of_closed ended]
  · intro σ fair
    obtain ⟨n, ended⟩ := initial.returns fair
    have all := (initial.after (stepsBefore σ n)).calls
    rw [ended, List.append_nil] at all
    exact ⟨n, all⟩

end LogRun

end ExpressionArt
