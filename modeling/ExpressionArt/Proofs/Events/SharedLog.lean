import ExpressionArt.Events.SharedLog
import ExpressionArt.Proofs.Events.QueuedLog

/-!
# Logs with several callers

Whatever order the steps of several callers and of the writer come in, what the callers logged is in
the file or still in the queue, each row once and the rows of a caller in the order of its calls.
Rows are left in the queue for good only if the log is closed between a caller's look at it and the
queueing of its row.
-/

namespace ExpressionArt

/-- A list is made up of parts: each element comes from one of them, and the elements of a part keep
their order. -/
def Merges {α : Type} (parts : List (List α)) (merged : List α) : Prop :=
  ∃ journal : List (Nat × α), journal.map (·.2) = merged ∧
    ∀ i, (journal.filter (·.1 = i)).map (·.2) = parts.getD i []

namespace Merges

variable {α : Type} {parts : List (List α)} {merged part : List α} {i : Nat}

theorem nil (n : Nat) : Merges (List.replicate n ([] : List α)) [] := by
  refine ⟨[], rfl, fun i => ?_⟩
  rw [List.getD_eq_getElem?_getD, List.getElem?_replicate]
  split <;> rfl

/-- A part that grows at its end. -/
theorem append (h : Merges parts merged) (here : parts[i]? = some part) (new : List α) :
    Merges (parts.set i (part ++ new)) (merged ++ new) := by
  obtain ⟨journal, whole, each⟩ := h
  have entries (j : Nat) : ((new.map (i, ·)).filter (·.1 = j)).map (·.2) =
      if i = j then new else [] := by
    by_cases same : i = j <;> simp [same, List.filter_map, Function.comp_def]
  refine ⟨journal ++ new.map (i, ·), by simp [whole, Function.comp_def], fun j => ?_⟩
  rw [List.filter_append, List.map_append, each, entries, List.getD_eq_getElem?_getD,
    List.getD_eq_getElem?_getD, List.getElem?_set]
  by_cases same : i = j
  · subst same
    obtain ⟨inside, -⟩ := List.getElem?_eq_some_iff.1 here
    simp only [here, inside, if_true, Option.getD_some]
  · simp only [same, if_false, List.append_nil]

/-- Each element comes from a part. -/
theorem exists_part (h : Merges parts merged) {x : α} (member : x ∈ merged) :
    ∃ part ∈ parts, x ∈ part := by
  obtain ⟨journal, rfl, each⟩ := h
  obtain ⟨⟨i, x⟩, noted, rfl⟩ := List.mem_map.1 member
  have own : x ∈ parts.getD i [] := by
    rw [← each]
    exact List.mem_map.2 ⟨(i, x), by simpa using noted, rfl⟩
  rw [List.getD_eq_getElem?_getD] at own
  cases here : parts[i]? with
  | none =>
    rw [here] at own
    exact absurd own List.not_mem_nil
  | some part =>
    rw [here] at own
    exact ⟨part, List.mem_of_getElem? here, own⟩

/-- How often an element stands in a journal under an owner. -/
theorem count_journal [DecidableEq α] (journal : List (Nat × α)) (i : Nat) (x : α) :
    journal.count (i, x) = ((journal.filter (·.1 = i)).map (·.2)).count x := by
  induction journal with
  | nil => rfl
  | cons entry journal ih =>
    obtain ⟨j, y⟩ := entry
    by_cases own : j = i <;> by_cases same : y = x <;> simp [ih, own, same]

theorem length_eq [DecidableEq α] {other : List α} (h : Merges parts merged)
    (h' : Merges parts other) : merged.length = other.length := by
  obtain ⟨journal, rfl, each⟩ := h
  obtain ⟨journal', rfl, each'⟩ := h'
  have perm : journal.Perm journal' := List.perm_iff_count.2 fun (i, x) => by
    rw [count_journal, count_journal, each, each']
  rw [List.length_map, List.length_map, perm.length_eq]

end Merges

/-! ## What a step of a caller can do -/

namespace Caller

variable {c : Caller} {q : QueuedLog}

/-- A step of a caller, with all that it needs. -/
inductive Goes (c : Caller) (q : QueuedLog) : Caller → QueuedLog → Prop where
  | stays : Goes c q c q
  | refused {now : Moment} {type : String} {pairs : List (String × Value)} {later : List LogCall} :
    c.place = .ready → c.pending = .log now type pairs :: later → q.log.closed = true →
    Goes c q (c.answer (.error ⟨q.log.path⟩)) q
  | dropped {now : Moment} {type : String} {pairs : List (String × Value)} {later : List LogCall} :
    c.place = .ready → c.pending = .log now type pairs :: later → q.log.closed = false →
    q.log.passes type = false → Goes c q (c.answer (.ok ())) q
  | takes {now : Moment} {type : String} {pairs : List (String × Value)} {later : List LogCall} :
    c.place = .ready → c.pending = .log now type pairs :: later → q.log.closed = false →
    q.log.passes type = true →
    Goes c q { c with place := .queueing (q.log.entry now ⟨type, .ofPairs pairs⟩) } q
  | queues {row : Fields} : c.place = .queueing row →
    Goes c q (c.answer (.ok ())) { q with queue := q.queue ++ [row], undone := q.undone + 1 }
  | returns {later : List LogCall} :
    c.place = .ready → c.pending = .close :: later → q.log.closed = true →
    Goes c q (c.answer (.ok ())) q
  | closes {later : List LogCall} :
    c.place = .ready → c.pending = .close :: later → q.log.closed = false →
    Goes c q { c with place := .draining } { q with log := q.log.close }
  | drains : c.place = .draining → q.undone = 0 → Goes c q { c with place := .stopping } q
  | tells : c.place = .stopping → Goes c q { c with place := .joining } { q with stop := true }
  | joins : c.place = .joining → q.writer = .gone → Goes c q (c.answer (.ok ())) q

theorem goes_begin (ready : c.place = .ready) : Goes c q (c.begin q).1 (c.begin q).2 := by
  obtain ⟨returned, pending, place⟩ := c
  match pending with
  | [] => exact .stays
  | .log now type pairs :: later =>
    cases state : q.log.closed with
    | true =>
      simp only [begin, state, if_true]
      exact .refused ready rfl state
    | false =>
      cases passes : q.log.passes type with
      | true =>
        simp only [begin, state, passes, Bool.false_eq_true, if_false, if_true]
        exact .takes ready rfl state passes
      | false =>
        simp only [begin, state, passes, Bool.false_eq_true, if_false]
        exact .dropped ready rfl state passes
  | .close :: later =>
    cases state : q.log.closed with
    | true =>
      simp only [begin, state, if_true]
      exact .returns ready rfl state
    | false =>
      simp only [begin, state, Bool.false_eq_true, if_false]
      exact .closes ready rfl state

theorem goes_step (c : Caller) (q : QueuedLog) : Goes c q (c.step q).1 (c.step q).2 := by
  rw [step]
  cases place : c.place with
  | ready => exact goes_begin place
  | queueing row => exact .queues place
  | draining =>
    by_cases drained : q.undone = 0
    · simp only [drained, if_true]
      exact .drains place drained
    · simp only [drained, if_false]
      exact .stays
  | stopping => exact .tells place
  | joining =>
    cases gone : q.writer with
    | gone => exact .joins place gone
    | _ => exact .stays

/-- All calls of a caller, those that have returned and those to come. -/
def script (c : Caller) : List LogCall := c.returned.map (·.1) ++ c.pending

theorem script_answer (c : Caller) (a : LogAnswer) : (c.answer a).script = c.script := by
  obtain ⟨returned, pending, place⟩ := c
  cases pending <;> simp [script, answer]

theorem script_of_goes {c' : Caller} {q' : QueuedLog} (goes : Goes c q c' q') :
    c'.script = c.script := by
  cases goes with
  | refused => exact script_answer c _
  | dropped => exact script_answer c _
  | queues => exact script_answer c _
  | returns => exact script_answer c _
  | joins => exact script_answer c _
  | _ => rfl

end Caller

/-! ## What a caller logged -/

/-- The event that was logged by a call with its answer. -/
def LogCall.logged? : LogCall × LogAnswer → Option (Moment × Event)
  | (.log now type pairs, .ok _) => some (now, ⟨type, .ofPairs pairs⟩)
  | _ => none

/-- The call itself, if it logged its event. -/
def LogCall.accepted? : LogCall × LogAnswer → Option LogCall
  | (.log now type pairs, .ok _) => some (.log now type pairs)
  | _ => none

theorem LogCall.log_ne_close {now : Moment} {type : String} {pairs : List (String × Value)} :
    LogCall.log now type pairs ≠ .close := nofun

/-- Where a caller stands that has closed the log and waits for the end of it. -/
def CallerPlace.ends : CallerPlace → Bool
  | .draining | .stopping | .joining => true
  | _ => false

instance (place : CallerPlace) : Decidable (place = .ready) :=
  match place with
  | .ready => isTrue rfl
  | .queueing _ | .draining | .stopping | .joining => isFalse nofun

namespace Caller

variable {c : Caller} {l : CsvLog} {call : LogCall} {later : List LogCall} {a : LogAnswer}

/-- The events that a caller logged without an error. -/
def logged (c : Caller) : List (Moment × Event) := c.returned.filterMap LogCall.logged?

/-- The calls by which it logged them. -/
def accepted (c : Caller) : List LogCall := c.returned.filterMap LogCall.accepted?

/-- The rows of a caller are those that these calls ask for. -/
theorem rowsOf_logged (l : CsvLog) (c : Caller) :
    l.rowsOf c.logged = LogCall.rows l.columns l.allowed c.accepted := by
  have early (returned : List (LogCall × LogAnswer)) :
      LogCall.early (returned.filterMap LogCall.accepted?) =
        returned.filterMap LogCall.logged? := by
    induction returned with
    | nil => rfl
    | cons entry returned ih =>
      obtain ⟨_ | _, _ | _⟩ := entry
      · exact ih
      · exact congrArg (_ :: ·) ih
      · exact ih
      · exact ih
  rw [← CsvLog.rowsOf_early, accepted, early, logged]

/-- A closing of this caller has returned. -/
def hasClosed (c : Caller) : Bool := c.returned.any (·.1 matches .close)

/-- A closing of this caller has returned or is under way. -/
def Closes (c : Caller) : Prop := c.place.ends = true ∨ c.hasClosed = true

/-- The call under way is the one that the caller's place belongs to. -/
def Poised (c : Caller) (l : CsvLog) : Prop :=
  match c.place with
  | .ready => True
  | .queueing row => ∃ now type pairs later, c.pending = .log now type pairs :: later ∧
    l.passes type = true ∧ row = l.entry now ⟨type, .ofPairs pairs⟩
  | _ => ∃ later, c.pending = .close :: later

theorem logged_answer (next : c.pending = call :: later) (a : LogAnswer) :
    (c.answer a).logged = c.logged ++ (LogCall.logged? (call, a)).toList := by
  rw [logged, answer, next, List.filterMap_append]
  rfl

theorem closes_of_answer (next : c.pending = call :: later) (closes : (c.answer a).Closes) :
    call = .close ∨ c.Closes := by
  obtain ends | returned := closes
  · cases ends
  · rw [hasClosed, answer, next, List.any_append, Bool.or_eq_true] at returned
    obtain earlier | last := returned
    · exact .inr (.inr earlier)
    · cases call with
      | log => cases last
      | close => exact .inl rfl

end Caller

theorem CsvLog.rowsOf_append (l : CsvLog) (before behind : List (Moment × Event)) :
    l.rowsOf (before ++ behind) = l.rowsOf before ++ l.rowsOf behind := by
  simp [rowsOf]

/-! ## Rows on their way -/

namespace QueuedLog

variable {q : QueuedLog}

/-- The same log with a writer at work that was never told to stop. -/
def roused (q : QueuedLog) : QueuedLog :=
  { q with
    stop := false
    writer := match q.writer with
      | .queueTest | .gone => .stopTest
      | place => place }

/-- A writer that stops, or looks whether it may, does nothing that one at work would not do. -/
theorem roused_write (succeeds : q.roused.writer ≠ .marking true) :
    q.write.roused = q.roused ∨ q.write.roused = q.roused.write := by
  obtain ⟨log, queue, undone, stop, writer⟩ := q
  cases writer with
  | stopTest => cases stop with
    | false => exact .inr rfl
    | true => exact .inl rfl
  | queueTest => cases queue with
    | nil => exact .inl rfl
    | cons row queue => exact .inr rfl
  | taking => cases queue <;> exact .inr rfl
  | holding row =>
    right
    cases made : log.record? row <;> simp only [write, roused, made]
  | marking failed => cases failed with
    | false => exact .inr rfl
    | true => exact absurd rfl succeeds
  | gone => exact .inl rfl

/-- A writer that fails at no row stops only if it was told to. -/
theorem told_of_write (succeeds : q.writer ≠ .marking true)
    (told : q.writer = .queueTest ∨ q.writer = .gone → q.stop = true)
    (ending : q.write.writer = .queueTest ∨ q.write.writer = .gone) : q.stop = true := by
  obtain ⟨log, queue, undone, stop, writer⟩ := q
  cases writer with
  | stopTest => cases stop with
    | false => exact absurd ending (by rintro (h | h) <;> cases h)
    | true => rfl
  | queueTest => exact told (.inl rfl)
  | taking =>
    cases queue <;> exact absurd ending (by rintro (h | h) <;> cases h)
  | holding row =>
    cases made : log.record? row <;> simp [write, made] at ending
  | marking failed => cases failed with
    | false => exact absurd ending (by rintro (h | h) <;> cases h)
    | true => exact absurd rfl succeeds
  | gone => exact told (.inr rfl)

end QueuedLog

/-! ## Runs -/

namespace SharedLog

open Caller

variable {s : SharedLog} {l : CsvLog} {i : Nat} {c c' : Caller} {q : QueuedLog}

/-- The rows of the callers, made up into those of `l`, are in the file or on their way to it. Once
the log is closed, a caller waits for its end or the writer is gone. -/
structure Sound (l : CsvLog) (s : SharedLog) : Prop where
  opened : l.closed = false
  carries : s.queued.roused.Carries l
  merges : Merges (s.callers.map fun c => l.rowsOf c.logged) l.rows
  poised : ∀ c ∈ s.callers, c.Poised l
  closed : ∀ c ∈ s.callers, c.Closes → s.queued.log.closed = true
  ended : s.queued.log.closed = true →
    s.queued.writer = .gone ∨ ∃ c ∈ s.callers, c.place.ends = true

theorem sound_start (path : String) (columns allowed : List String) (calls : List (List LogCall)) :
    (start path columns allowed calls).Sound (.create path columns allowed) := by
  refine ⟨rfl, ⟨⟨rfl, rfl, rfl⟩, nofun, (List.append_nil _).symm, rfl, nofun, nofun, ?_⟩,
    ?_, ?_, ?_, nofun⟩
  · rintro (h | h) <;> cases h
  · have empty : (start path columns allowed calls).callers.map
        (fun c => (CsvLog.create path columns allowed).rowsOf c.logged) =
          List.replicate calls.length [] := by
      rw [start, List.map_map]
      exact List.map_const
    rw [empty]
    exact Merges.nil _
  · intro c member
    obtain ⟨pending, -, rfl⟩ := List.mem_map.1 member
    trivial
  · intro c member closes
    obtain ⟨pending, -, rfl⟩ := List.mem_map.1 member
    obtain ends | returned := closes
    · cases ends
    · cases returned

/-- Another caller is still there after one has changed. -/
theorem mem_set_of_ne {callers : List Caller} (here : callers[i]? = some c) {other : Caller}
    (member : other ∈ callers) (ne : other ≠ c) : other ∈ callers.set i c' := by
  obtain ⟨j, there⟩ := List.mem_iff_getElem?.1 member
  have elsewhere : i ≠ j := by
    rintro rfl
    exact ne (Option.some.inj (there.symm.trans here))
  refine List.mem_iff_getElem?.2 ⟨j, ?_⟩
  rw [List.getElem?_set_ne elsewhere, there]

/-- One caller changes, and with it what is queued. -/
theorem Sound.replace (h : s.Sound l) (here : s.callers[i]? = some c) {new : List (List String)}
    {m : CsvLog} (grown : m = { l with rows := l.rows ++ new })
    (rows : l.rowsOf c'.logged = l.rowsOf c.logged ++ new) (carries : q.roused.Carries m)
    (poised : c'.Poised l) (stays : s.queued.log.closed = true → q.log.closed = true)
    (closed : c'.Closes → q.log.closed = true) (writer : q.writer = s.queued.writer)
    (ends : q.log.closed = true → c'.place.ends = true ∨ s.queued.writer = .gone ∨
      s.queued.log.closed = true ∧ c.place.ends = false) :
    Sound m ⟨s.callers.set i c', q⟩ := by
  obtain ⟨inside, -⟩ := List.getElem?_eq_some_iff.1 here
  have same : m.rowsOf = l.rowsOf := by rw [grown]; rfl
  refine ⟨by rw [grown]; exact h.opened, carries, ?_, ?_, ?_, ?_⟩
  · have part : (s.callers.map fun c => l.rowsOf c.logged)[i]? = some (l.rowsOf c.logged) := by
      rw [List.getElem?_map, here, Option.map_some]
    have merges := h.merges.append part new
    rwa [same, List.map_set, rows, grown]
  · intro other member
    obtain old | rfl := List.mem_or_eq_of_mem_set member
    · rw [grown]
      exact h.poised other old
    · rw [grown]
      exact poised
  · intro other member closes
    obtain old | rfl := List.mem_or_eq_of_mem_set member
    · exact stays (h.closed other old closes)
    · exact closed closes
  · intro state
    rw [writer]
    have changed : c' ∈ s.callers.set i c' := List.mem_set inside _
    obtain ending | gone | ⟨earlier, going⟩ := ends state
    · exact .inr ⟨c', changed, ending⟩
    · exact .inl gone
    · refine (h.ended earlier).imp_right fun ⟨other, member, ending⟩ => ⟨other, ?_, ending⟩
      refine mem_set_of_ne here member ?_
      rintro rfl
      cases ending.symm.trans going

/-- A caller goes on without a row of its own. -/
theorem Sound.replace_silently (h : s.Sound l) (here : s.callers[i]? = some c)
    (rows : l.rowsOf c'.logged = l.rowsOf c.logged) (carries : q.roused.Carries l)
    (poised : c'.Poised l) (stays : s.queued.log.closed = true → q.log.closed = true)
    (closed : c'.Closes → q.log.closed = true) (writer : q.writer = s.queued.writer)
    (ends : q.log.closed = true → c'.place.ends = true ∨ s.queued.writer = .gone ∨
      s.queued.log.closed = true ∧ c.place.ends = false) :
    Sound l ⟨s.callers.set i c', q⟩ := by
  have grown : l = { l with rows := l.rows ++ [] } := by rw [List.append_nil]
  refine h.replace here grown ?_ carries poised stays closed writer ends
  rw [rows, List.append_nil]

/-- A call returns that logged nothing that passes. -/
theorem Sound.answer (h : s.Sound l) (here : s.callers[i]? = some c) {call : LogCall}
    {later : List LogCall} (next : c.pending = call :: later) {a : LogAnswer}
    (silent : l.rowsOf (LogCall.logged? (call, a)).toList = [])
    (closed : call = .close → s.queued.log.closed = true)
    (going : c.place.ends = false ∨ s.queued.writer = .gone) :
    Sound l ⟨s.callers.set i (c.answer a), s.queued⟩ := by
  have member : c ∈ s.callers := List.mem_of_getElem? here
  refine h.replace_silently here ?_ h.carries trivial id (fun closes => ?_) rfl fun state => ?_
  · rw [logged_answer next, CsvLog.rowsOf_append, silent, List.append_nil]
  · exact (closes_of_answer next closes).elim closed (h.closed c member)
  · exact .inr (going.elim (fun going => .inr ⟨state, going⟩) .inl)

theorem Sound.goes (h : s.Sound l) (here : s.callers[i]? = some c)
    (goes : Goes c s.queued c' q) : ∃ rows, Sound { l with rows } ⟨s.callers.set i c', q⟩ := by
  have member : c ∈ s.callers := List.mem_of_getElem? here
  have poised := h.poised c member
  have closed := h.closed c member
  rw [Poised] at poised
  cases goes with
  | stays =>
    obtain ⟨inside, rfl⟩ := List.getElem?_eq_some_iff.1 here
    exact ⟨l.rows, by rwa [List.set_getElem_self]⟩
  | refused ready next state =>
    have going : c.place.ends = false := by rw [ready]; rfl
    exact ⟨l.rows, h.answer here next rfl (absurd · LogCall.log_ne_close) (.inl going)⟩
  | dropped ready next state passes =>
    have going : c.place.ends = false := by rw [ready]; rfl
    refine ⟨l.rows, h.answer here next ?_ (absurd · LogCall.log_ne_close) (.inl going)⟩
    have filtered : l.passes _ = false := (congrFun h.carries.passes _).symm.trans passes
    simp [LogCall.logged?, CsvLog.rowsOf, filtered]
  | takes ready next state passes =>
    have going : c.place.ends = false := by rw [ready]; rfl
    refine ⟨l.rows, h.replace_silently here rfl h.carries ?_ id ?_ rfl fun state => ?_⟩
    · exact ⟨_, _, _, _, next, (congrFun h.carries.passes _).symm.trans passes,
        congrFun (congrFun h.carries.entry _) _⟩
    · exact fun closes => closed (closes.imp_left (absurd · Bool.false_ne_true))
    · exact .inr (.inr ⟨state, going⟩)
  | queues place =>
    -- Only here a row is added, to what the caller logged and to what is on its way at once.
    rw [place] at poised
    obtain ⟨now, type, pairs, later, next, passes, rfl⟩ := poised
    have carries := h.carries.queue h.opened rfl passes now pairs
    rw [CsvLog.serve_log_of_open h.opened] at carries
    refine ⟨_, h.replace here rfl ?_ carries trivial id ?_ rfl fun state => ?_⟩
    · rw [logged_answer next, CsvLog.rowsOf_append]
      rfl
    · exact fun closes => (closes_of_answer next closes).elim (absurd · LogCall.log_ne_close) closed
    · exact .inr (.inr ⟨state, by rw [place]; rfl⟩)
  | returns ready next state =>
    have going : c.place.ends = false := by rw [ready]; rfl
    exact ⟨l.rows, h.answer here next rfl (fun _ => state) (.inl going)⟩
  | closes ready next state =>
    exact ⟨l.rows, h.replace_silently here rfl h.carries.close ⟨_, next⟩ (fun _ => rfl)
      (fun _ => rfl) rfl fun _ => .inl rfl⟩
  | drains place drained =>
    rw [place] at poised
    have state := closed (.inl (by rw [place]; rfl))
    exact ⟨l.rows, h.replace_silently here rfl h.carries poised id (fun _ => state) rfl
      fun _ => .inl rfl⟩
  | tells place =>
    rw [place] at poised
    have state := closed (.inl (by rw [place]; rfl))
    exact ⟨l.rows, h.replace_silently here rfl h.carries poised id (fun _ => state) rfl
      fun _ => .inl rfl⟩
  | joins place gone =>
    rw [place] at poised
    obtain ⟨later, next⟩ := poised
    exact ⟨l.rows, h.answer here next rfl (fun _ => closed (.inl (by rw [place]; rfl))) (.inr gone)⟩

theorem Sound.step (h : s.Sound l) (t : Turn) : ∃ rows, (s.step t).Sound { l with rows } := by
  cases t with
  | writer =>
    obtain ⟨-, closed, -, -⟩ := s.queued.write_frame
    refine ⟨l.rows, h.opened, ?_, h.merges, h.poised, ?_, ?_⟩
    · change s.queued.write.roused.Carries l
      obtain same | work := QueuedLog.roused_write h.carries.succeeds
      · exact same ▸ h.carries
      · exact work ▸ h.carries.write
    · exact fun c member closes => closed.trans (h.closed c member closes)
    · intro state
      refine (h.ended (closed.symm.trans state)).imp_left fun gone => ?_
      change s.queued.write.writer = .gone
      rw [QueuedLog.write_of_gone gone, gone]
  | caller position =>
    rw [SharedLog.step]
    split
    · next c here => exact h.goes here (goes_step c s.queued)
    · exact ⟨l.rows, h⟩

theorem Sound.after (h : s.Sound l) (schedule : List Turn) :
    ∃ rows, (s.after schedule).Sound { l with rows } := by
  induction schedule generalizing s l with
  | nil => exact ⟨l.rows, h⟩
  | cons t schedule ih =>
    obtain ⟨rows, next⟩ := h.step t
    exact ih (l := { l with rows }) next

/-- A shared log with one caller is a queued log with its caller. -/
theorem after_alone (r : LogRun) (schedule : List Party) :
    (SharedLog.mk [r.caller] r.queued).after (schedule.map fun
      | .caller => .caller 0
      | .writer => .writer) =
        ⟨[(r.after schedule).caller], (r.after schedule).queued⟩ := by
  induction schedule generalizing r with
  | nil => rfl
  | cons p schedule ih => cases p with
    | caller => exact ih (r.step .caller)
    | writer => exact ih (r.step .writer)

/-! ## Callers that are not overtaken -/

/-- No caller that has found the log open is overtaken by its closing. -/
def Guarded (s : SharedLog) : Prop :=
  s.queued.log.closed = true → ∀ c ∈ s.callers, ∀ row, c.place ≠ .queueing row

/-- The writer is told to stop only when nothing is left to do. -/
structure Quiet (s : SharedLog) : Prop where
  told : s.queued.writer = .queueTest ∨ s.queued.writer = .gone → s.queued.stop = true
  stopped : s.queued.stop = true → s.queued.log.closed = true
  idle : s.queued.stop = true → s.queued.undone = 0
  drained : ∀ c ∈ s.callers, c.place = .stopping → s.queued.undone = 0

theorem quiet_start (path : String) (columns allowed : List String) (calls : List (List LogCall)) :
    (start path columns allowed calls).Quiet := by
  refine ⟨?_, nofun, nofun, fun _ _ _ => rfl⟩
  rintro (h | h) <;> cases h

theorem Quiet.write (h : s.Quiet) (succeeds : s.queued.writer ≠ .marking true) :
    Quiet { s with queued := s.queued.write } := by
  obtain ⟨stop, closed, -, none⟩ := s.queued.write_frame
  refine ⟨fun ending => ?_, fun told => ?_, fun told => ?_, fun c member place => ?_⟩
  · exact stop.trans (QueuedLog.told_of_write succeeds h.told ending)
  · exact closed.trans (h.stopped (stop.symm.trans told))
  · exact none (h.idle (stop.symm.trans told))
  · exact none (h.drained c member place)

/-- What holds of all callers but one and of that one's next place. -/
theorem forall_mem_set {P : Caller → Prop} (all : ∀ c ∈ s.callers, P c) (new : P c') :
    ∀ c ∈ s.callers.set i c', P c := fun c member =>
  (List.mem_or_eq_of_mem_set member).elim (all c) fun same => same ▸ new

theorem Quiet.goes_alone (h : s.Quiet) (drained : c'.place = .stopping → s.queued.undone = 0) :
    Quiet ⟨s.callers.set i c', s.queued⟩ :=
  ⟨h.told, h.stopped, h.idle, forall_mem_set h.drained drained⟩

theorem Quiet.goes (h : s.Quiet) (sound : s.Sound l) (guarded : s.Guarded)
    (here : s.callers[i]? = some c) (goes : Goes c s.queued c' q) :
    Quiet ⟨s.callers.set i c', q⟩ := by
  have member : c ∈ s.callers := List.mem_of_getElem? here
  cases goes with
  | stays => exact h.goes_alone (h.drained c member)
  | refused => exact h.goes_alone nofun
  | dropped => exact h.goes_alone nofun
  | takes => exact h.goes_alone nofun
  | queues place =>
    -- A caller that is not overtaken queues its row while the log is open and nobody ends it.
    have opened : ¬ s.queued.log.closed = true := fun state => guarded state c member _ place
    refine ⟨h.told, h.stopped, fun told => absurd (h.stopped told) opened, ?_⟩
    refine forall_mem_set (fun other there stopping => absurd ?_ opened) nofun
    exact sound.closed other there (.inl (by rw [stopping]; rfl))
  | returns => exact h.goes_alone nofun
  | closes => exact ⟨h.told, fun _ => rfl, h.idle, forall_mem_set h.drained nofun⟩
  | drains place drained => exact h.goes_alone fun _ => drained
  | tells place =>
    have closed := sound.closed c member (.inl (by rw [place]; rfl))
    exact ⟨fun _ => rfl, fun _ => closed, fun _ => h.drained c member place,
      forall_mem_set h.drained nofun⟩
  | joins => exact h.goes_alone nofun

theorem Quiet.step (h : s.Quiet) (sound : s.Sound l) (guarded : s.Guarded) (t : Turn) :
    (s.step t).Quiet := by
  cases t with
  | writer =>
    refine h.write fun failed => sound.carries.succeeds ?_
    rw [QueuedLog.roused, failed]
  | caller position =>
    rw [SharedLog.step]
    split
    · next c here => exact h.goes sound guarded here (goes_step c s.queued)
    · exact h

theorem Quiet.after (h : s.Quiet) (sound : s.Sound l) {schedule : List Turn}
    (guarded : ∀ before, before <+: schedule → (s.after before).Guarded) :
    (s.after schedule).Quiet := by
  induction schedule generalizing s l with
  | nil => exact h
  | cons t schedule ih =>
    obtain ⟨rows, next⟩ := sound.step t
    refine ih (h.step sound (guarded [] (List.nil_prefix)) t) next fun before first => ?_
    exact guarded (t :: before) (List.cons_prefix_cons.2 ⟨rfl, first⟩)

/-! ## The end of a run -/

theorem scripts_step (s : SharedLog) (t : Turn) :
    (s.step t).callers.map script = s.callers.map script := by
  cases t with
  | writer => rfl
  | caller position =>
    rw [SharedLog.step]
    split
    · next c here =>
      obtain ⟨inside, rfl⟩ := List.getElem?_eq_some_iff.1 here
      rw [List.map_set, script_of_goes (goes_step _ _), ← List.map_set, List.set_getElem_self]
    · rfl

theorem scripts_after (s : SharedLog) (schedule : List Turn) :
    (s.after schedule).callers.map script = s.callers.map script := by
  induction schedule generalizing s with
  | nil => rfl
  | cons t schedule ih => exact (ih (s.step t)).trans (scripts_step s t)

/-- Behind a closing nothing is in the writer's hand once no call is under way. -/
theorem Sound.settled (h : s.Sound l) (ready : ∀ c ∈ s.callers, c.place = .ready)
    (closed : s.queued.log.closed = true) : s.queued.writer = .gone ∧
      (s.queued.queue.filterMap s.queued.log.record? = [] → s.queued.queue = []) ∧
      l.rows = s.queued.log.rows ++ s.queued.queue.filterMap s.queued.log.record? := by
  have gone : s.queued.writer = .gone := by
    refine (h.ended closed).resolve_right ?_
    rintro ⟨c, member, ends⟩
    rw [ready c member] at ends
    cases ends
  have rows := h.carries.rows
  have proper := h.carries.proper
  rw [QueuedLog.waiting, QueuedLog.roused, gone] at rows proper
  refine ⟨gone, fun none => List.eq_nil_iff_forall_not_mem.2 fun row queued => ?_, rows⟩
  have made : (s.queued.log.record? row).isSome := proper row queued
  rw [List.filterMap_eq_nil_iff.1 none row queued] at made
  cases made

/-- A shared log keeps every row of callers that are not overtaken. Whatever order the steps of its
callers and its writer come in, once a closing and all other calls that were begun have returned,

* the calls of each caller have returned in order,
* the file is read back as the header and its rows,
* the rows of a caller are those that the calls ask for by which it logged something,
* the rows of the file and, behind them, those still in the queue are made up of what the callers
  logged without an error and passes, each row once and those of a caller in the order of its calls,
* the rows of the file alone are so exactly if nothing is still in the queue, and
* nothing is still in the queue if no caller that has found the log open is overtaken by its
  closing. -/
theorem keeps_rows (path : String) (columns allowed : List String) (calls : List (List LogCall))
    (schedule : List Turn) {s : SharedLog}
    (run : s = (start path columns allowed calls).after schedule)
    (ready : ∀ c ∈ s.callers, c.place = .ready)
    (closing : ∃ c ∈ s.callers, c.hasClosed = true) :
    let l := CsvLog.create path columns allowed
    let header := if columns = [] then renderColumns else columns
    s.callers.map (fun c => c.returned.map (·.1) ++ c.pending) = calls ∧
    (l.columns = header ∧ s.queued.log.text = Csv.table (l.columns :: s.queued.log.rows) ∧
      Csv.read s.queued.log.text = l.columns :: s.queued.log.rows) ∧
    (∀ c : Caller, l.rowsOf c.logged = LogCall.rows header allowed c.accepted) ∧
    Merges (s.callers.map fun c => l.rowsOf c.logged)
      (s.queued.log.rows ++ s.queued.queue.filterMap s.queued.log.record?) ∧
    (Merges (s.callers.map fun c => l.rowsOf c.logged) s.queued.log.rows ↔ s.queued.queue = []) ∧
    ((∀ before, before <+: schedule → ((start path columns allowed calls).after before).Guarded) →
      s.queued.queue = []) := by
  intro l header
  have initial := sound_start path columns allowed calls
  obtain ⟨all, sound⟩ := initial.after schedule
  rw [← run] at sound
  obtain ⟨c, member, closes⟩ := closing
  have closed := sound.closed c member (.inr closes)
  obtain ⟨gone, left, rows⟩ := sound.settled ready closed
  have merges := sound.merges
  dsimp only at rows merges
  rw [rows] at merges
  have own : s.queued.log.columns = l.columns := sound.carries.same.2.1
  have heads : l.columns = header := CsvLog.columns_create path columns allowed
  refine ⟨?_, ⟨heads, ?_, ?_⟩, fun c => heads ▸ rowsOf_logged l c, merges,
    ⟨fun complete => left ?_, fun drained => ?_⟩, ?_⟩
  · have scripts := scripts_after (start path columns allowed calls) schedule
    rw [← run] at scripts
    exact scripts.trans (by simp [start, script, Function.comp_def])
  · exact congrArg (fun columns => Csv.table (columns :: _)) own
  · refine CsvLog.read_text own fun row member => ?_
    obtain ⟨part, owner, present⟩ := merges.exists_part (List.mem_append_left _ member)
    obtain ⟨c, -, rfl⟩ := List.mem_map.1 owner
    exact ⟨c.logged, present⟩
  · have length := merges.length_eq complete
    rw [List.length_append] at length
    exact List.eq_nil_of_length_eq_zero (by omega)
  · rwa [drained, List.filterMap_nil, List.append_nil] at merges
  · intro guarded
    have quiet := (quiet_start path columns allowed calls).after initial guarded
    rw [← run] at quiet
    have count := sound.carries.undone
    have none : s.queued.undone = 0 := quiet.idle (quiet.told (.inr gone))
    refine List.eq_nil_of_length_eq_zero ?_
    change s.queued.undone = s.queued.queue.length + _ at count
    omega

/-- Two callers log an event each, and one of them closes the log when both are in the queue. -/
theorem keeps_rows_of_two :
    let event (type : String) : LogCall := .log ⟨2024, 1, 2, 3, 4, 5, 0⟩ type []
    let calls := [[event "start"], [event "end", .close]]
    let schedule := [[.caller 0, .caller 1, .caller 1, .caller 0, .caller 1],
      List.replicate 8 .writer, [.caller 1, .caller 1, .writer, .writer, .caller 1]].flatten
    let s := (start "events.csv" [] [] calls).after schedule
    let l := CsvLog.create "events.csv" [] []
    (∀ c ∈ s.callers, c.place = .ready) ∧ (∃ c ∈ s.callers, c.hasClosed = true) ∧
    s.callers.map (fun c => c.returned.map (·.1) ++ c.pending) = calls ∧
    (l.columns = renderColumns ∧
      s.queued.log.text = Csv.table (l.columns :: s.queued.log.rows) ∧
      Csv.read s.queued.log.text = l.columns :: s.queued.log.rows) ∧
    (∀ c : Caller, l.rowsOf c.logged = LogCall.rows renderColumns [] c.accepted) ∧
    Merges (s.callers.map fun c => l.rowsOf c.logged)
      (s.queued.log.rows ++ s.queued.queue.filterMap s.queued.log.record?) ∧
    (Merges (s.callers.map fun c => l.rowsOf c.logged) s.queued.log.rows ↔ s.queued.queue = []) ∧
    ((∀ before, before <+: schedule → ((start "events.csv" [] [] calls).after before).Guarded) →
      s.queued.queue = []) := by
  intro event calls schedule s l
  have ready : ∀ c ∈ s.callers, c.place = .ready := by decide +kernel
  have closing : ∃ c ∈ s.callers, c.hasClosed = true := by decide +kernel
  exact ⟨ready, closing, keeps_rows "events.csv" [] [] calls schedule rfl ready closing⟩

/-- A row is lost whose caller found the log open and is overtaken by the closing of another one,
though the caller has logged its event without an error. -/
theorem loses_overtaken_row :
    let event : LogCall := .log ⟨2024, 1, 2, 3, 4, 5, 0⟩ "render" []
    let s := (start "events.csv" ["timestamp", "event_type"] [] [[event], [.close]]).after
      [.caller 0, .caller 1, .caller 1, .caller 1, .writer, .writer, .caller 1, .caller 0]
    (∀ c ∈ s.callers, c.place = .ready) ∧ (∃ c ∈ s.callers, c.hasClosed = true) ∧
    (s.callers.map fun c => s.queued.log.rowsOf c.logged) =
      [[["2024-01-02T03:04:05", "render"]], []] ∧
    s.queued.log.rows = [] ∧
    ¬ Merges (s.callers.map fun c => s.queued.log.rowsOf c.logged) s.queued.log.rows := by
  intro event s
  have rows : s.queued.log.rows = [] := by decide +kernel
  have logged : (s.callers.map fun c => s.queued.log.rowsOf c.logged) =
    [[["2024-01-02T03:04:05", "render"]], []] := by decide +kernel
  refine ⟨by decide +kernel, by decide +kernel, logged, rows, ?_⟩
  rw [rows, logged]
  rintro ⟨journal, whole, each⟩
  rw [List.map_eq_nil_iff] at whole
  have lost := each 0
  rw [whole] at lost
  cases lost

end SharedLog

end ExpressionArt
