import ExpressionArt.Proofs.Events.Sinks
import Mathlib.Data.List.TakeWhile

/-!
# Fan-out

An event sent to several sinks reaches those ahead of the first closed CSV log, which refuses it,
and none behind. Closing reaches every sink, and only CSV logs are closed by it. So up to the first
closing every sink is told of every event, and from then on only the sinks ahead of the first CSV
log are.
-/

namespace ExpressionArt

namespace Sink

variable {s : Sink} {w : Surroundings} {e : Event}

def isCsv : Sink → Bool
  | .csv _ => true
  | _ => false

/-- How a sink refuses events, if it does. -/
def refusal? : Sink → Option ClosedLog
  | .csv log => if log.closed then some ⟨log.path⟩ else none
  | _ => none

def accepts (s : Sink) : Bool := s.refusal?.isNone

theorem isOpen_iff : s.IsOpen ↔ s.accepts := by
  cases s <;> simp [IsOpen, accepts, refusal?]

theorem isOpen_of_not_isCsv (h : s.isCsv = false) : s.IsOpen := by
  cases s with
  | csv log => cases h
  | _ => trivial

theorem take_refused {failure : ClosedLog} (h : s.refusal? = some failure) :
    s.take w e = .error failure := by
  cases s with
  | csv log =>
    cases closed : log.closed with
    | false => simp [refusal?, closed] at h
    | true =>
      rw [refusal?, if_pos closed, Option.some.injEq] at h
      rw [take, CsvLog.log, if_pos closed, ← h]
      rfl
  | _ => cases h

/-- A CSV log is open until it is closed, and then it stays closed. Other sinks are never closed. -/
theorem refusal?_close : s.close.refusal?.isSome = s.isCsv := by
  cases s <;> rfl

@[simp] theorem isCsv_told : (s.told w e).isCsv = s.isCsv := by cases s <;> rfl

@[simp] theorem isCsv_close : s.close.isCsv = s.isCsv := by cases s <;> rfl

@[simp] theorem refusal?_told : (s.told w e).refusal? = s.refusal? := by cases s <;> rfl

end Sink

/-- An event reaches open sinks up to the first sink that refuses it. -/
theorem deliver_append (w : Surroundings) (e : Event) {ahead behind : List Sink}
    (opened : ∀ s ∈ ahead, s.IsOpen) (refused : ∀ s ∈ behind.head?, s.refusal?.isSome) :
    deliver w e (ahead ++ behind) = ⟨ahead.map (·.told w e) ++ behind,
      ahead.flatMap (·.printed w e), behind.findSome? (·.refusal?)⟩ := by
  induction ahead with
  | nil =>
    cases behind with
    | nil => rfl
    | cons s behind =>
      obtain ⟨failure, h⟩ := Option.isSome_iff_exists.1 (refused s rfl)
      rw [List.nil_append, deliver, Sink.take_refused h]
      simp [h]
  | cons s ahead ih =>
    obtain ⟨first, rest⟩ := List.forall_mem_cons.1 opened
    rw [List.cons_append, deliver, Sink.take_eq_ok first]
    simp [ih rest]

/-- The same for any sinks, split at the first that refuses events. -/
theorem deliver_eq_split (w : Surroundings) (e : Event) (sinks : List Sink) :
    deliver w e sinks = ⟨(sinks.takeWhile Sink.accepts).map (·.told w e) ++
        sinks.dropWhile Sink.accepts,
      (sinks.takeWhile Sink.accepts).flatMap (·.printed w e),
      sinks.findSome? (·.refusal?)⟩ := by
  have opened : ∀ s ∈ sinks.takeWhile Sink.accepts, s.IsOpen :=
    fun s member => Sink.isOpen_iff.2 (List.mem_takeWhile_imp member)
  have refused : ∀ s ∈ (sinks.dropWhile Sink.accepts).head?, s.refusal?.isSome := by
    intro s head
    have stops := List.head?_dropWhile_not Sink.accepts sinks
    rw [Option.mem_def.1 head] at stops
    simpa [Sink.accepts] using stops
  have none : (sinks.takeWhile Sink.accepts).findSome? (·.refusal?) = none :=
    List.findSome?_eq_none_iff.2 fun s member =>
      Option.isNone_iff_eq_none.1 (List.mem_takeWhile_imp (p := Sink.accepts) member)
  have failure : sinks.findSome? (·.refusal?) =
      (sinks.dropWhile Sink.accepts).findSome? (·.refusal?) := by
    rw [← List.takeWhile_append_dropWhile (p := Sink.accepts) (l := sinks), List.findSome?_append,
      none, Option.none_or, List.takeWhile_append_dropWhile]
  have whole := deliver_append w e opened refused
  rwa [List.takeWhile_append_dropWhile, ← failure] at whole

/-- What several sinks are asked to do. -/
inductive FanCall where
  | log (w : Surroundings) (e : Event)
  | close

namespace FanCall

def isClose : FanCall → Bool
  | .log .. => false
  | .close => true

/-- Several sinks after a call. -/
def run : FanCall → List Sink → List Sink
  | .log w e, sinks => (deliver w e sinks).sinks
  | .close, sinks => closeAll sinks

/-- One sink after a call that reaches it. -/
def reach : FanCall → Sink → Sink
  | .log w e, s => s.told w e
  | .close, s => s.close

/-- The events of some calls. -/
def events (calls : List FanCall) : List Event :=
  calls.filterMap fun
    | .log _ e => some e
    | .close => none

end FanCall

namespace Sink

/-- Several sinks after some calls. -/
def after (sinks : List Sink) (calls : List FanCall) : List Sink :=
  calls.foldl (fun sinks call => call.run sinks) sinks

/-- One sink after some calls that reach it. -/
def reached (s : Sink) (calls : List FanCall) : Sink := calls.foldl (fun s call => call.reach s) s

variable {s : Sink} {sinks ahead behind : List Sink} {calls : List FanCall}

/-- While no sink refuses events, every call reaches every sink. -/
theorem after_of_open (opened : ∀ s ∈ sinks, s.IsOpen) (logs : .close ∉ calls) :
    after sinks calls = sinks.map (·.reached calls) := by
  induction calls generalizing sinks with
  | nil => exact (List.map_id sinks).symm
  | cons call calls ih =>
    rw [List.mem_cons, not_or] at logs
    cases call with
    | close => exact absurd rfl logs.1
    | log w e =>
      rw [after, List.foldl_cons, FanCall.run, deliver_eq w e opened]
      exact (ih (open_told opened e) logs.2).trans (List.map_map ..)

/-- Once all CSV logs are closed, the first of them keeps events from itself and from all behind. -/
theorem after_of_shut (plain : ∀ s ∈ ahead, s.isCsv = false)
    (first : ∀ s ∈ behind.head?, s.isCsv) (shut : ∀ s ∈ behind, s.isCsv → s.refusal?.isSome)
    (calls : List FanCall) :
    after (ahead ++ behind) calls =
      ahead.map (·.reached calls) ++ behind.map (·.reached (calls.filter FanCall.isClose)) := by
  induction calls generalizing ahead behind with
  | nil => simp [after, reached]
  | cons call calls ih =>
    rw [after, List.foldl_cons]
    cases call with
    | log w e =>
      have opened : ∀ s ∈ ahead, s.IsOpen :=
        fun s member => isOpen_of_not_isCsv (plain s member)
      have refused : ∀ s ∈ behind.head?, s.refusal?.isSome :=
        fun s head => shut s (List.mem_of_mem_head? head) (first s head)
      have plain' : ∀ s ∈ ahead.map (·.told w e), s.isCsv = false :=
        List.forall_mem_map.2 fun s member => isCsv_told.trans (plain s member)
      rw [FanCall.run, deliver_append w e opened refused,
        List.filter_cons_of_neg (by simp [FanCall.isClose])]
      exact (ih plain' first shut).trans (congrArg (· ++ _) (List.map_map ..))
    | close =>
      have plain' : ∀ s ∈ ahead.map close, s.isCsv = false :=
        List.forall_mem_map.2 fun s member => isCsv_close.trans (plain s member)
      have first' : ∀ s ∈ (behind.map close).head?, s.isCsv := by
        simpa [List.head?_map] using first
      have shut' : ∀ s ∈ behind.map close, s.isCsv → s.refusal?.isSome :=
        List.forall_mem_map.2 fun s _ csv => refusal?_close.trans (isCsv_close.symm.trans csv)
      rw [FanCall.run, closeAll, List.map_append, List.filter_cons_of_pos rfl]
      refine (ih plain' first' shut').trans ?_
      rw [List.map_map, List.map_map]
      rfl

/-- After a call the same sinks are CSV logs. -/
theorem map_isCsv_run (sinks : List Sink) (call : FanCall) :
    (call.run sinks).map isCsv = sinks.map isCsv := by
  cases call with
  | log w e =>
    have same : isCsv ∘ (·.told w e) = isCsv := funext fun s => isCsv_told
    rw [FanCall.run, deliver_eq_split, List.map_append, List.map_map, same, ← List.map_append,
      List.takeWhile_append_dropWhile]
  | close =>
    rw [FanCall.run, closeAll, List.map_map]
    exact List.map_congr_left fun s _ => isCsv_close

theorem map_isCsv_after (sinks : List Sink) (calls : List FanCall) :
    (after sinks calls).map isCsv = sinks.map isCsv := by
  induction calls generalizing sinks with
  | nil => rfl
  | cons call calls ih => exact (ih _).trans (map_isCsv_run sinks call)

theorem findIdx_isCsv_after (sinks : List Sink) (calls : List FanCall) :
    (after sinks calls).findIdx isCsv = sinks.findIdx isCsv := by
  have through (sinks : List Sink) : sinks.findIdx isCsv = (sinks.map isCsv).findIdx id := by
    rw [List.findIdx_map]
    rfl
  rw [through, through sinks, map_isCsv_after]

/-- A call leaves CSV logs closed that are closed. -/
theorem shut_run (shut : ∀ s ∈ sinks, s.isCsv → s.refusal?.isSome) (call : FanCall) :
    ∀ s ∈ call.run sinks, s.isCsv → s.refusal?.isSome := by
  cases call with
  | log w e =>
    rw [FanCall.run, deliver_eq_split]
    intro s member
    obtain told | kept := List.mem_append.1 member
    · obtain ⟨s, ahead, rfl⟩ := List.mem_map.1 told
      rw [isCsv_told, refusal?_told]
      exact shut s (List.takeWhile_subset _ ahead)
    · exact shut s (List.dropWhile_subset _ kept)
  | close => exact List.forall_mem_map.2 fun s _ csv => refusal?_close.trans (isCsv_close ▸ csv)

/-- After a closing all CSV logs are closed. -/
theorem shut_after (closed : .close ∈ calls) (sinks : List Sink) :
    ∀ s ∈ after sinks calls, s.isCsv → s.refusal?.isSome := by
  have stays (calls : List FanCall) (sinks : List Sink)
      (shut : ∀ s ∈ sinks, s.isCsv → s.refusal?.isSome) :
      ∀ s ∈ after sinks calls, s.isCsv → s.refusal?.isSome := by
    induction calls generalizing sinks with
    | nil => exact shut
    | cons call calls ih => exact ih _ (shut_run shut call)
  obtain ⟨before, behind, rfl⟩ := List.append_of_mem closed
  rw [after, List.foldl_append, List.foldl_cons]
  refine stays behind _ (List.forall_mem_map.2 fun s _ csv => ?_)
  exact refusal?_close.trans (isCsv_close ▸ csv)

/-- A closing leaves a closed CSV log as it is. -/
theorem reached_shut (csv : s.isCsv) (shut : s.refusal?.isSome) (calls : List FanCall) :
    s.reached (calls.filter FanCall.isClose) = s := by
  have closed : s.close = s := by
    cases s with
    | csv log =>
      obtain ⟨path, columns, allowed, rows, closed⟩ := log
      cases closed with
      | true => rfl
      | false => cases shut
    | _ => cases csv
  induction calls with
  | nil => rfl
  | cons call calls ih =>
    cases call with
    | log w e => exact ih
    | close =>
      have here : (FanCall.close :: calls).filter FanCall.isClose =
          .close :: calls.filter FanCall.isClose := List.filter_cons_of_pos rfl
      rw [here]
      exact (congrArg (reached · _) closed).trans ih

/-- A recorder keeps every event that reaches it before it is closed. -/
theorem reached_recorder (logs : .close ∉ calls) (entries : List Entry) :
    (recorder entries).reached calls =
      .recorder (entries ++ (FanCall.events calls).map .event) := by
  induction calls generalizing entries with
  | nil => simp [reached, FanCall.events]
  | cons call calls ih =>
    rw [List.mem_cons, not_or] at logs
    cases call with
    | close => exact absurd rfl logs.1
    | log w e =>
      refine (ih logs.2 (entries ++ [.event e])).trans ?_
      simp [FanCall.events]

/-- Once all CSV logs are closed, a sink ahead of the first of them is reached by every call, and
any other one by closings only. -/
theorem getElem?_after_of_shut (shut : ∀ s ∈ sinks, s.isCsv → s.refusal?.isSome)
    (calls : List FanCall) (i : Nat) : (after sinks calls)[i]? = sinks[i]?.map fun s => s.reached
      (if i < sinks.findIdx isCsv then calls else calls.filter FanCall.isClose) := by
  have plain : ∀ s ∈ sinks.take (sinks.findIdx isCsv), s.isCsv = false := by
    intro s member
    obtain ⟨j, bound, rfl⟩ := List.mem_take_iff_getElem.1 member
    exact List.not_of_lt_findIdx (by omega)
  have first : ∀ s ∈ (sinks.drop (sinks.findIdx isCsv)).head?, s.isCsv := by
    intro s head
    rw [List.head?_drop, Option.mem_def, List.getElem?_eq_some_iff] at head
    obtain ⟨bound, rfl⟩ := head
    exact List.findIdx_getElem
  have split := after_of_shut plain first
    (fun s member => shut s (List.mem_of_mem_drop member)) calls
  rw [List.take_append_drop] at split
  have length : ((sinks.take (sinks.findIdx isCsv)).map (·.reached calls)).length =
      sinks.findIdx isCsv := by
    rw [List.length_map, List.length_take, Nat.min_eq_left List.findIdx_le_length]
  rw [split]
  split_ifs with ahead
  · rw [List.getElem?_append_left (by omega), List.getElem?_map, List.getElem?_take_of_lt ahead]
  · rw [List.getElem?_append_right (by omega), length, List.getElem?_map, List.getElem?_drop,
      Nat.add_sub_cancel' (Nat.le_of_not_lt ahead)]

/-- Whatever calls were made, an event reaches the sinks ahead of the first closed CSV log, in
order; if there is such a log it refuses the event, and neither it nor any sink behind it changes. A
closing reaches every sink. Up to the first closing, sinks that were open have been reached by every
call, so that all recorders have the same events. From then on CSV logs stay as they are, the sinks
ahead of the first of them are reached by every call, and all others by closings only. -/
theorem fan_out (sinks : List Sink) (calls : List FanCall) :
    let now := after sinks calls
    (∀ w e,
      deliver w e now = ⟨(now.takeWhile accepts).map (·.told w e) ++ now.dropWhile accepts,
        (now.takeWhile accepts).flatMap (·.printed w e), now.findSome? (·.refusal?)⟩ ∧
      ∀ s ∈ now.takeWhile accepts, s.take w e = .ok (s.told w e, s.printed w e)) ∧
    closeAll now = now.map close ∧
    ((∀ s ∈ sinks, s.IsOpen) → .close ∉ calls →
      now = sinks.map (·.reached calls) ∧
      ∀ (i : Nat) entries, sinks[i]? = some (.recorder entries) →
        now[i]? = some (.recorder (entries ++ (FanCall.events calls).map .event))) ∧
    (.close ∈ calls → ∀ (later : List FanCall) (i : Nat) s, now[i]? = some s →
      (after now later)[i]? = some (s.reached
        (if i < sinks.findIdx isCsv then later else later.filter FanCall.isClose)) ∧
      (s.isCsv → s.refusal?.isSome ∧ (after now later)[i]? = some s)) := by
  intro now
  refine ⟨fun w e => ⟨deliver_eq_split w e now, fun s member => ?_⟩, rfl, ?_, ?_⟩
  · exact take_eq_ok (isOpen_iff.2 (List.mem_takeWhile_imp member)) w e
  · intro opened logs
    have all : now = sinks.map (·.reached calls) := after_of_open opened logs
    refine ⟨all, fun i entries recorder => ?_⟩
    rw [all, List.getElem?_map, recorder, Option.map_some, reached_recorder logs]
  · intro closed later i s member
    have shut := shut_after closed sinks
    have now_shut := getElem?_after_of_shut shut later i
    rw [findIdx_isCsv_after] at now_shut
    rw [now_shut, member]
    refine ⟨rfl, fun csv => ?_⟩
    have refused := shut s (List.mem_of_getElem? member) csv
    have behind : ¬ i < sinks.findIdx isCsv := by
      obtain ⟨bound, rfl⟩ := List.getElem?_eq_some_iff.1 member
      rw [← findIdx_isCsv_after sinks calls]
      exact fun ahead => Bool.false_ne_true ((List.not_of_lt_findIdx ahead).symm.trans csv)
    rw [if_neg behind, Option.map_some, reached_shut csv refused]
    exact ⟨refused, rfl⟩

/-- After a closing a recorder ahead of a CSV log has a further event, and one behind it has not. -/
theorem fan_out_around_log :
    let sinks : List Sink := [.recorder [], .csv (.create "log.csv" [] []), .recorder []]
    let e : Event := ⟨"render", []⟩
    let w : Surroundings := ⟨⟨2024, 1, 31, 8, 30, 0, 0⟩, .info⟩
    let now := after sinks [.log w e, .close]
    FanCall.close ∈ [.log w e, .close] ∧
    (after now [.log w e])[0]? = some (.recorder [.event e, .closed, .event e]) ∧
    (after now [.log w e])[1]? = now[1]? ∧
    (after now [.log w e])[2]? = some (.recorder [.event e, .closed]) := by
  intro sinks e w now
  have closed : FanCall.close ∈ [.log w e, .close] := by simp
  obtain ⟨-, -, -, stays⟩ := fan_out sinks [.log w e, .close]
  refine ⟨closed, ?_, ?_, ?_⟩
  · exact (stays closed [.log w e] 0 _ rfl).1
  · exact ((stays closed [.log w e] 1 _ rfl).2 rfl).2
  · exact (stays closed [.log w e] 2 _ rfl).1

end Sink

end ExpressionArt
