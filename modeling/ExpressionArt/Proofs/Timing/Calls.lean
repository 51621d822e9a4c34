import ExpressionArt.Proofs.Outcome
import ExpressionArt.Proofs.Timing.Stages
import ExpressionArt.Proofs.Timing.Tables

/-!
# Timed calls, however they nest

Timing is transparent. Whatever functions call each other under whatever keys, whichever of them
fail, and wherever timing is turned on or off on the way, each call comes to what it would come to
untimed, every key is left at the depth it had, and the durations taken are those of the calls that
are inside no other one with their key. All of this is one equation for a run from any profile.
-/

namespace ExpressionArt

/-- What a function sees of a profile. -/
structure Dials where
  clock : Float
  enabled : Bool

def Profile.dials (p : Profile) : Dials := ⟨p.clock, p.enabled⟩

/-- The number of timed calls with a key that are under way. -/
def Profile.depth (p : Profile) (key : String) : Nat := p.active.count key

/-- What a function does: it ends, lets time pass, turns timing on or off, looks at the dials, or
calls another function under a key and goes on with what that came to, be it a failure. -/
inductive Routine (ε : Type) : Type → Type 1 where
  | done {α : Type} (result : Except ε α) : Routine ε α
  | tick {α : Type} (amount : Float) (rest : Routine ε α) : Routine ε α
  | turn {α : Type} (enabled : Bool) (rest : Routine ε α) : Routine ε α
  | look {α : Type} (next : Dials → Routine ε α) : Routine ε α
  | call {α β : Type} (key : String) (body : Routine ε β) (next : Except ε β → Routine ε α) :
    Routine ε α

/-- Some calls in the order in which they began: the first one, those inside it and those behind
it. -/
inductive Calls where
  | none
  | call (key : String) (timed : Bool) (start finish : Float) (inner later : Calls)

/-- One measurement for each timed call that is inside no other timed one with its key, in the order
in which the calls end. Around all of them are calls with the keys `around`. -/
def Calls.measurements (around : List String) : Calls → List (String × Float)
  | .none => []
  | .call key timed start finish inner later =>
    inner.measurements (if timed then key :: around else around) ++
      (if timed && !around.contains key then [(key, finish - start)] else []) ++
      later.measurements around

/-- A computation whose failure is handed on as a value. -/
def attempt {ε α : Type} (t : Timed ε α) : Timed ε (Except ε α) := ExceptT.mk fun p =>
  (.ok (t.run p).1, (t.run p).2)

namespace Routine

variable {ε α β : Type}

/-- Runs a routine, every call of it timed. -/
def run {ε α : Type} : Routine ε α → Timed ε α
  | .done result => untimed result
  | .tick amount rest => do
    modify (Profile.tick · amount)
    rest.run
  | .turn enabled rest => do
    modify ({ · with enabled })
    rest.run
  | .look next => do (next (← get).dials).run
  | .call key body next => do (next (← attempt (timed key body.run))).run

/-- What a routine comes to with nothing timed, and the dials it leaves. -/
def plain {ε α : Type} : Routine ε α → Dials → Except ε α × Dials
  | .done result, d => (result, d)
  | .tick amount rest, d => rest.plain { d with clock := d.clock + amount }
  | .turn enabled rest, d => rest.plain { d with enabled }
  | .look next, d => (next d).plain d
  | .call _ body next, d => (next (body.plain d).1).plain (body.plain d).2

/-- The calls that a routine makes. One is timed if timing is on as it begins. -/
def calls {ε α : Type} : Routine ε α → Dials → Calls
  | .done _, _ => .none
  | .tick amount rest, d => rest.calls { d with clock := d.clock + amount }
  | .turn enabled rest, d => rest.calls { d with enabled }
  | .look next, d => (next d).calls d
  | .call key body next, d =>
    .call key d.enabled d.clock (body.plain d).2.clock (body.calls d)
      ((next (body.plain d).1).calls (body.plain d).2)

end Routine

/-! ## Profiles after a run -/

namespace Profile

/-- A profile that shows other dials and has taken some measurements more. -/
def settle (p : Profile) (d : Dials) (ms : List (String × Float)) : Profile :=
  { p with clock := d.clock, enabled := d.enabled, timings := p.timings.recordAll ms }

theorem settle_settle (p : Profile) (d d' : Dials) (ms ms' : List (String × Float)) :
    (p.settle d ms).settle d' ms' = p.settle d' (ms ++ ms') := by
  simp only [settle, Timings.recordAll_append]

theorem dials_settle (p : Profile) (d : Dials) (ms : List (String × Float)) :
    (p.settle d ms).dials = d := rfl

/-- A call takes its key away again, and a measurement if it was the outermost with that key. -/
theorem leave_settle (p : Profile) (key : String) (d : Dials) (ms : List (String × Float)) :
    ((p.enter key).settle d ms).leave key p.clock (!p.active.contains key) =
      p.settle d (ms ++ if !p.active.contains key then [(key, d.clock - p.clock)] else []) := by
  have ended : (key :: p.active).erase key = p.active := List.erase_cons_head ..
  simp only [leave, enter, settle, ended, Timings.recordAll_append]
  split <;> rfl

end Profile

namespace Routine

variable {ε α β : Type}

/-- A call whose body runs as it should, over any profile. -/
theorem timed_run {body : Routine ε β} {p : Profile} (key : String)
    (inner : ∀ p : Profile, body.run.run p = ((body.plain p.dials).1,
      p.settle (body.plain p.dials).2 ((body.calls p.dials).measurements p.active))) :
    (timed key body.run).run p = ((body.plain p.dials).1, p.settle (body.plain p.dials).2
      ((Calls.call key p.enabled p.clock (body.plain p.dials).2.clock (body.calls p.dials)
        .none).measurements p.active)) := by
  cases on : p.enabled with
  | false =>
    rw [timed_of_disabled key body.run p on, inner]
    simp [Calls.measurements]
  | true =>
    have wrapped : (timed key body.run).run p = ((body.run.run (p.enter key)).1,
        (body.run.run (p.enter key)).2.leave key p.clock (!p.active.contains key)) := by
      change (if p.enabled then _ else _) = _
      rw [if_pos on]
      rfl
    rw [wrapped, inner, Profile.leave_settle]
    simp [Calls.measurements, Profile.dials, Profile.enter, on]

/-- A run comes to what the routine comes to untimed, keeps the calls under way as they were, and
takes the measurements of the routine's calls inside those. -/
theorem run_eq (r : Routine ε α) (p : Profile) :
    r.run.run p = ((r.plain p.dials).1,
      p.settle (r.plain p.dials).2 ((r.calls p.dials).measurements p.active)) := by
  induction r generalizing p with
  | done result => rfl
  | tick amount rest ih => exact ih (p.tick amount)
  | turn enabled rest ih => exact ih { p with enabled }
  | look next ih => exact ih p.dials p
  | call key body next ihBody ihNext =>
    change (next ((timed key body.run).run p).1).run.run ((timed key body.run).run p).2 = _
    rw [timed_run key ihBody, ihNext, Profile.settle_settle, Profile.dials_settle]
    simp [plain, calls, Calls.measurements, Profile.dials, Profile.settle]

/-- From a profile with no call under way, a run comes to what the routine comes to untimed. It adds
one duration for each timed call that is inside no other with its key, as the calls end: to each key
those of its own calls, behind what it had, and keys that had none come up in that order. It leaves
no call under way. Every call, wherever it is made, comes to what its body comes to untimed, shows
the same dials behind it and leaves each key at the depth it had. -/
theorem run_idle (r : Routine ε α) (p : Profile) (idle : ∀ key, p.depth key = 0) :
    let q := (r.run.run p).2
    let ms := (r.calls p.dials).measurements []
    (r.run.run p).1 = (r.plain p.dials).1 ∧
    (∀ key, q.timings.durationsOf key =
      p.timings.durationsOf key ++ (ms.filter (·.1 = key)).map (·.2)) ∧
    q.timings.names =
      p.timings.names ++ ((ms.map (·.1)).filter (· ∉ p.timings.names)).eraseDups ∧
    (∀ key, q.depth key = 0) ∧
    ∀ (γ : Type) (key : String) (body : Routine ε γ) (q : Profile),
      ((timed key body.run).run q).1 = (body.plain q.dials).1 ∧
      ((timed key body.run).run q).2.dials = (body.plain q.dials).2 ∧
      ∀ k, ((timed key body.run).run q).2.depth k = q.depth k := by
  intro q ms
  have none : p.active = [] := List.eq_nil_iff_forall_not_mem.2 fun key =>
    List.count_eq_zero.1 (idle key)
  have settled : r.run.run p = ((r.plain p.dials).1, p.settle (r.plain p.dials).2 ms) := by
    rw [run_eq, none]
  have left : q = p.settle (r.plain p.dials).2 ms := congrArg Prod.snd settled
  rw [settled, left]
  refine ⟨rfl, fun key => p.timings.durationsOf_recordAll key ms, p.timings.names_recordAll ms,
    idle, fun γ key body q => ?_⟩
  rw [timed_run key body.run_eq]
  exact ⟨rfl, rfl, fun k => rfl⟩

/-- `alpha` calls itself through `beta`, turns timing off and fails. The outer `alpha` catches that,
calls `beta` once more untimed, and turns timing on again. -/
def pingPong : Routine String Int :=
  let innermost : Routine String Int := .tick 3 (.turn false (.done (.error "bottom")))
  let middle : Routine String Int := .tick 2 (.call "alpha" innermost .done)
  let caught : Routine String Int := .call "beta" (.tick 4 (.done (.ok 0))) fun r =>
    .turn true (.done r)
  .call "alpha" (.tick 1 (.call "beta" middle fun _ => caught)) .done

theorem run_pingPong :
    let q := (pingPong.run.run { enabled := true }).2
    (∀ key, ({ enabled := true } : Profile).depth key = 0) ∧
    (pingPong.run.run { enabled := true }).1 = .ok 0 ∧
    q.timings.durationsOf "beta" = [0 + 1 + 2 + 3 - (0 + 1)] ∧
    q.timings.durationsOf "alpha" = [0 + 1 + 2 + 3 + 4 - 0] ∧
    q.timings.names = ["beta", "alpha"] ∧
    ∀ key, q.depth key = 0 := by
  intro q
  have idle : ∀ key, ({ enabled := true } : Profile).depth key = 0 := fun key => rfl
  obtain ⟨result, durations, names, depth, -⟩ := run_idle pingPong { enabled := true } idle
  exact ⟨idle, result, durations "beta", durations "alpha", names, depth⟩

/-! ## Drawing -/

/-- A call whose failure ends the caller too. -/
def callThen (key : String) (body : Routine ε β) (next : β → Routine ε α) : Routine ε α :=
  .call key body fun
    | .error e => .done (.error e)
    | .ok b => next b

theorem run_callThen (key : String) (body : Routine ε β) (next : β → Routine ε α) :
    (callThen key body next).run = timed key body.run >>= fun b => (next b).run := by
  funext p
  refine .trans ?_ (run_bind (timed key body.run) (fun b => (next b).run) p).symm
  change (Routine.run (match ((timed key body.run).run p).1 with
    | .error e => .done (.error e)
    | .ok b => next b)).run ((timed key body.run).run p).2 = _
  rcases (timed key body.run).run p with ⟨_ | b, q⟩ <;> rfl

end Routine

namespace Generator

/-- Drawing as a routine: three calls, none of which goes on when the one before failed. -/
def routine (g : Generator) (seed : Int) (size : Size) :
    Routine DrawError (Expr (Option Operation) × Picture) :=
  .callThen Stage.synthesis (.done ((g.grow seed).mapError .synthesis)) fun e =>
    match worded e with
    | .error err => .done (.error err)
    | .ok e => .callThen Stage.compilation (.done (.ok e.compile)) fun program =>
      .callThen Stage.rendering
        (.done ((Picture.renderHeld program.callGrid size g.epsilon).mapError .render))
        fun picture => .done (.ok (e, picture))

theorem run_routine (g : Generator) (seed : Int) (size : Size) :
    (g.routine seed size).run = g.drawSeedTimed seed size := by
  rw [routine, Routine.run_callThen, drawSeedTimed]
  congr 1
  funext e
  cases worded e with
  | error err => rfl
  | ok e =>
    change (Routine.callThen ..).run = timed Stage.compilation _ >>= _
    rw [Routine.run_callThen]
    congr 1
    funext program
    exact Routine.run_callThen ..

/-- With timing on, a picture that is drawn measures each of its stages once, in their order. -/
theorem drawSeedTimed_timings {g : Generator} {seed : Int} {size : Size} {p : Profile}
    {drawn : Expr (Option Operation) × Picture} (h : g.drawSeed seed size = .ok drawn)
    (on : p.enabled = true) (idle : p.active = []) :
    ((g.drawSeedTimed seed size).run p).2.timings = p.timings.recordAll
      ([Stage.synthesis, Stage.compilation, Stage.rendering].map (·, p.clock - p.clock)) := by
  obtain ⟨e, synthesized, painted⟩ := bind_eq_ok.1 h
  obtain ⟨picture, painted, -⟩ := bind_eq_ok.1 painted
  obtain ⟨grown, grew, kept⟩ := bind_eq_ok.1 synthesized
  have stages : (g.routine seed size).calls p.dials =
      .call Stage.synthesis true p.clock p.clock .none (.call Stage.compilation true p.clock p.clock
        .none (.call Stage.rendering true p.clock p.clock .none .none)) := by
    rw [paint] at painted
    simp [routine, Routine.callThen, Routine.calls, Routine.plain, grew, kept, painted,
      Profile.dials, on]
  rw [← run_routine, Routine.run_eq, stages, idle]
  rfl

end Generator

end ExpressionArt
