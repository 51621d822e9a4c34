import ExpressionArt.Timing.Timings

/-!
# Profiles

Timed calls. While timing is on, a call with a key measures how far the clock moves before it
ends, by a result or by a failure. Only the outermost of nested calls with one key is measured.
-/

namespace ExpressionArt

structure Profile where
  enabled : Bool := false
  clock : Float := 0
  /-- The keys of the timed calls under way, innermost first. -/
  active : List String := []
  timings : Timings := []

/-- A computation that may fail and is profiled; the profile outlives the failure. -/
abbrev Timed (ε α : Type) := ExceptT ε (StateM Profile) α

namespace Profile

def enter (p : Profile) (key : String) : Profile := { p with active := key :: p.active }

/-- Ends a call with this key that started at `start`; only an outermost call is recorded. -/
def leave (p : Profile) (key : String) (start : Float) (outermost : Bool) : Profile :=
  { p with
    active := p.active.erase key
    timings := if outermost then p.timings.record key (p.clock - start) else p.timings }

def tick (p : Profile) (amount : Float) : Profile := { p with clock := p.clock + amount }

end Profile

/-- A call under a key. -/
def timed {ε α : Type} (key : String) (body : Timed ε α) : Timed ε α := ExceptT.mk fun p =>
  if p.enabled then
    let (result, q) := body.run (p.enter key)
    (result, q.leave key p.clock (!p.active.contains key))
  else body.run p

/-- What is known without being measured. -/
def untimed {ε α : Type} (result : Except ε α) : Timed ε α := ExceptT.mk (pure result)

theorem timed_of_disabled {ε α : Type} (key : String) (body : Timed ε α) (p : Profile)
    (h : p.enabled = false) : (timed key body).run p = body.run p := by
  simp [timed, ExceptT.run, ExceptT.mk, h]

end ExpressionArt
