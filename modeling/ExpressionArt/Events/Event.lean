import ExpressionArt.Value

/-!
# Events

An event has a type and named data in the order in which names were first given. A moment
stamps it.
-/

namespace ExpressionArt

/-- Named values. A name occurs once, at its first place. -/
abbrev Fields := List (String × Value)

namespace Fields

/-- Gives a name a value, in place if the name is there already. -/
def put (fs : Fields) (name : String) (v : Value) : Fields :=
  if fs.any (·.1 == name) then fs.map fun f => if f.1 = name then (name, v) else f
  else fs ++ [(name, v)]

def ofPairs (pairs : List (String × Value)) : Fields :=
  pairs.foldl (fun fs (name, v) => put fs name v) []

end Fields

structure Event where
  type : String
  data : Fields

/-- A moment of a calendar and a clock. -/
structure Moment where
  year : Nat
  month : Nat
  day : Nat
  hour : Nat
  minute : Nat
  second : Nat
  micro : Nat := 0
deriving DecidableEq, Repr

namespace Moment

/-- The moment as a stamp; a fraction of a second shows only if there is one. -/
def stamp (m : Moment) : String :=
  let two := fun n => zeroPad 2 (toString n)
  zeroPad 4 (toString m.year) ++ "-" ++ two m.month ++ "-" ++ two m.day ++ "T" ++
    two m.hour ++ ":" ++ two m.minute ++ ":" ++ two m.second ++
    (if m.micro = 0 then "" else "." ++ zeroPad 6 (toString m.micro))

/-- The name of a run that starts at this moment. -/
def runName (m : Moment) : String :=
  let two := fun n => zeroPad 2 (toString n)
  "run_" ++ zeroPad 4 (toString m.year) ++ two m.month ++ two m.day ++ "_" ++
    two m.hour ++ two m.minute ++ two m.second

end Moment

end ExpressionArt
