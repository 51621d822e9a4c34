import ExpressionArt.Grammar.Termination

/-!
# Relaxation

How the termination analysis works inside. A pass looks up the counts that it needs, so a type that
is not listed ends it, and it notes whether it has lowered any count. Passes follow one another for
as long as they lower something; nothing bounds their number.
-/

namespace ExpressionArt

/-- The steps of a type that has to be listed. -/
def StepTable.find (t : StepTable) (type : String) : Except UnlistedType Steps :=
  match t.lookup type with
  | some s => .ok s
  | none => .error ⟨type⟩

namespace Termination

variable {ω : Type}

/-- The steps of a production. Its arguments are looked up from left to right. -/
def findSteps (t : StepTable) (p : Production ω) : Except UnlistedType Steps := do
  if p.isTerminal then return .finite 0
  let steps ← p.args.mapM t.find
  return (steps.foldl Steps.max (.finite 0)).succ

/-- Lowers the count of one type, if one of its productions does better. The flag tells whether
anything was lowered so far. -/
def visit (state : StepTable × Bool) (row : String × List (Production ω)) :
    Except UnlistedType (StepTable × Bool) := do
  let steps ← row.2.mapM (findSteps state.1)
  let s := steps.foldl Steps.min .infinite
  return if s.lt (state.1.get row.1) then (state.1.lower row.1 s, true) else state

/-- A pass that looks up each count it needs. -/
def sweep (table : Table ω) (t : StepTable) : Except UnlistedType (StepTable × Bool) :=
  table.foldlM visit (t, false)

/-- Passes over the table until one lowers nothing: how many there are, and what they come to. -/
inductive Relaxes (table : Table ω) : StepTable → Nat → Except UnlistedType StepTable → Prop where
  | failed {t : StepTable} {e : UnlistedType} :
    sweep table t = .error e → Relaxes table t 1 (.error e)
  | settled {t t' : StepTable} : sweep table t = .ok (t', false) → Relaxes table t 1 (.ok t')
  | again {t t' : StepTable} {n : Nat} {r : Except UnlistedType StepTable} :
    sweep table t = .ok (t', true) → Relaxes table t' n r → Relaxes table t (n + 1) r

end Termination

end ExpressionArt
