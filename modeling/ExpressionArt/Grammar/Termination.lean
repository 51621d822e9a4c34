import ExpressionArt.Grammar.Production
import ExpressionArt.Grammar.Steps

/-!
# Termination analysis

The fewest expansion steps that complete an expression of each type. A terminal production
needs none, any other one more than the worst of its arguments, and a type as many as the best
of its productions. Types may refer to each other, so the counts are a least fixed point: all
start infinite and are lowered, pass after pass over the table, until a pass changes nothing.
-/

namespace ExpressionArt

/-- The productions of each type, types in order. -/
abbrev Table (ω : Type) := List (String × List (Production ω))

/-- The steps of each type of a table, in its order. -/
abbrev StepTable := List (String × Steps)

namespace StepTable

/-- The steps of a type. A type that is not listed is never completed. -/
def get (t : StepTable) (type : String) : Steps := (t.lookup type).getD .infinite

/-- The table with the count of `type` lowered to `s`, if `s` is less. -/
def lower (t : StepTable) (type : String) (s : Steps) : StepTable :=
  t.map fun (u, old) => if u = type ∧ s.lt old then (u, s) else (u, old)

end StepTable

namespace Termination

variable {ω : Type}

/-- The steps of a production, given those of all types. -/
def productionSteps (t : StepTable) (p : Production ω) : Steps :=
  match p.args with
  | [] => .finite 0
  | args => ((args.map t.get).foldl Steps.max (.finite 0)).succ

/-- The steps of the best of some productions. -/
def best (t : StepTable) (ps : List (Production ω)) : Steps :=
  (ps.map (productionSteps t)).foldl Steps.min .infinite

/-- All counts infinite. -/
def start (table : Table ω) : StepTable := table.map fun (type, _) => (type, .infinite)

/-- One pass. Each type already sees what the pass has lowered before it. -/
def pass (table : Table ω) (t : StepTable) : StepTable :=
  table.foldl (fun t (type, ps) => t.lower type (best t ps)) t

/-- Passes until one changes nothing, at most as many as the bound allows. -/
def settle (table : Table ω) : Nat → StepTable → StepTable
  | 0, t => t
  | n + 1, t =>
    let t' := pass table t
    if t' = t then t else settle table n t'

/-- One pass more than there are types suffices. -/
def solve (table : Table ω) : StepTable := settle table (table.length + 1) (start table)

def isListed (table : Table ω) (type : String) : Bool := table.any (·.1 == type)

/-- The first argument of a production that is not listed. -/
def missingArg? (table : Table ω) (p : Production ω) : Option String :=
  p.args.find? fun a => !isListed table a

/-- The first argument of any production that is not listed. -/
def firstMissing? (table : Table ω) : Option String :=
  table.findSome? fun (_, ps) => ps.findSome? (missingArg? table)

end Termination

/-- Why a table has no analysis: a production needs a type that is not listed. -/
structure UnlistedType where
  type : String
deriving DecidableEq, Repr

/-- A table with the steps of its types. -/
structure Analysis (ω : Type) where
  table : Table ω
  steps : StepTable

namespace Analysis

variable {ω : Type}

def ofTable (table : Table ω) : Except UnlistedType (Analysis ω) :=
  match Termination.firstMissing? table with
  | some type => .error ⟨type⟩
  | none => .ok ⟨table, Termination.solve table⟩

/-- The steps of a listed type. -/
def stepsToTerminal? (a : Analysis ω) (type : String) : Option Steps := a.steps.lookup type

/-- The steps of any production over the listed types, itself listed or not. -/
def productionSteps (a : Analysis ω) (p : Production ω) : Except UnlistedType Steps :=
  match Termination.missingArg? a.table p with
  | some type => .error ⟨type⟩
  | none => .ok (Termination.productionSteps a.steps p)

/-- The types of which no expression can be completed, in the order of the table. -/
def unproductive (a : Analysis ω) : List String :=
  (a.steps.filter (·.2 = .infinite)).map (·.1)

end Analysis

end ExpressionArt
