import ExpressionArt.Expr
import ExpressionArt.Number.Nearest
import ExpressionArt.Random.Source

/-!
# Synthesis

A random expression of a type, within a depth budget. At each node one draw chooses among the
productions that the budget still completes, the production's sampler draws the parameters,
and the arguments follow from left to right with one less to spend. The source keeps what was
drawn also when synthesis fails.
-/

namespace ExpressionArt

/-- Why a draw chooses nothing. -/
inductive ChoiceError where
  | uncut (e : Binary64.CutError)
  | outOfRange
deriving DecidableEq, Repr

/-- The index that a draw chooses among `count` options. A negative one counts from the end. -/
def choiceIndex (draw : Binary64) (count : Nat) : Except ChoiceError (Fin count) :=
  match (draw.times count).cut with
  | .error e => .error (.uncut e)
  | .ok i =>
    if _ : 0 ≤ i ∧ i < count then .ok ⟨i.toNat, by omega⟩
    else if _ : -count ≤ i ∧ i < 0 then .ok ⟨(count + i).toNat, by omega⟩
    else .error .outOfRange

inductive SynthesisError where
  | unknownType (e : UnknownType)
  /-- The budget of the root is below the least one. -/
  | budgetTooSmall (budget : Int) (type : String) (required : Nat)
  /-- No production fits the budget that is left. -/
  | nothingFits (type : String) (budget : Int)
  | choice (e : ChoiceError)
  /-- The source ran dry. -/
  | exhausted
deriving DecidableEq, Repr

def SynthesisError.message : SynthesisError → String
  | .unknownType e => e.message
  | .budgetTooSmall d t r =>
    s!"Depth budget {d} is too small for type '{t}' (needs at least {r})"
  | .nothingFits t d => s!"No production of type '{t}' fits depth budget {d}"
  | .choice (.uncut e) => e.message
  | .choice .outOfRange => "index out of range"
  | .exhausted => "script exhausted"

/-- A computation that draws from a source and may fail; the source outlives the failure. -/
abbrev Drawing (σ α : Type) := ExceptT SynthesisError (StateM σ) α

section

variable {σ ω : Type} [RandomSource σ]

def drawOne : Drawing σ Binary64 := do
  match RandomSource.next? (← get) with
  | some (d, s) => set s; return d
  | none => throw .exhausted

def Sampler.run : Sampler → Drawing σ (List Float)
  | .done params => return params
  | .draw next => do (next (← drawOne)).run

namespace Grammar

/-- One draw chooses among some options. -/
def choose (options : List (Production ω)) : Drawing σ (Production ω) := do
  match choiceIndex (← drawOne) options.length with
  | .ok i => return options[i]
  | .error e => throw (.choice e)

/-- The failure of a type and budget that no production fits. -/
def refuse {α : Type} (g : Grammar ω) (type : String) (budget : Int) : Drawing σ α :=
  if g.types.contains type then throw (.nothingFits type budget)
  else throw (.unknownType ⟨type⟩)

/-- An expression of a type that fits a budget. -/
def grow (g : Grammar ω) : Nat → String → Drawing σ (Expr ω)
  | 0, type => g.refuse type 0
  | budget + 1, type =>
    let options := g.fitting type (budget + 1 : Nat)
    if options.isEmpty then g.refuse type (budget + 1 : Nat)
    else do
      let p ← choose options
      let params ← p.sampler.run
      let children ← p.args.mapM (g.grow budget)
      return .node ⟨p, params⟩ children

/-- Synthesis without a look at the least budget. -/
def build (g : Grammar ω) (type : String) (budget : Int) : Drawing σ (Expr ω) :=
  if budget ≤ 0 then g.refuse type budget else g.grow budget.toNat type

/-- Synthesis. A budget that is too small is refused before anything is drawn. -/
def synthesize (g : Grammar ω) (type : String) (budget : Int) : Drawing σ (Expr ω) :=
  match g.minDepth type with
  | .error e => throw (.unknownType e)
  | .ok required =>
    if budget < required then throw (.budgetTooSmall budget type required)
    else g.build type budget

end Grammar

end

/-- The outcome of a drawing, and the source it leaves. -/
def Drawing.runOn {σ α : Type} (d : Drawing σ α) (s : σ) : Except SynthesisError α × σ := d.run s

end ExpressionArt
