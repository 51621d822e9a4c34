import ExpressionArt.Grammar.Termination
import ExpressionArt.Text.Quoted

/-!
# Grammars

A grammar is a list of productions that passed four checks, made in this order: there is a
production, names are distinct, every argument type has productions, and every type has an
expression. The steps of its types come with it.
-/

namespace ExpressionArt

variable {ω : Type}

/-- The types of some productions, by first appearance. -/
def typesOf (ps : List (Production ω)) : List String := (ps.map (·.type)).eraseDups

/-- The productions grouped by type: types by first appearance, the rest in the order given. -/
def tableOf (ps : List (Production ω)) : Table ω :=
  (typesOf ps).map fun t => (t, ps.filter (·.type = t))

inductive GrammarError where
  | empty
  | duplicateNames (names : List String)
  | missingTypes (production type : String) (missing : List String)
  | unproductiveTypes (types : List String)
deriving DecidableEq, Repr

def GrammarError.message : GrammarError → String
  | .empty => "Grammar has no productions"
  | .duplicateNames names => s!"Duplicate production names: {quotedList names}"
  | .missingTypes p t missing =>
    s!"Production '{p}' of type '{t}' references types with no productions: {quotedList missing}"
  | .unproductiveTypes types =>
    s!"Types can never reach a terminal production: {quotedList types}"

/-- The names that occur more than once, sorted, each once. -/
def duplicateNames (ps : List (Production ω)) : List String :=
  let names := ps.map (·.name)
  (names.filter fun n => 1 < names.count n).eraseDups.mergeSort (· ≤ ·)

/-- The argument types of a production that have no productions, in order and with repetitions. -/
def missingTypes (ps : List (Production ω)) (p : Production ω) : List String :=
  p.args.filter fun a => !(typesOf ps).contains a

/-- The productions in the order of the table. -/
def tableOrder (ps : List (Production ω)) : List (Production ω) := (tableOf ps).flatMap (·.2)

structure Grammar (ω : Type) where
  productions : List (Production ω)
  steps : StepTable
  nonempty : productions ≠ []
  distinct : duplicateNames productions = []
  closed : ∀ p ∈ tableOrder productions, missingTypes productions p = []
  analysed : steps = Termination.solve (tableOf productions)
  productive : ∀ e ∈ steps, e.2 ≠ .infinite

/-- Why a type has no answer: the grammar has no productions of it. -/
structure UnknownType where
  type : String
deriving DecidableEq, Repr

def UnknownType.message (e : UnknownType) : String := s!"Unknown type '{e.type}'"

namespace Grammar

/-- Checks productions; the first fault found is reported. -/
def ofProductions (ps : List (Production ω)) : Except GrammarError (Grammar ω) :=
  if nonempty : ps = [] then .error .empty
  else if distinct : duplicateNames ps = [] then
    match closed : (tableOrder ps).find? fun p => !(missingTypes ps p).isEmpty with
    | some p => .error (.missingTypes p.name p.type (missingTypes ps p))
    | none =>
      let steps := Termination.solve (tableOf ps)
      if productive : ∀ e ∈ steps, e.2 ≠ .infinite then
        .ok ⟨ps, steps, nonempty, distinct,
          fun p hp => by simpa using List.find?_eq_none.1 closed p hp, rfl, productive⟩
      else .error (.unproductiveTypes ((steps.filter (·.2 = .infinite)).map (·.1)))
  else .error (.duplicateNames (duplicateNames ps))

def types (g : Grammar ω) : List String := typesOf g.productions

/-- The productions of a type, in order. -/
def productionsOf (g : Grammar ω) (type : String) : List (Production ω) :=
  g.productions.filter (·.type = type)

/-- What a type of the grammar is asked for. -/
def ofKnown {α : Type} (g : Grammar ω) (type : String) (answer : α) : Except UnknownType α :=
  if g.types.contains type then .ok answer else .error ⟨type⟩

def productionsFor (g : Grammar ω) (type : String) : Except UnknownType (List (Production ω)) :=
  g.ofKnown type (g.productionsOf type)

def production? (g : Grammar ω) (name : String) : Option (Production ω) :=
  g.productions.find? (·.name = name)

/-- The fewest expansion steps that complete an expression of a type. -/
def stepsOf (g : Grammar ω) (type : String) : Nat := (g.steps.get type).toNat

def stepsToTerminal (g : Grammar ω) (type : String) : Except UnknownType Nat :=
  g.ofKnown type (g.stepsOf type)

def productionSteps (g : Grammar ω) (p : Production ω) : Steps :=
  Termination.productionSteps g.steps p

/-- The least depth budget that some expression of a type fits. -/
def minDepth (g : Grammar ω) (type : String) : Except UnknownType Nat :=
  g.ofKnown type (g.stepsOf type + 1)

/-- The productions of a type that can be completed within a depth budget, in order. -/
def fitting (g : Grammar ω) (type : String) (budget : Int) : List (Production ω) :=
  (g.productionsOf type).filter fun p => (g.productionSteps p).below budget

def candidates (g : Grammar ω) (type : String) (budget : Int) :
    Except UnknownType (List (Production ω)) :=
  g.ofKnown type (g.fitting type budget)

def unproductive (g : Grammar ω) : List String :=
  (g.steps.filter (·.2 = .infinite)).map (·.1)

def shown (g : Grammar ω) : String :=
  let entry := fun t => s!"{t}: {(g.productionsOf t).length}"
  "Grammar(" ++ ", ".intercalate (g.types.map entry) ++ ")"

theorem unproductive_eq_nil (g : Grammar ω) : g.unproductive = [] := by
  simp only [unproductive, List.map_eq_nil_iff, List.filter_eq_nil_iff, decide_eq_true_eq]
  exact g.productive

end Grammar

end ExpressionArt
