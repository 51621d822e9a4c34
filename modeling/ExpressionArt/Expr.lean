import ExpressionArt.Grammar.Basic
import ExpressionArt.Number.Text
import ExpressionArt.Tree

/-!
# Expressions

An expression is a tree of productions, each node with the parameters it drew. Parameters stay
with the node, so that evaluation needs no draws.
-/

namespace ExpressionArt

structure Node (ω : Type) where
  production : Production ω
  params : List Float

abbrev Expr (ω : Type) := Tree (Node ω)

/-- A node has another number of children than its production has arguments. -/
structure ArityError where
  production : String
  expected : Nat
  found : Nat
deriving DecidableEq, Repr

def ArityError.message (e : ArityError) : String :=
  s!"Production '{e.production}' expects {e.expected} arguments, got {e.found}"

namespace Expr

variable {ω : Type}

/-- The node of a production over given children. -/
def ofParts (p : Production ω) (params : List Float) (children : List (Expr ω)) :
    Except ArityError (Expr ω) :=
  if children.length = p.args.length then .ok (.node ⟨p, params⟩ children)
  else .error ⟨p.name, p.args.length, children.length⟩

def production (e : Expr ω) : Production ω := e.label.production

def type (e : Expr ω) : String := e.production.type

/-- The text of an expression, given that of numbers: at each node, the production words its
parameters and children. -/
def textWith (number : Float → String) : Expr ω → Except WordingError String :=
  Tree.foldM fun node parts => node.production.text (node.params.map number ++ parts)

/-- The text of an expression, its parameters in their shortest form. -/
def text : Expr ω → Except WordingError String := textWith floatText

/-- Whether two lists of parameters are equal as numbers. -/
def sameParams : List Float → List Float → Bool
  | [], [] => true
  | a :: as, b :: bs => a == b && sameParams as bs
  | _, _ => false

mutual

/-- Whether two expressions are equal node by node; parameters are compared as numbers. -/
def same : Expr ω → Expr ω → Bool
  | .node m ts, .node n us =>
    m.production.same n.production && sameAll ts us && sameParams m.params n.params

def sameAll : List (Expr ω) → List (Expr ω) → Bool
  | [], [] => true
  | t :: ts, u :: us => same t u && sameAll ts us
  | _, _ => false

end

/-- Every node has the children that its production lists, type by type. -/
inductive WellTyped : Expr ω → Prop
  | node (p : Production ω) (params : List Float) (children : List (Expr ω)) :
      children.map type = p.args → (∀ c ∈ children, WellTyped c) →
        WellTyped (.node ⟨p, params⟩ children)

end Expr

end ExpressionArt
