import ExpressionArt.Expr
import ExpressionArt.Vocabulary.Operation

/-!
# Programs

An expression compiles to its post-order: a program for a stack machine, which keeps no
reference to the tree. The machine is described for any values and any meaning of the
operations; over tensors it evaluates a whole grid of coordinates at once, and parameters are
plain numbers there.
-/

namespace ExpressionArt

structure Instruction (ω : Type) where
  name : String
  operation : ω
  arity : Int
  params : List Float

namespace Instruction

variable {ω V : Type}

/-- What the operation of an instruction is given: a leaf takes the coordinates before its
parameters, any other instruction its parameters before its operands. -/
def arguments (lift : Float → V) (x y : V) (i : Instruction ω) (operands : List V) : List V :=
  if i.arity = 0 then x :: y :: i.params.map lift else i.params.map lift ++ operands

/-- How many values an instruction takes from a stack of some height: as many as its arity says,
if there are, or all but the lowest ones if the arity is negative. -/
def taken (i : Instruction ω) (height : Nat) : Nat :=
  if i.arity < 0 then height - i.arity.natAbs else i.arity.toNat

end Instruction

/-- How operations act on values, and which value a parameter is. -/
structure Meaning (ω V ε : Type) where
  apply : ω → List V → Except ε V
  lift : Float → V

structure Program (ω : Type) where
  instructions : List (Instruction ω)
  outputType : String

/-- The node of an expression as an instruction over a number of operands. -/
def Node.instruction {ω : Type} (node : Node ω) (arity : Nat) : Instruction ω :=
  ⟨node.production.name, node.production.operation, arity, node.params⟩

@[simp] theorem Node.taken_instruction {ω : Type} (node : Node ω) (n height : Nat) :
    (node.instruction n).taken height = n := by
  have nonneg : ¬ (node.instruction n).arity < 0 := Int.not_lt.2 (Int.natCast_nonneg n)
  rw [Instruction.taken, if_neg nonneg]
  rfl

/-- The post-order of an expression. -/
def Expr.compile {ω : Type} (e : Expr ω) : Program ω where
  instructions := e.postorder.map fun (node, arity) => node.instruction arity
  outputType := e.type

namespace Meaning

variable {ω V ε : Type}

/-- The effect of one instruction on the stack, its top first. -/
def step (m : Meaning ω V ε) (x y : V) (i : Instruction ω) (stack : List V) :
    Except ε (List V) := do
  let taken := i.taken stack.length
  let v ← m.apply i.operation (i.arguments m.lift x y (stack.take taken).reverse)
  .ok (v :: stack.drop taken)

def run (m : Meaning ω V ε) (x y : V) : List (Instruction ω) → List V → Except ε (List V)
  | [], stack => .ok stack
  | i :: is, stack => do m.run x y is (← m.step x y i stack)

/-- The value of a program. Its run must leave one value on the stack. -/
def execute (m : Meaning ω V ε) (malformed : Nat → ε) (x y : V) (p : Program ω) : Except ε V := do
  match ← m.run x y p.instructions [] with
  | [v] => .ok v
  | vs => .error (malformed vs.length)

/-- The value of an expression by recursion on its tree. -/
def value (m : Meaning ω V ε) (x y : V) : Expr ω → Except ε V :=
  Tree.foldM fun node operands =>
    m.apply node.production.operation
      ((node.instruction operands.length).arguments m.lift x y operands)

end Meaning

/-- Operations over tensors and plain numbers. A production may have none. -/
def Meaning.operands (α : Type) [Scalar α] :
    Meaning (Option Operation) (Operand α) EvalError where
  apply op args :=
    match op with
    | some op => op.apply args
    | none => .error .undefined
  lift p := .plain (Scalar.ofFloat p)

/-- What an evaluation yields: one value for a number, or the components of a vector. -/
inductive Sample (β : Type) where
  | single (b : β)
  | components (bs : List β)

def Sample.map {β γ : Type} (f : β → γ) : Sample β → Sample γ
  | .single b => .single (f b)
  | .components bs => .components (bs.map f)

namespace Program

variable {α : Type} [Scalar α]

/-- The value of a program at coordinates that broadcast. -/
def evaluate (p : Program (Option Operation)) (x y : Tensor α) :
    Except EvalError (Operand α) := do
  let some shape := x.shape.broadcast? y.shape | .error .shapes
  (Meaning.operands α).execute .malformed (.tensor (.ofFn shape x.see))
    (.tensor (.ofFn shape y.see)) p

/-- Whether a value has more dimensions than its coordinates, and so has components. -/
def hasComponents (x y v : Tensor α) : Bool :=
  (x.shape.broadcast? y.shape).all fun s => s.length < v.shape.length

/-- The value at tensors of coordinates, which must be a tensor too. -/
def callGrid (p : Program (Option Operation)) (x y : Tensor α) :
    Except EvalError (Sample (Tensor α)) := do
  let v ← (← p.evaluate x y).shaped?
  .ok (if hasComponents x y v then .components v.unbind else .single v)

def itemOf (t : Tensor α) : Except EvalError α :=
  match t.item? with
  | some a => .ok a
  | none => .error .notOneNumber

/-- The value at two plain numbers. -/
def callPoint (p : Program (Option Operation)) (x y : α) : Except EvalError (Sample α) := do
  match ← p.callGrid (.scalar x) (.scalar y) with
  | .single v => return .single (← itemOf v)
  | .components vs => return .components (← vs.mapM itemOf)

/-- The value at coordinates of either kind: plain numbers if both are plain, or else tensors. -/
def call (p : Program (Option Operation)) (x y : Operand α) :
    Except EvalError (Sample (Operand α)) :=
  match x, y with
  | .plain a, .plain b => (p.callPoint a b).map (·.map .plain)
  | x, y => (p.callGrid x.toTensor y.toTensor).map (·.map .tensor)

end Program

end ExpressionArt
