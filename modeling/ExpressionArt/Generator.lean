import ExpressionArt.Picture.Basic
import ExpressionArt.Random.Lehmer
import ExpressionArt.Scalar.Double
import ExpressionArt.Synthesis
import ExpressionArt.Vocabulary.Default

/-!
# Generators

From a seed to a picture. A generator holds a grammar, the type of the root, a depth budget that
the root fits, and a shift of the coordinates. Every picture starts a random source of its own,
so a seed always draws the same picture. An expression is put into words before it is painted.
-/

namespace ExpressionArt

/-- The shift that keeps the origin off singularities. -/
def defaultEpsilon : Float := 1e-5

def defaultMaxDepth : Int := 5

structure Generator where
  grammar : Grammar (Option Operation)
  rootType : String
  maxDepth : Int
  epsilon : Float
  fits : ∃ n : Nat, grammar.minDepth rootType = .ok n ∧ n ≤ maxDepth

inductive GeneratorError where
  | unknownType (e : UnknownType)
  | budgetTooSmall (maxDepth : Int) (type : String) (required : Nat)
deriving DecidableEq, Repr

def GeneratorError.message : GeneratorError → String
  | .unknownType e => e.message
  | .budgetTooSmall d t r => s!"max_depth={d} cannot synthesize '{t}'; use at least {r}"

/-- Why a seed gives no picture. -/
inductive DrawError where
  | size (e : SizeError)
  | seed (e : SeedError)
  | synthesis (e : SynthesisError)
  | wording (e : WordingError)
  | render (e : RenderError)

def DrawError.message : DrawError → String
  | .size e => e.message
  | .seed e => e.message
  | .synthesis e => e.message
  | .wording _ => "wrong number of parts"
  | .render e => e.message

namespace Generator

def make (grammar : Grammar (Option Operation)) (rootType : String) (maxDepth : Int)
    (epsilon : Float) : Except GeneratorError Generator :=
  match h : grammar.minDepth rootType with
  | .error e => .error (.unknownType e)
  | .ok required =>
    if enough : required ≤ maxDepth then
      .ok ⟨grammar, rootType, maxDepth, epsilon, required, h, enough⟩
    else .error (.budgetTooSmall maxDepth rootType required)

/-- The tree that grows from a seed. -/
def grow (g : Generator) (seed : Int) : Except SynthesisError (Expr (Option Operation)) :=
  ((g.grammar.synthesize g.rootType g.maxDepth).runOn (Lehmer.ofSeed seed)).1

/-- An expression that can be put into words. One that cannot is refused. -/
def worded (e : Expr (Option Operation)) : Except DrawError (Expr (Option Operation)) :=
  (e.text.map fun _ => e).mapError .wording

/-- The expression of a seed. -/
def synthesize (g : Generator) (seed : Int) : Except DrawError (Expr (Option Operation)) := do
  worded (← (g.grow seed).mapError .synthesis)

/-- The picture of an expression. -/
def paint (g : Generator) (e : Expr (Option Operation)) (size : Size) :
    Except RenderError Picture :=
  Picture.renderHeld e.compile.callGrid size g.epsilon

/-- The expression and the picture of a seed. -/
def drawSeed (g : Generator) (seed : Int) (size : Size) :
    Except DrawError (Expr (Option Operation) × Picture) := do
  let e ← g.synthesize seed
  let picture ← (g.paint e size).mapError .render
  .ok (e, picture)

/-- The same for whatever values a caller hands in; the size is looked at first. -/
def draw (g : Generator) (seed width height : Value) :
    Except DrawError (Expr (Option Operation) × Picture) := do
  let size ← (Size.ofValues width height).mapError .size
  let seed ← (seedOf seed).mapError .seed
  g.drawSeed seed size

end Generator

theorem default_minDepth : Grammar.default.minDepth Vocabulary.vector = .ok 2 := by
  have known : Grammar.default.types.contains Vocabulary.vector = true := by decide +kernel
  have steps : Grammar.default.stepsOf Vocabulary.vector = 1 := by decide +kernel
  simp only [Grammar.minDepth, Grammar.ofKnown, known, steps, if_true]

/-- Vectors over the default grammar. -/
def Generator.default : Generator :=
  ⟨.default, Vocabulary.vector, defaultMaxDepth, defaultEpsilon, 2, default_minDepth, by decide⟩

end ExpressionArt
