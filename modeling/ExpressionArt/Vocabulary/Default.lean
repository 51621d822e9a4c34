import ExpressionArt.Expr
import ExpressionArt.Vocabulary.Operation

/-!
# The default grammar

Vectors of three numbers and mixtures of vectors; numbers built from the two coordinates and
constants by arithmetic and two functions. Order matters: a draw chooses by position, so another
order would draw another picture from the same seed.
-/

namespace ExpressionArt

namespace Vocabulary

def vector : String := "Vector"

def number : String := "Number"

/-- The template that alternates literal texts with the parts in order. -/
def template (first : String) (rest : List String) : Wording :=
  .template (.literal first :: (rest.zipIdx.flatMap fun (s, i) => [.part i, .literal s]))
    (some rest.length)

/-- A rule whose nodes carry no parameters. -/
def rule (name type : String) (args : List String) (wording : Wording) (op : Operation) :
    Production (Option Operation) :=
  ⟨name, type, args, wording, some op, .nothing⟩

def binary (name symbol : String) (op : Operation) : Production (Option Operation) :=
  rule name number [number, number] (template "(" [s!" {symbol} ", ")"]) op

def unary (name : String) (op : Operation) : Production (Option Operation) :=
  rule name number [number] (template (name ++ "(") [")"]) op

def productions : List (Production (Option Operation)) := [
  rule "vec3" vector [number, number, number] (template "[" [", ", ", ", "]"]) .vec3,
  rule "mix" vector [vector, vector, number] (template "mix(" [", ", ", ", ")"]) .mix,
  rule "x" number [] (template "x" []) .x,
  rule "y" number [] (template "y" []) .y,
  ⟨"rand", number, [], template "" [""], some .constant, .constant⟩,
  binary "add" "+" .add,
  binary "sub" "-" .sub,
  binary "mul" "*" .mul,
  binary "div" "/" .div,
  rule "mod" number [number, number] (template "mod(" [", ", ")"]) .mod,
  unary "sin" .sin,
  unary "sqrt" .sqrt]

end Vocabulary

theorem productions_accepted :
    (match Grammar.ofProductions Vocabulary.productions with
      | .ok _ => true
      | .error _ => false) = true := by
  decide +kernel

/-- The grammar that the gallery draws from. -/
def Grammar.default : Grammar (Option Operation) :=
  match h : Grammar.ofProductions Vocabulary.productions with
  | .ok g => g
  | .error _ => absurd productions_accepted (by simp [h])

end ExpressionArt
