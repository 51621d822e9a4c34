import ExpressionArt.Number.Text
import ExpressionArt.Text.Quoted

/-!
# Values

What a caller may hand in as a seed, a size, an index or a cell of an event: anything at
all, of which only some kinds are accepted. Messages show the value that was refused.
-/

namespace ExpressionArt

inductive Value where
  | absent
  | bool (b : Bool)
  | int (n : Int)
  | float (x : Float)
  | text (s : String)
  | list (members : List Value)
deriving Inhabited

namespace Value

mutual

/-- The form in which a message shows a value: strings are quoted. -/
def shown : Value → String
  | .absent => "None"
  | .bool b => if b then "True" else "False"
  | .int n => toString n
  | .float x => floatText x
  | .text s => quoted s
  | .list vs => bracketed (shownAll vs)

def shownAll : List Value → List String
  | [] => []
  | v :: vs => shown v :: shownAll vs

end

/-- The form in which a log writes a value: a string stands for itself. -/
def plain : Value → String
  | .text s => s
  | v => v.shown

/-- The integer that a value is. A truth value is no integer. -/
def int? : Value → Option Int
  | .int n => some n
  | _ => none

theorem int?_eq_some_iff {v : Value} {n : Int} : v.int? = some n ↔ v = .int n := by
  cases v <;> simp [int?]

end Value

end ExpressionArt
