import ExpressionArt.Number.Binary64

/-!
# Productions

One rule of a typed grammar: how to build an expression of its type from expressions of its
argument types. A production also says how its text is made of the texts of its parts, which
parameters a fresh node draws, and which operation it stands for. The type of operations is
left open: the grammar never looks inside.
-/

namespace ExpressionArt

/-- A piece of a template: literal text, or one of the parts. Parts count from zero, and from the
end below zero. -/
inductive Piece where
  | literal (s : String)
  | part (i : Int)
deriving DecidableEq, Repr

/-- How the text of a node is made of its parts: as a call of the production's name, or by a
template, which may insist on a number of parts. -/
inductive Wording where
  | call
  | template (pieces : List Piece) (parts : Option Nat)
deriving DecidableEq, Repr

inductive WordingError where
  /-- The template insists on another number of parts. -/
  | wrongCount
  /-- A piece refers to a part that is not there. -/
  | missingPart
deriving DecidableEq, Repr

/-- Draws parameters one at a time. Each draw may depend on those before it. -/
inductive Sampler where
  | done (params : List Float)
  | draw (next : Binary64 → Sampler)

namespace Sampler

def nothing : Sampler := .done []

/-- One parameter, uniform in `[-1, 1)` for a uniform draw. -/
def constant : Sampler := .draw fun d => .done [d.toFloat * 2 - 1]

/-- As many raw draws as asked for, after those in `taken`. -/
def raw : Nat → List Float → Sampler
  | 0, taken => .done taken
  | n + 1, taken => .draw fun d => raw n (taken ++ [d.toFloat])

end Sampler

structure Production (ω : Type) where
  name : String
  type : String
  args : List String
  wording : Wording
  operation : ω
  sampler : Sampler

namespace Production

variable {ω : Type}

/-- A production without arguments ends a tree. -/
def isTerminal (p : Production ω) : Bool := p.args.isEmpty

/-- The part at an index. -/
def part? (parts : List String) (i : Int) : Option String :=
  let i := if i < 0 then parts.length + i else i
  if 0 ≤ i then parts[i.toNat]? else none

def pieceText (parts : List String) : Piece → Except WordingError String
  | .literal s => .ok s
  | .part i =>
    match part? parts i with
    | some s => .ok s
    | none => .error .missingPart

/-- The text of a node of this production with these parts: parameters, then children. -/
def text (p : Production ω) (parts : List String) : Except WordingError String :=
  match p.wording with
  | .call => .ok (p.name ++ "(" ++ ", ".intercalate parts ++ ")")
  | .template pieces count =>
    if count.all (· == parts.length) then
      (pieces.mapM (pieceText parts)).map String.join
    else .error .wrongCount

/-- Whether two productions are one rule: name, type and arguments tell. -/
def same (p q : Production ω) : Bool := p.name == q.name && p.type == q.type && p.args == q.args

end Production

end ExpressionArt
