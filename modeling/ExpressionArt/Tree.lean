/-!
# Trees

Trees with a label at each node and any number of ordered children. Everything computed
from an expression is a fold of its tree: depth, size, post-order, text and value.
-/

namespace ExpressionArt

inductive Tree (α : Type) where
  | node (label : α) (children : List (Tree α))

namespace Tree

variable {α β ε : Type}

def label : Tree α → α
  | .node a _ => a

def children : Tree α → List (Tree α)
  | .node _ ts => ts

mutual

/-- Combines each label with the results of its children, from the leaves to the root. -/
def fold (f : α → List β → β) : Tree α → β
  | .node a ts => f a (foldAll f ts)

def foldAll (f : α → List β → β) : List (Tree α) → List β
  | [] => []
  | t :: ts => fold f t :: foldAll f ts

end

mutual

/-- A fold that may fail. Children go from left to right, each before its parent, and the first
failure ends the fold. -/
def foldM (f : α → List β → Except ε β) : Tree α → Except ε β
  | .node a ts => do f a (← foldAllM f ts)

def foldAllM (f : α → List β → Except ε β) : List (Tree α) → Except ε (List β)
  | [] => .ok []
  | t :: ts => do
    let b ← foldM f t
    let bs ← foldAllM f ts
    .ok (b :: bs)

end

/-- Levels of nesting; a leaf has one. -/
def depth : Tree α → Nat := fold fun _ ds => 1 + ds.foldl max 0

def size : Tree α → Nat := fold fun _ ns => 1 + ns.foldl (· + ·) 0

/-- The labels with their numbers of children, every node after its children. -/
def postorder : Tree α → List (α × Nat) := fold fun a ls => ls.flatten ++ [(a, ls.length)]

theorem foldAll_eq_map (f : α → List β → β) (ts : List (Tree α)) :
    foldAll f ts = ts.map (fold f) := by
  induction ts with
  | nil => rfl
  | cons t ts ih => simp [foldAll, ih]

@[simp] theorem fold_node (f : α → List β → β) (a : α) (ts : List (Tree α)) :
    fold f (.node a ts) = f a (ts.map (fold f)) := by
  rw [fold, foldAll_eq_map]

theorem foldAllM_eq_mapM (f : α → List β → Except ε β) (ts : List (Tree α)) :
    foldAllM f ts = ts.mapM (foldM f) := by
  induction ts with
  | nil => rfl
  | cons t ts ih => rw [foldAllM, List.mapM_cons, ih]; rfl

theorem foldM_node (f : α → List β → Except ε β) (a : α) (ts : List (Tree α)) :
    foldM f (.node a ts) = (do f a (← ts.mapM (foldM f))) := by
  rw [foldM, foldAllM_eq_mapM]

/-- Induction on trees: a node may assume the claim of all its children. -/
@[induction_eliminator]
theorem induct {motive : Tree α → Prop}
    (node : ∀ a ts, (∀ t ∈ ts, motive t) → motive (.node a ts)) (t : Tree α) : motive t :=
  Tree.rec (motive_1 := motive) (motive_2 := fun ts => ∀ t ∈ ts, motive t)
    node (by simp) (fun t ts ht hts u hu => by
      rcases List.mem_cons.1 hu with rfl | h
      · exact ht
      · exact hts u h) t

theorem depth_node (a : α) (ts : List (Tree α)) :
    depth (.node a ts) = 1 + (ts.map depth).foldl max 0 := fold_node ..

theorem size_node (a : α) (ts : List (Tree α)) :
    size (.node a ts) = 1 + (ts.map size).foldl (· + ·) 0 := fold_node ..

theorem postorder_node (a : α) (ts : List (Tree α)) :
    postorder (.node a ts) = (ts.map postorder).flatten ++ [(a, ts.length)] := by
  simp [postorder]

end Tree

end ExpressionArt
