/-!
# Sides of a grid

The sides of a grid are handed on as machine words, none of them is negative, and the numbers of
the grid have to fit into memory. A grid may be empty.
-/

namespace ExpressionArt

inductive SidesError where
  /-- No machine word holds a side. -/
  | oversized (side : Int)
  | negative (side : Int)
  /-- There are more numbers than memory holds. -/
  | noRoom (numbers : Nat)
deriving DecidableEq, Repr

def SidesError.message : SidesError → String
  | .oversized _ => "int too big to convert"
  | .negative side => s!"no grid has a side of {side}"
  | .noRoom numbers => s!"no room for {numbers} numbers"

/-- The number of values of a machine word. -/
def wordValues : Nat := Nat.pow 2 64

/-- As many numbers fit into memory. -/
def memoryRoom : Nat := Nat.pow 2 32

/-- A number is a machine word, with a sign if it is negative. -/
def isWord (n : Int) : Bool := -(wordValues / 2 : Nat) ≤ n && n < wordValues

/-- A number is a machine word with a sign. -/
def isSignedWord (n : Int) : Bool := -(wordValues / 2 : Nat) ≤ n && n < (wordValues / 2 : Nat)

/-- A list of numbers that memory holds. -/
def roomFor (numbers : Nat) : Except SidesError Nat :=
  if numbers ≤ memoryRoom then .ok numbers else .error (.noRoom numbers)

/-- The length of one side. -/
def sideLength (side : Int) : Except SidesError Nat :=
  if !isWord side then .error (.oversized side)
  else if side < 0 then .error (.negative side)
  else roomFor side.toNat

/-- Both sides of a grid. The width is looked at first. -/
def sides (width height : Int) : Except SidesError (Nat × Nat) := do
  let w ← sideLength width
  let h ← sideLength height
  let _ ← roomFor (w * h)
  .ok (w, h)

theorem roomFor_of_le {n : Nat} (h : n ≤ memoryRoom) : roomFor n = .ok n := if_pos h

theorem memoryRoom_lt_wordValues : memoryRoom < wordValues := by decide

theorem isWord_of_le {n : Nat} (h : n ≤ memoryRoom) : isWord n = true := by
  have below : (n : Int) < wordValues :=
    Int.ofNat_lt.2 (Nat.lt_of_le_of_lt h memoryRoom_lt_wordValues)
  have above : -((wordValues / 2 : Nat) : Int) ≤ n :=
    Int.le_trans (Int.neg_nonpos_of_nonneg (Int.natCast_nonneg _)) (Int.natCast_nonneg _)
  simp only [isWord, below, above, decide_true, Bool.and_self]

theorem sideLength_of_le {n : Nat} (h : n ≤ memoryRoom) : sideLength n = .ok n := by
  have sign : ¬ (n : Int) < 0 := Int.not_lt.2 (Int.natCast_nonneg n)
  unfold sideLength
  rw [isWord_of_le h, if_neg (by decide), if_neg sign, Int.toNat_natCast, roomFor_of_le h]

theorem sides_of_le {w h : Nat} (hw : w ≤ memoryRoom) (hh : h ≤ memoryRoom)
    (room : w * h ≤ memoryRoom) : sides w h = .ok (w, h) := by
  unfold sides
  rw [sideLength_of_le hw, sideLength_of_le hh]
  change (roomFor (w * h) >>= fun _ => .ok (w, h)) = _
  rw [roomFor_of_le room]
  rfl

end ExpressionArt
