import ExpressionArt.Number.Nearest
import ExpressionArt.Random.Source
import ExpressionArt.Value

/-!
# The seeded generator

A seed is scrambled by a multiplicative hash to an unsigned word of 32 bits, so that
neighbouring seeds start far apart. The word starts a Lehmer generator: each state is a fixed
multiple of the one before, modulo a Mersenne prime, and each draw is the state over the
modulus. Zero absorbs: the seeds whose word is a multiple of the modulus draw zero forever.
-/

namespace ExpressionArt

/-- Words have 32 bits. -/
def wordSize : Nat := 4294967296

/-- An odd number, so that the hash is a permutation of the words. -/
def hashMultiplier : Nat := 2654435761

/-- The word that a seed of any sign and size starts from. -/
def hashSeed (seed : Int) : Nat :=
  (seed % wordSize).toNat * hashMultiplier % wordSize

inductive SeedError where
  | notInteger (v : Value)

def SeedError.message : SeedError → String
  | .notInteger v => s!"seed must be an integer, got {v.shown}"

/-- The integer that a value names as a seed. -/
def seedOf (v : Value) : Except SeedError Int :=
  match v.int? with
  | some n => .ok n
  | none => .error (.notInteger v)

structure Lehmer where
  seed : Int
  state : Nat
deriving DecidableEq

namespace Lehmer

def multiplier : Nat := 16807

/-- The Mersenne prime of 31 bits. -/
def modulus : Nat := 2147483647

def ofSeed (seed : Int) : Lehmer := ⟨seed, hashSeed seed⟩

def advance (state : Nat) : Nat := multiplier * state % modulus

/-- The draw of a state: the double nearest to a fraction below one. -/
def value (state : Nat) : Binary64 := .nearest false state modulus

def next (g : Lehmer) : Binary64 × Lehmer :=
  let state := advance g.state
  (value state, { g with state })

/-- The next `n` draws. -/
def take : Nat → Lehmer → List Binary64 × Lehmer
  | 0, g => ([], g)
  | n + 1, g =>
    let (d, g) := g.next
    let (ds, g) := take n g
    (d :: ds, g)

/-- Whether every draw from here on is zero. -/
def isDegenerate (g : Lehmer) : Bool := g.state % modulus == 0

def shown (g : Lehmer) : String := s!"SeededRandom(seed={g.seed}, state={g.state})"

instance : RandomSource Lehmer where
  next? g := some g.next

theorem advance_lt (state : Nat) : advance state < modulus := Nat.mod_lt _ (by decide)

theorem take_succ_state (n : Nat) (g : Lehmer) :
    (take (n + 1) g).2 = (take n g.next.2).2 := rfl

end Lehmer

theorem hashSeed_lt (seed : Int) : hashSeed seed < wordSize := Nat.mod_lt _ (by decide)

end ExpressionArt
