import ExpressionArt.Number.Binary64

/-!
# Shortest decimals

The decimal with the fewest digits that reads back as a given double, and of those
the nearest to it. The double `m · 2 ^ q` owns the reals that round to it: an interval
whose ends belong to it when `m` is even. Decimal grids are tried from coarse to fine,
and on each grid only the two neighbours of the value need a look.
-/

namespace ExpressionArt

/-- `digits · 10 ^ exponent`. -/
structure Decimal where
  digits : Nat
  exponent : Int
deriving DecidableEq, Repr

namespace Decimal

/-- The quotient of naturals that a decimal is. -/
def ratio (d : Decimal) : Nat × Nat :=
  (d.digits * Nat.pow 10 d.exponent.toNat, Nat.pow 10 (-d.exponent).toNat)

def ratioLe (a b : Nat × Nat) : Bool := a.1 * b.2 ≤ b.1 * a.2

def ratioLt (a b : Nat × Nat) : Bool := a.1 * b.2 < b.1 * a.2

/-- The ends of the interval of `m · 2 ^ q`, in quarters of its last place. Below a power of two
the doubles lie twice as dense. -/
def lowerQuarters (m : Nat) (q : Int) : Nat :=
  if m = Nat.pow 2 52 ∧ q ≠ -1074 then 4 * m - 1 else 4 * m - 2

def upperQuarters (m : Nat) : Nat := 4 * m + 2

/-- Whether a decimal rounds to the double `m · 2 ^ q`. -/
def readsAs (d : Decimal) (m : Nat) (q : Int) : Bool :=
  let low := Binary64.ratio (lowerQuarters m q) (q - 2)
  let high := Binary64.ratio (upperQuarters m) (q - 2)
  if m % 2 = 0 then ratioLe low d.ratio && ratioLe d.ratio high
  else ratioLt low d.ratio && ratioLt d.ratio high

def digitCount (n : Nat) : Nat := (Nat.toDigits 10 n).length

/-- The `p` with `10 ^ (p - 1) ≤ m · 2 ^ q < 10 ^ p`, for a positive value. -/
def magnitude (m : Nat) (q : Int) : Int :=
  let (n, d) := Binary64.ratio m q
  if d ≤ n then digitCount (n / d) else 1 - (digitCount (d / n) : Int)

/-- The multiple of `10 ^ e` at or below `m · 2 ^ q`. -/
def floorOn (e : Int) (m : Nat) (q : Int) : Decimal :=
  let (n, d) := Binary64.ratio m q
  ⟨n * Nat.pow 10 (-e).toNat / (d * Nat.pow 10 e.toNat), e⟩

/-- Of the neighbours `low` and `high` of `m · 2 ^ q` on a grid, the nearer one, and half way
between them the even one. -/
def closer (low high : Decimal) (m : Nat) (q : Int) : Decimal :=
  let middle : Nat × Nat := ratio ⟨2 * low.digits + 1, low.exponent⟩
  let value := Binary64.ratio (2 * m) q
  if ratioLt value middle then low
  else if ratioLt middle value then high
  else if low.digits % 2 = 0 then low
  else high

/-- The better of the two neighbours of `m · 2 ^ q` on the grid of `10 ^ e`, if one reads back. -/
def nearest? (e : Int) (m : Nat) (q : Int) : Option Decimal :=
  let low := floorOn e m q
  let high : Decimal := ⟨low.digits + 1, e⟩
  match low.readsAs m q, high.readsAs m q with
  | true, true => some (closer low high m q)
  | true, false => some low
  | false, true => some high
  | false, false => none

/-- Seventeen digits always suffice for a double. -/
def maxDigits : Nat := 17

/-- The decimal of fewest digits that rounds to the positive double `m · 2 ^ q`. -/
def shortest (m : Nat) (q : Int) : Decimal :=
  let p := magnitude m q
  let grids := (List.range maxDigits).map fun (i : Nat) => p - (i + 1 : Nat)
  (grids.findSome? fun e => nearest? e m q).getD (floorOn (p - maxDigits) m q)

theorem closer_eq (low high : Decimal) (m : Nat) (q : Int) :
    closer low high m q = low ∨ closer low high m q = high := by
  unfold closer
  dsimp only
  split
  · exact .inl rfl
  · split
    · exact .inr rfl
    · split
      · exact .inl rfl
      · exact .inr rfl

theorem readsAs_of_nearest? {e : Int} {m : Nat} {q : Int} {d : Decimal}
    (h : nearest? e m q = some d) : d.readsAs m q = true := by
  unfold nearest? at h
  dsimp only at h
  split at h
  · next hl hh =>
    obtain rfl := Option.some.inj h
    rcases closer_eq (floorOn e m q) ⟨(floorOn e m q).digits + 1, e⟩ m q with c | c <;> rw [c]
    · exact hl
    · exact hh
  · next hl _ => exact Option.some.inj h ▸ hl
  · next _ hh => exact Option.some.inj h ▸ hh
  · exact absurd h (by simp)

/-- If any grid has a decimal that reads back, then the shortest decimal does. -/
theorem readsAs_shortest {m i : Nat} {q : Int} (hi : i < maxDigits)
    (found : (nearest? (magnitude m q - (i + 1 : Nat)) m q).isSome) :
    (shortest m q).readsAs m q = true := by
  have some_grid : (((List.range maxDigits).map fun (i : Nat) =>
      magnitude m q - (i + 1 : Nat)).findSome? fun e => nearest? e m q).isSome := by
    rw [List.findSome?_isSome_iff]
    exact ⟨_, List.mem_map.2 ⟨i, List.mem_range.2 hi, rfl⟩, found⟩
  obtain ⟨d, hd⟩ := Option.isSome_iff_exists.1 some_grid
  obtain ⟨e, _, he⟩ := List.exists_of_findSome?_eq_some hd
  have same : shortest m q = d := by
    unfold shortest
    dsimp only
    rw [hd, Option.getD_some]
  rw [same]
  exact readsAs_of_nearest? he

end Decimal

end ExpressionArt
