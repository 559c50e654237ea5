import StackScript.Decimal.Binary64

/-!
The shortest decimal of a binary64 number.

A number `m · 2 ^ q` is read back from every decimal in the interval of reals that round to it. For
one, two, ... seventeen digits its two neighbours on the grid of decimals with that many digits are
tested; the first grid with a neighbour in the interval wins, of two neighbours the nearer one, and
of two equally near the greater.

* `Decimal`: a coefficient and a power of ten;
* `shortest`: the shortest decimal of `m · 2 ^ q`.

Design notes: all comparisons are between natural numbers. The number and the ends of its interval
are multiples of `2 ^ (q - 2)`, because the lower end is half a unit below `m`, or a quarter where the
unit below `m` is half as large.
-/

namespace StackScript

/-- The number `coefficient · 10 ^ exponent`. -/
structure Decimal where
  coefficient : Nat
  exponent : Int
deriving DecidableEq

namespace Decimal

/-- The digits of the coefficient. -/
def digits (d : Decimal) : List Char :=
  Nat.toDigits 10 d.coefficient

/-- Drop the zeros at the end of the coefficient, as long as `fuel` lasts. -/
def stripZeros : Nat → Decimal → Decimal
  | 0, d => d
  | fuel + 1, d =>
    if d.coefficient % 10 = 0 then stripZeros fuel ⟨d.coefficient / 10, d.exponent + 1⟩ else d

end Decimal

/-- The interval of reals that round to a number: the number and both ends are these naturals over
`den`, and the ends belong to it when `closed`. -/
structure RoundingInterval where
  value : Nat
  low : Nat
  high : Nat
  den : Nat
  closed : Bool

namespace RoundingInterval

/-- The interval of `m · 2 ^ q`. -/
def of (m : Nat) (q : Int) : RoundingInterval :=
  let up := Nat.pow 2 (q - 2).toNat
  let below := if m = Nat.pow 2 52 ∧ q ≠ -1074 then 1 else 2
  { value := 4 * m * up
    low := (4 * m - below) * up
    high := (4 * m + 2) * up
    den := Nat.pow 2 (2 - q).toNat
    closed := m % 2 = 0 }

/-- All of it measured in units of `10 ^ g`. -/
def inUnits (r : RoundingInterval) (g : Int) : RoundingInterval :=
  let up := Nat.pow 10 (-g).toNat
  { r with
    value := r.value * up
    low := r.low * up
    high := r.high * up
    den := r.den * Nat.pow 10 g.toNat }

/-- A natural number of units lies in the interval. -/
def contains (r : RoundingInterval) (c : Nat) : Bool :=
  if r.closed then r.low ≤ c * r.den && c * r.den ≤ r.high
  else r.low < c * r.den && c * r.den < r.high

/-- The nearer of the two naturals around the value, the greater one of two equally near. -/
def nearest (r : RoundingInterval) : Nat :=
  let floor := r.value / r.den
  if 2 * (r.value % r.den) < r.den then floor else floor + 1

/-- The natural nearest to the value that lies in the interval, of the two around the value. -/
def nearestInside? (r : RoundingInterval) : Option Nat :=
  let floor := r.value / r.den
  match r.contains floor, r.contains (floor + 1) with
  | true, true => some r.nearest
  | true, false => some floor
  | false, true => some (floor + 1)
  | false, false => none

end RoundingInterval

/-- The number `n / d` has its first digit before the place `10 ^ k`: the least `k` with
`n / d < 10 ^ k`, for positive `n` and `d`. -/
def magnitude (n d : Nat) : Int :=
  let estimate : Int := (floorLog2 n d * 1233) / 4096
  let below (k : Int) : Bool := n * Nat.pow 10 (-k).toNat < d * Nat.pow 10 k.toNat
  if below (estimate - 1) then estimate - 1
  else if below estimate then estimate
  else if below (estimate + 1) then estimate + 1
  else estimate + 2

/-- Try grids of more and more digits; the last one takes the nearest decimal whatever it is. -/
def shortestFrom (r : RoundingInterval) (k : Int) : (fuel : Nat) → (digits : Nat) → Decimal
  | 0, digits => ⟨(r.inUnits (k - digits)).nearest, k - digits⟩
  | fuel + 1, digits =>
    match (r.inUnits (k - digits)).nearestInside? with
    | some c => ⟨c, k - digits⟩
    | none => shortestFrom r k fuel (digits + 1)

/-- The shortest decimal that reads back as `m · 2 ^ q`, for positive `m`. -/
def shortest (m : Nat) (q : Int) : Decimal :=
  let r := RoundingInterval.of m q
  (shortestFrom r (magnitude r.value r.den) 16 1).stripZeros 17

end StackScript
