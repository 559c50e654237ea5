/-!
The binary64 format: which number a bit pattern stands for, and which bit pattern is nearest to a
given ratio.

* `Binary64`: not a number, an infinity, or a sign and `m · 2 ^ q`; `Binary64.ofFloat` decodes;
* `roundHalfEven`: a quotient rounded to the nearest natural number, ties to the even neighbour;
* `nearestBits`: the pattern of the number nearest to a ratio;
* `floatOfDecimal`: the number nearest to `± m · 10 ^ e`.

Design notes: for `m < 2 ^ 53` the number `m · 2 ^ q` with `q = -1074`, or with `m ≥ 2 ^ 52`, has the
pattern `(q + 1074) · 2 ^ 52 + m`. The same sum is right when rounding carries `m` up to `2 ^ 53`, and
when it carries past the largest finite number, where it is the pattern of infinity.
-/

namespace StackScript

/-- The datum that a binary64 pattern stands for. -/
inductive Binary64 where
  | nan
  | infinite (negative : Bool)
  /-- The number `m · 2 ^ q`, with its sign. -/
  | finite (negative : Bool) (m : Nat) (q : Int)
deriving DecidableEq

namespace Binary64

/-- The pattern of positive infinity. -/
def infinityBits : Nat := 2047 * Nat.pow 2 52

/-- The pattern of the sign alone. -/
def signBit : Nat := Nat.pow 2 63

/-- Decode a pattern: sign, eleven bits of exponent, fifty-two bits of fraction. -/
def ofBits (bits : Nat) : Binary64 :=
  let negative := bits / Nat.pow 2 63 % 2 = 1
  let field : Nat := bits / Nat.pow 2 52 % Nat.pow 2 11
  let fraction := bits % Nat.pow 2 52
  if field = 2047 then
    if fraction = 0 then .infinite negative else .nan
  else if field = 0 then .finite negative fraction (-1074)
  else .finite negative (Nat.pow 2 52 + fraction) ((field : Int) - 1075)

/-- What a floating-point number stands for. -/
def ofFloat (x : Float) : Binary64 :=
  ofBits x.toBits.toNat

end Binary64

/-- The natural number nearest to `n / d`, the even one of two equally near. -/
def roundHalfEven (n d : Nat) : Nat :=
  let quotient := n / d
  let twice := 2 * (n % d)
  if twice < d then quotient
  else if d < twice then quotient + 1
  else quotient + quotient % 2

/-- The ratio `n / d` divided by `2 ^ q`, as a ratio. -/
def unscale (n d : Nat) (q : Int) : Nat × Nat :=
  (n * Nat.pow 2 (-q).toNat, d * Nat.pow 2 q.toNat)

/-- The greatest `e` with `2 ^ e ≤ n / d`, for positive `n` and `d`. -/
def floorLog2 (n d : Nat) : Int :=
  let e : Int := (n.log2 : Int) - d.log2
  let (n', d') := unscale n d e
  if d' ≤ n' then e else e - 1

/-- The pattern of the number nearest to the ratio `n / d`, ties to the even pattern. -/
def nearestBits (n d : Nat) : Nat :=
  if n = 0 then 0
  else
    let q := max (floorLog2 n d - 52) (-1074)
    let (n', d') := unscale n d q
    min ((q + 1074).toNat * Nat.pow 2 52 + roundHalfEven n' d') Binary64.infinityBits

/-- The pattern of the number nearest to `m · 10 ^ e`. Exponents that are out of reach whatever the
digits are settled without computing the power. -/
def nearestDecimalBits (m : Nat) (e : Int) : Nat :=
  if m = 0 then 0
  else if 400 < e then Binary64.infinityBits
  else if e + (m.log2 + 1) < -400 then 0
  else nearestBits (m * Nat.pow 10 e.toNat) (Nat.pow 10 (-e).toNat)

/-- The floating-point number nearest to `m · 10 ^ e`, or to its negative. -/
def floatOfDecimal (negative : Bool) (m : Nat) (e : Int) : Float :=
  Float.ofBits (UInt64.ofNat
    ((if negative then Binary64.signBit else 0) + nearestDecimalBits m e))

/-- Positive or negative infinity. -/
def floatInfinity (negative : Bool) : Float :=
  Float.ofBits (UInt64.ofNat
    ((if negative then Binary64.signBit else 0) + Binary64.infinityBits))

/-- The datum that is not a number. -/
def floatNaN : Float :=
  Float.ofBits (UInt64.ofNat (Binary64.infinityBits + Nat.pow 2 51))

end StackScript
