import StackScript.Decimal.Shortest

/-!
Styles of number text: how a shortest decimal is laid out.

* `NumberStyle`: which exponents are written positionally, and how the others look;
* `NumberStyle.write`: the text of a floating-point number in a style.
-/

namespace StackScript

/-- The decisions of a format for numbers. Whole numbers always keep one decimal when they are
written positionally, and never one before an exponent. -/
structure NumberStyle where
  /-- The decimal exponents (of the first digit) that are written positionally. -/
  positional : Int → Bool
  /-- A positive exponent has a plus sign. -/
  plusSign : Bool
  /-- The least number of digits of an exponent. -/
  exponentDigits : Nat
  /-- The text of the datum that is not a number. -/
  nan : String

namespace NumberStyle

/-- That many zeros. -/
def zeros (n : Nat) : List Char := List.replicate n '0'

/-- Digits with a point after the first `point` of them, filled up with zeros. -/
def positionalText (digits : List Char) (point : Int) : List Char :=
  if point ≤ 0 then '0' :: '.' :: zeros (-point).toNat ++ digits
  else if digits.length ≤ point then
    digits ++ zeros (point.toNat - digits.length) ++ ['.', '0']
  else digits.take point.toNat ++ '.' :: digits.drop point.toNat

/-- Digits with a point after the first, and an exponent. -/
def exponentText (style : NumberStyle) (digits : List Char) (exponent : Int) : List Char :=
  let mantissa := match digits with
    | d :: e :: es => d :: '.' :: e :: es
    | ds => ds
  let sign := if exponent < 0 then ['-'] else if style.plusSign then ['+'] else []
  let magnitude := Nat.toDigits 10 exponent.natAbs
  mantissa ++ 'e' :: sign ++ zeros (style.exponentDigits - magnitude.length) ++ magnitude

/-- The text of a positive number. -/
def writePositive (style : NumberStyle) (m : Nat) (q : Int) : List Char :=
  let d := shortest m q
  let digits := d.digits
  let exponent := d.exponent + digits.length - 1
  if style.positional exponent then positionalText digits (exponent + 1)
  else style.exponentText digits exponent

/-- The text of a datum. -/
def writeDatum (style : NumberStyle) : Binary64 → String
  | .nan => style.nan
  | .infinite negative => if negative then "-inf" else "inf"
  | .finite negative m q =>
    let digits := if m = 0 then ['0', '.', '0'] else style.writePositive m q
    String.ofList (if negative then '-' :: digits else digits)

/-- The text of a floating-point number. -/
def write (style : NumberStyle) (x : Float) : String :=
  style.writeDatum (.ofFloat x)

end NumberStyle

end StackScript
