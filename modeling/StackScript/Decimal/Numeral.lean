import StackScript.Decimal.Binary64

/-!
Reading decimal numerals.

A numeral is a sign, if any, and then a word for infinity or for the datum that is not a number, in
any case, or digits with a point among them, before or after, and an exponent, if any. It needs at
least one digit, and one in its exponent if it has one.

* `natOfDigits`: the number that decimal digits stand for;
* `Numeral`: a numeral taken apart; `Numeral.value` is the nearest floating-point number;
* `readNumber?`: the number that a whole text stands for, none if it is no numeral.
-/

namespace StackScript

/-- The number that decimal digits stand for. -/
def natOfDigits (ds : List Char) : Nat :=
  ds.foldl (fun n d => 10 * n + (d.toNat - '0'.toNat)) 0

/-- The digits of a numeral without its sign. -/
structure Numeral where
  whole : List Char
  fraction : List Char
  exponent : Int

namespace Numeral

/-- The nearest floating-point number. -/
def value (n : Numeral) (negative : Bool) : Float :=
  floatOfDecimal negative (natOfDigits (n.whole ++ n.fraction)) (n.exponent - n.fraction.length)

end Numeral

/-- A sign, if there is one, and whether it is a minus. -/
def readSign : List Char → Bool × List Char
  | '+' :: cs => (false, cs)
  | '-' :: cs => (true, cs)
  | cs => (false, cs)

/-- What stands after the mark of an exponent, up to the end of the text. -/
def readExponent? (cs : List Char) : Option Int :=
  let (negative, ds) := readSign cs
  if ds ≠ [] ∧ ds.all Char.isDigit then
    some (if negative then -(natOfDigits ds : Int) else natOfDigits ds)
  else none

/-- A numeral without sign that takes up all of the text. -/
def readNumeral? (cs : List Char) : Option Numeral :=
  let whole := cs.takeWhile Char.isDigit
  let (fraction, rest) := match cs.dropWhile Char.isDigit with
    | '.' :: ds => (ds.takeWhile Char.isDigit, ds.dropWhile Char.isDigit)
    | ds => ([], ds)
  if whole = [] ∧ fraction = [] then none
  else
    match rest with
    | [] => some ⟨whole, fraction, 0⟩
    | c :: ds =>
      if c = 'e' ∨ c = 'E' then (readExponent? ds).map fun e => ⟨whole, fraction, e⟩ else none

/-- The number that a text stands for. -/
def readNumber? (text : String) : Option Float :=
  let (negative, cs) := readSign text.toList
  let word := cs.map Char.toLower
  if word = "inf".toList ∨ word = "infinity".toList then some (floatInfinity negative)
  else if word = "nan".toList then some floatNaN
  else (readNumeral? cs).map (·.value negative)

end StackScript
