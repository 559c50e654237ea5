import StackScript.Decimal.Numeral
import StackScript.Decimal.Style
import StackScript.UnitText.Reader

/-!
The numerals of stored units.

* `storedNumberStyle`: how numbers are written;
* `natural`: natural numbers, in decimal or in another base behind the mark for that;
* `float`: floating-point numbers;
* `number`: numerals whose kind has to be read off their characters.
-/

namespace StackScript

namespace UnitText

/-- Numbers are written positionally, whatever their size. -/
def storedNumberStyle : NumberStyle where
  positional _ := true
  plusSign := false
  exponentDigits := 1
  nan := "NaN"

/-! ### Natural numbers -/

/-- The characters of natural numbers in any base. -/
def isNaturalChar (c : Char) : Bool := (hexValue? c).isSome || c = '_'

/-- The digits of a numeral below its base. -/
def digitsOf (base : Nat) (cs : List Char) : Option (List Nat) :=
  cs.mapM fun c => (hexValue? c).bind fun d => if d < base then some d else none

/-- A natural number in a base; underscores between its digits do not matter, and it does not begin
with one. -/
def natInBase? (base : Nat) (cs : List Char) : Option Nat :=
  if cs.isEmpty || cs.head? = some '_' then none
  else (digitsOf base (cs.filter (· != '_'))).map fun ds => ds.foldl (fun n d => base * n + d) 0

/-- The base of a numeral, and what follows the mark for it. -/
def baseOf : List Char → Nat × List Char
  | '0' :: 'x' :: cs => (16, cs)
  | '0' :: 'b' :: cs => (2, cs)
  | '0' :: 'o' :: cs => (8, cs)
  | cs => (10, cs)

/-- Take a natural number below a limit. -/
def naturalBelow (limit : Nat) : Reader Nat := fun cs =>
  let (base, cs) := baseOf cs
  (natInBase? base (cs.takeWhile isNaturalChar)).bind fun n =>
    if n < limit then some (n, cs.dropWhile isNaturalChar) else none

/-- Take a natural number of at most 64 bits. -/
def natural : Reader Nat := naturalBelow (Nat.pow 2 64)

/-! ### Floating-point numbers -/

/-- The words for numbers without digits. -/
def numberWords : List String := ["inf", "+inf", "-inf", "NaN", "+NaN", "-NaN"]

/-- The characters of floating-point numbers with digits. An underscore belongs to the numeral, but is
no part of a number. -/
def isFloatChar (c : Char) : Bool :=
  c.isDigit || c = 'e' || c = 'E' || c = '.' || c = '+' || c = '-' || c = '_'

/-- Take a floating-point number. -/
def float : Reader Float := do
  match ← anyKeyword? numberWords with
  | some name => readNumber? name
  | none => do
    let cs ← get
    set (cs.dropWhile isFloatChar)
    readNumber? (String.ofList (cs.takeWhile isFloatChar))

/-! ### Numbers of either kind -/

/-- Take a whole number of at most 64 bits, which may have a sign and has one bit less then. -/
def integer : Reader Unit := fun cs =>
  match cs with
  | '+' :: cs => (naturalBelow (Nat.pow 2 63) cs).map fun (_, rest) => ((), rest)
  | '-' :: cs => (naturalBelow (Nat.pow 2 63 + 1) cs).map fun (_, rest) => ((), rest)
  | cs => (natural cs).map fun (_, rest) => ((), rest)

/-- A numeral is a floating-point number when that takes more of its characters. -/
def looksFloat (cs : List Char) : Bool :=
  let cs := match cs with
    | '+' :: cs => cs
    | '-' :: cs => cs
    | cs => cs
  (cs.takeWhile isNaturalChar).length < (cs.takeWhile isFloatChar).length

/-- Take a number of either kind. What is no whole number is read as a floating-point number after all. -/
def number : Reader Unit := fun cs =>
  if looksFloat cs then (discard float : Reader Unit) cs
  else (integer <|> discard float : Reader Unit) cs

end UnitText

end StackScript
