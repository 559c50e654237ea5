import StackScript.Decimal.Style

/-!
The text of a number, as `print` and listings show it.

* `numberStyle`: the decisions of this text;
* `numberText`: the text of a number.
-/

namespace StackScript

/-- Exponents from -4 to 15 are written positionally, the others with a sign and at least two
digits; the datum that is not a number is `nan`. -/
def numberStyle : NumberStyle where
  positional e := -4 ≤ e && e < 16
  plusSign := true
  exponentDigits := 2
  nan := "nan"

/-- The text of a number. -/
def numberText (x : Float) : String :=
  numberStyle.write x

end StackScript
