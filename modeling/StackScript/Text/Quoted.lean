import StackScript.Text.Numeral

/-!
Quoted text: how a listing writes a string constant or the name of a called function.

A text stands between single quotation marks, or between double ones when it holds a single mark
and no double one. Between them only the delimiter, the backslash and the ASCII control characters
are escaped; all other text is raw.

* `Quoted.delimiter`: the quotation mark that a text is given;
* `Quoted.encode`: the characters between the marks;
* `quoted`: the whole.
-/

namespace StackScript

namespace Quoted

/-- Double marks are used exactly when that saves escaping every single mark. -/
def delimiter (cs : List Char) : Char :=
  if cs.contains '\'' && !cs.contains '"' then '"' else '\''

/-- The two hexadecimal digits of a code point below 256. -/
def twoHexDigits (n : Nat) : List Char :=
  [hexDigit (n / 16), hexDigit (n % 16)]

/-- One character between marks `q`. -/
def encodeChar (q c : Char) : List Char :=
  if c = '\\' then ['\\', '\\']
  else if c = '\n' then ['\\', 'n']
  else if c = '\r' then ['\\', 'r']
  else if c = '\t' then ['\\', 't']
  else if c = q then ['\\', c]
  else if c.toNat < 0x20 || c.toNat = 0x7f then '\\' :: 'x' :: twoHexDigits c.toNat
  else [c]

/-- A text between marks `q`. -/
def encode (q : Char) (cs : List Char) : List Char :=
  cs.flatMap (encodeChar q)

end Quoted

/-- A text in quotation marks, as listings write it. -/
def quoted (s : String) : String :=
  let q := Quoted.delimiter s.toList
  String.ofList (q :: Quoted.encode q s.toList ++ [q])

end StackScript
