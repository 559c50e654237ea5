import StackScript.Text.CharTable

/-!
Classes of characters.

The ASCII part of each class is spelled out, so that it can be computed with in a proof; above
ASCII the class is a table of `StackScript.Text.CharTable`.

* `opensName`, `continuesName`: the characters of variable and function names;
* `continuesNumber`: the characters of number literals;
* `isWhiteSpace`, `trimmed`: white space, and a text without it at its ends;
* `isPrintable`, `extendsGrapheme`: the characters that can be drawn, and the marks among them that
  attach to what stands before them.
-/

namespace StackScript

/-- The ASCII characters. -/
def isAscii (c : Char) : Bool :=
  c.toNat < 0x80

/-- A letter: the Unicode property `Alphabetic`. -/
def isAlphabetic (c : Char) : Bool :=
  if isAscii c then c.isAlpha else alphabeticTable.contains c

/-- A number of any script: general category `Nd`, `Nl` or `No`. -/
def isNumeric (c : Char) : Bool :=
  if isAscii c then c.isDigit else numericTable.contains c

/-- A name opens with a letter or an underscore. -/
def opensName (c : Char) : Bool :=
  isAlphabetic c || c = '_'

/-- After its first character a name may hold digits of any script too. -/
def continuesName (c : Char) : Bool :=
  isAlphabetic c || isNumeric c || c = '_'

/-- The characters of a number literal after its first digit. -/
def continuesNumber (c : Char) : Bool :=
  c.isDigit || c = '.'

/-- The Unicode property `White_Space`. -/
def isWhiteSpace (c : Char) : Bool :=
  let n := c.toNat
  (9 ≤ n && n ≤ 13) || n = 0x20 || n = 0x85 || n = 0xa0 || n = 0x1680
    || (0x2000 ≤ n && n ≤ 0x200a) || n = 0x2028 || n = 0x2029 || n = 0x202f || n = 0x205f
    || n = 0x3000

/-- A text without white space at its ends. -/
def trimmed (s : String) : String :=
  String.ofList
    ((s.toList.dropWhile isWhiteSpace).reverse.dropWhile isWhiteSpace).reverse

/-- A mark that attaches to the character before it: the Unicode property `Grapheme_Extend`, letters
apart. -/
def extendsGrapheme (c : Char) : Bool :=
  !isAscii c && graphemeExtendTable.contains c

/-- A character that can be drawn: no control, format, separator (the space apart), private use
or unassigned code point, and no letter that only fills a place. -/
def isPrintable (c : Char) : Bool :=
  if isAscii c then 0x20 ≤ c.toNat && c.toNat != 0x7f else !unprintableTable.contains c

end StackScript
