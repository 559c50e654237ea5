import StackScript.Text.CharClass
import StackScript.Text.Numeral

/-!
Escaped text: a character or a text shown so that every character of it can be seen.

Tab, line feed, carriage return, NUL and the backslash have short escapes; marks that would attach
to what stands before them and characters that cannot be drawn are written as `\u` and their code
point in braces. Which quotation marks are escaped depends on what is quoted, so it is a parameter.

* `EscapeStyle`: the quotation marks that are escaped;
* `escaped`: the escaped form of one character;
* `shownChar`, `shownText`: a character and a text between their quotation marks.
-/

namespace StackScript

/-- Which quotation marks carry a backslash. -/
structure EscapeStyle where
  single : Bool
  double : Bool

/-- A character by its code point: `\u`, then hexadecimal digits between braces. -/
def codePointEscape (c : Char) : String :=
  "\\u\x7b" ++ hexText c.toNat ++ "\x7d"

/-- The escaped form of one character. -/
def escaped (style : EscapeStyle) (c : Char) : String :=
  if c = Char.ofNat 0 then "\\0"
  else if c = '\t' then "\\t"
  else if c = '\r' then "\\r"
  else if c = '\n' then "\\n"
  else if c = '\\' then "\\\\"
  else if c = '"' && style.double then "\\\""
  else if c = '\'' && style.single then "\\'"
  else if extendsGrapheme c || !isPrintable c then codePointEscape c
  else String.singleton c

/-- The escaped form of a text, character by character. -/
def escapedText (style : EscapeStyle) (s : String) : String :=
  String.join (s.toList.map (escaped style))

/-- A character between single quotation marks, the only ones it escapes. -/
def shownChar (c : Char) : String :=
  "'" ++ escaped ⟨true, false⟩ c ++ "'"

/-- A text between double quotation marks, the only ones it escapes. -/
def shownText (s : String) : String :=
  "\"" ++ escapedText ⟨false, true⟩ s ++ "\""

end StackScript
