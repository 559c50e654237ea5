import StackScript.UnitText.Parser
import StackScript.UnitText.Units

/-!
Units as text.

Which text a datum has is left to a codec. A unit is stored as the text of its datum, and it is
loaded from a text that holds a datum of the shape of units.

* `Codec`: a writer and a reader of data, and how numbers are written and read;
* `Codec.store`, `Codec.load?`: a unit as a text of the codec, and back;
* `standardCodec`: the codec of the command line;
* `BytecodeUnit.toText`, `BytecodeUnit.ofText?`: its text of a unit, and the unit of its text.
-/

namespace StackScript

namespace UnitText

/-- How data are kept as text. -/
structure Codec where
  /-- The text of a datum, if it can be written. -/
  write : Term → Option String
  /-- The datum of a text, if the text holds one of the shape. -/
  read : Shape → String → Option Term
  /-- What is written for a number. -/
  numeral : Float → String
  /-- The number that a numeral is read as. -/
  number? : String → Option Float

namespace Codec

variable (c : Codec)

/-- The text of a unit. -/
def store (u : BytecodeUnit) : Option String :=
  c.write (ofUnit u)

/-- The unit of a text. -/
def load? (text : String) : Option BytecodeUnit :=
  (c.read unitShape text).bind unitOf?

end Codec

/-- Data are written line by line, and numbers positionally. -/
def standardCodec : Codec where
  write t := some (t.write storedNumberStyle.write 0)
  read := readText?
  numeral := storedNumberStyle.write
  number? := readNumber?

end UnitText

/-- The text of a unit. -/
def BytecodeUnit.toText (u : BytecodeUnit) : String :=
  (UnitText.ofUnit u).write UnitText.storedNumberStyle.write 0

/-- The unit of a text. -/
def BytecodeUnit.ofText? (text : String) : Option BytecodeUnit :=
  UnitText.standardCodec.load? text

end StackScript
