import StackScript.UnitText.Codec

/-!
Stored units: a unit as text, and back.

* `UnitText.Term`, `UnitText.Units`: the data that units are stored as;
* `UnitText.Reader`, `UnitText.Numeral`, `UnitText.Foreign`, `UnitText.Parser`: the reader of data;
* `UnitText.Codec`: units as text.
-/
