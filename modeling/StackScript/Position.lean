/-!
Positions in a source text: line and column, both counted from one, columns in characters.

* `Position.start`: where a text begins;
* `Position.advance`, `Position.advanceBy`: where one stands after a character, or after a text.
-/

namespace StackScript

/-- A line and a column, both counted from one. -/
structure Position where
  line : Nat
  column : Nat
deriving DecidableEq

namespace Position

/-- The position of the first character of a text. -/
def start : Position := ⟨1, 1⟩

/-- The position after a character: a line feed opens the next line. -/
def advance (p : Position) (c : Char) : Position :=
  if c = '\n' then ⟨p.line + 1, 1⟩ else ⟨p.line, p.column + 1⟩

/-- The position after a text. -/
def advanceBy (p : Position) (text : List Char) : Position :=
  text.foldl advance p

end Position

end StackScript
