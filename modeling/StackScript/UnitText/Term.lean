import StackScript.Text.Escaped

/-!
The data that stored units consist of, their layout, and their shapes.

A stored datum is a natural number, a number, a text, a word, a list in brackets, or a group in
parentheses, which holds either items in order or fields by name and may carry a word before it.

* `Term`: such data;
* `Term.write`: the lines of a datum. A list has an item to a line and a group of fields a field to a
  line, each closed by a comma; a group of items is written in one line as far as its items are;
* `Shape`: the data that are expected in a place, by their kind and their names;
* `Shape.levels`: how deep the data of a shape are nested.
-/

namespace StackScript

/-- Stored data. -/
inductive Term where
  | natural (n : Nat)
  | number (x : Float)
  | text (s : String)
  | word (name : String)
  | list (items : List Term)
  | group (name : Option String) (items : List Term)
  | record (name : Option String) (fields : List (String × Term))

namespace Term

/-- The margin of a line that is so deep inside groups and lists. -/
def margin (depth : Nat) : String := padLeft (4 * depth) ""

/-- A text between its marks. Both quotation marks are escaped. -/
def quotedText (s : String) : String :=
  "\"" ++ escapedText ⟨true, true⟩ s ++ "\""

/-- Lines between an opening and a closing mark, each with its margin and a comma. -/
def enclosed (depth : Nat) (opening closing : String) (lines : List String) : String :=
  if lines.isEmpty then opening ++ closing
  else
    opening ++ "\n"
      ++ String.join (lines.map fun line => margin (depth + 1) ++ line ++ ",\n")
      ++ margin depth ++ closing

mutual

/-- The text of a datum that begins so deep inside others, given how numbers are written. -/
def write (numeral : Float → String) (depth : Nat) : Term → String
  | natural n => toString n
  | number x => numeral x
  | text s => quotedText s
  | word name => name
  | list items => enclosed depth "[" "]" (writeAll numeral (depth + 1) items)
  | group name items =>
    name.getD "" ++ "(" ++ ", ".intercalate (writeAll numeral depth items) ++ ")"
  | record name fields =>
    name.getD "" ++ enclosed depth "(" ")" (writeFields numeral (depth + 1) fields)

/-- The texts of data. -/
def writeAll (numeral : Float → String) (depth : Nat) : List Term → List String
  | [] => []
  | t :: ts => write numeral depth t :: writeAll numeral depth ts

/-- The texts of fields. -/
def writeFields (numeral : Float → String) (depth : Nat) : List (String × Term) → List String
  | [] => []
  | (name, t) :: rest =>
    (name ++ ": " ++ write numeral depth t) :: writeFields numeral depth rest

end

end Term

mutual

/-- The data that are expected in a place. -/
inductive Shape where
  | natural
  | number
  | text
  | list (item : Shape)
  | pair (first second : Shape)
  /-- Fields in parentheses, which may have the name of what they are before them. -/
  | record (name : String) (fields : List (String × Shape))
  /-- One of several words, and what the word has behind it. -/
  | choice (cases : List (String × Behind))

/-- What a word has behind it. -/
inductive Behind where
  | nothing
  | datum (shape : Shape)
  | fields (fields : List (String × Shape))

end

mutual

/-- The lists and groups that are around the innermost data of a shape. -/
def Shape.levels : Shape → Nat
  | .natural => 0
  | .number => 0
  | .text => 0
  | .list item => item.levels + 1
  | .pair first second => max first.levels second.levels + 1
  | .record _ fields => Shape.fieldLevels fields + 1
  | .choice cases => Shape.caseLevels cases + 1

/-- The levels of what is behind a word. -/
def Behind.levels : Behind → Nat
  | .nothing => 0
  | .datum shape => shape.levels
  | .fields fields => Shape.fieldLevels fields

/-- The levels of the data in fields. -/
def Shape.fieldLevels : List (String × Shape) → Nat
  | [] => 0
  | (_, shape) :: fields => max shape.levels (Shape.fieldLevels fields)

/-- The levels of what is behind any of the words. -/
def Shape.caseLevels : List (String × Behind) → Nat
  | [] => 0
  | (_, behind) :: cases => max behind.levels (Shape.caseLevels cases)

end

end StackScript
