import StackScript.UnitText.Foreign
import StackScript.UnitText.Term

/-!
The datum of a text.

* `datum`: the reader of a datum of a shape;
* `document`: the reader of a text that holds such a datum.

Design notes: the fields of a record may stand in any order, and fields that are not expected are skipped.
A record may carry the name of what it is, and no other. Attributes before the datum may turn on
extensions of the notation. A reader is given whether an optional datum may be bare, and the levels left
where it begins.
-/

namespace StackScript

namespace UnitText

/-! ### Groups -/

/-- The levels left inside a list, a pair or a record. -/
def within (levels : Nat) : Nat := levels - 2

/-- The levels left inside the parentheses behind a word. -/
def withinNamed (levels : Nat) : Nat := levels - 3

/-- Take the name of a record, if a word stands there, and its opening parenthesis. -/
def recordOpening (name : String) : Reader Unit := do
  if (← get).head?.any continuesWord then
    if (← word) ≠ name then failure
  space
  mark '('

/-- Take the name of a field, a colon, and the datum of the field. -/
def namedPart {α : Type} (field : String → Reader α) : Reader α := do
  let name ← word
  space
  mark ':'
  space
  field name

/-- Take the fields of a record after its opening parenthesis, and keep those that are expected. -/
def fieldParts (field : String → Reader (Option (String × Term))) : Reader (List (String × Term)) := do
  return (← parts ')' (namedPart field)).filterMap id

/-- Take what stands in parentheses behind a word. -/
def operand {α : Type} (reader : Reader α) : Reader α := do
  space
  mark '('
  space
  let a ← reader
  discard comma?
  mark ')'
  return a

/-- Take two data in parentheses. -/
def pair (first second : Reader Term) : Reader Term := do
  mark '('
  space
  let a ← first
  if ← comma? then
    let b ← second
    discard comma?
    mark ')'
    return .group none [a, b]
  else failure

/-! ### Data -/

mutual

/-- Take a datum of a shape. -/
def datum (bareOptions : Bool) (levels : Nat) : Shape → Reader Term
  | .natural => .natural <$> natural
  | .number => .number <$> float
  | .text => .text <$> text
  | .list item => do
    mark '['
    return .list (← parts ']' (datum bareOptions (within levels) item))
  | .pair first second =>
    pair (datum bareOptions (within levels) first) (datum bareOptions (within levels) second)
  | .record name fields => do
    recordOpening name
    return .record none (← fieldParts (field bareOptions (within levels) fields))
  | .choice cases => do choose bareOptions levels cases (← word)

/-- Take the datum of a field, or skip it if the field is not expected. -/
def field (bareOptions : Bool) (levels : Nat) :
    List (String × Shape) → String → Reader (Option (String × Term))
  | [], _ => do
    foreign bareOptions levels
    return none
  | (expected, shape) :: fields, name =>
    if expected = name then (fun t => some (name, t)) <$> datum bareOptions levels shape
    else field bareOptions levels fields name

/-- Take what a word has behind it, if the word is one of those that are expected. -/
def choose (bareOptions : Bool) (levels : Nat) : List (String × Behind) → String → Reader Term
  | [], _ => failure
  | (expected, behind) :: cases, name =>
    if expected = name then following bareOptions (withinNamed levels) name behind
    else choose bareOptions levels cases name

/-- Take what a word has behind it. -/
def following (bareOptions : Bool) (levels : Nat) (name : String) : Behind → Reader Term
  | .nothing => return .word name
  | .datum shape => do return .group (some name) [← operand (datum bareOptions levels shape)]
  | .fields fields => do
    space
    mark '('
    return .record (some name) (← fieldParts (field bareOptions levels fields))

end

/-! ### Attributes -/

/-- The extension by which an optional datum may be bare. -/
def bareOptionsName : String := "implicit_some"

/-- The extensions of the notation that an attribute may name. The others are about data that units do
not have. -/
def extensionNames : List String :=
  ["unwrap_newtypes", bareOptionsName, "unwrap_variant_newtypes"]

/-- Take the name of an extension. -/
def extension : Reader String := do
  let name ← word
  if extensionNames.contains name then return name else failure

/-- Take marks one after the other, each with the space behind it. -/
def spacedMarks : List Char → Reader Unit
  | [] => return ()
  | c :: cs => do
    mark c
    space
    spacedMarks cs

/-- Take an attribute, which turns one or more extensions on. -/
def attributeNames : Reader (List String) := do
  spacedMarks ['#', '!', '[']
  "enable".toList.forM mark
  space
  mark '('
  let names ← parts ')' extension
  if names.isEmpty then failure
  space
  mark ']'
  return names

/-- Take the space before the first datum, with the attributes in it, of which there are fewer than
`bound`, and the extensions that those turn on. -/
def preamble : (bound : Nat) → Reader (List String)
  | 0 => failure
  | bound + 1 => do
    space
    if (← get).head? = some '#' then do
      let names ← attributeNames
      return names ++ (← preamble bound)
    else return []

/-- The levels of a whole text. -/
def mostLevels : Nat := 128

/-- Take all of a text: attributes, a datum of a shape, and space. -/
def document (shape : Shape) : Reader Term := do
  let names ← preamble ((← get).length + 1)
  let t ← datum (names.contains bareOptionsName) mostLevels shape
  space
  return t

/-- The datum of a text that holds nothing else but attributes before it, white space and comments. -/
def readText? (shape : Shape) (text : String) : Option Term :=
  match document shape text.toList with
  | some (t, []) => some t
  | _ => none

end UnitText

end StackScript
