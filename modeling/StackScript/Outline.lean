import StackScript.Decimal.Style
import StackScript.Syntax
import StackScript.Text.Escaped

/-!
Outlines: a program as an indented tree.

* `Outline`: named data, with their parts in order or by name, and lists; `Outline.write` lays an
  outline out with one part to a line;
* `Node.outline`, `Program.outline`: the outlines of syntax.
-/

namespace StackScript

/-- Data as an outline shows it. -/
inductive Outline where
  /-- A text without parts. -/
  | leaf (text : String)
  | list (items : List Outline)
  /-- A name with parts in order. -/
  | tagged (name : String) (parts : List Outline)
  /-- A name with named parts. -/
  | record (name : String) (fields : List (String × Outline))

namespace Outline

/-- The margin of a line that is so deep inside others. -/
def margin (depth : Nat) : String := padLeft (4 * depth) ""

/-- Lines between an opening and a closing mark, each with its margin and a comma. -/
def enclosed (depth : Nat) (opening closing : String) (lines : List String) : String :=
  opening ++ "\n"
    ++ String.join (lines.map fun line => margin (depth + 1) ++ line ++ ",\n")
    ++ margin depth ++ closing

mutual

/-- The text of an outline that begins so deep inside others. -/
def write (depth : Nat) : Outline → String
  | leaf text => text
  | list [] => "[]"
  | list (item :: items) =>
    enclosed depth "[" "]" (write (depth + 1) item :: writeAll (depth + 1) items)
  | tagged name parts => enclosed depth (name ++ "(") ")" (writeAll (depth + 1) parts)
  | record name fields =>
    enclosed depth (name ++ " \x7b") "\x7d" (writeFields (depth + 1) fields)

/-- The texts of outlines. -/
def writeAll (depth : Nat) : List Outline → List String
  | [] => []
  | item :: items => write depth item :: writeAll depth items

/-- The texts of named parts. -/
def writeFields (depth : Nat) : List (String × Outline) → List String
  | [] => []
  | (name, part) :: rest => (name ++ ": " ++ write depth part) :: writeFields depth rest

end

/-- A text. -/
def ofText (s : String) : Outline := leaf (shownText s)

/-- Exponents from -4 to 15 are written positionally, the others without a plus sign. -/
def numberStyle : NumberStyle where
  positional e := -4 ≤ e && e < 16
  plusSign := false
  exponentDigits := 1
  nan := "NaN"

/-- The word for a binary operator. -/
def ofBinaryOp : BinaryOp → Outline
  | .add => leaf "Add"
  | .sub => leaf "Sub"
  | .mul => leaf "Mul"
  | .div => leaf "Div"
  | .eq => leaf "Eq"
  | .ne => leaf "NotEq"
  | .lt => leaf "Less"
  | .gt => leaf "Greater"

/-- The word for a unary operator. -/
def ofUnaryOp : UnaryOp → Outline
  | .plus => leaf "Plus"
  | .minus => leaf "Minus"

mutual

/-- The outline of a node. -/
def ofNode : Node → Outline
  | .number x => tagged "Number" [leaf (numberStyle.write x)]
  | .string s => tagged "String" [ofText s]
  | .identifier name => tagged "Identifier" [ofText name]
  | .binary op left right =>
    record "BinaryOp" [("left", ofNode left), ("op", ofBinaryOp op), ("right", ofNode right)]
  | .unary op operand => record "UnaryOp" [("op", ofUnaryOp op), ("operand", ofNode operand)]
  | .assign name value => record "Assignment" [("name", ofText name), ("value", ofNode value)]
  | .call name arguments =>
    record "Call" [("name", ofText name), ("arguments", list (ofNodes arguments))]
  | .define name parameters body =>
    tagged "FunctionDef"
      [record "FunctionDef"
        [("name", ofText name),
         ("parameters", list (parameters.map ofText)),
         ("body", list (ofNodes body))]]
  | .branch condition thenBody none =>
    record "If"
      [("condition", ofNode condition),
       ("then_body", list (ofNodes thenBody)),
       ("else_body", leaf "None")]
  | .branch condition thenBody (some elseBody) =>
    record "If"
      [("condition", ofNode condition),
       ("then_body", list (ofNodes thenBody)),
       ("else_body", tagged "Some" [list (ofNodes elseBody)])]
  | .loop condition body =>
    record "While" [("condition", ofNode condition), ("body", list (ofNodes body))]
  | .ret none => tagged "Return" [leaf "None"]
  | .ret (some value) => tagged "Return" [tagged "Some" [ofNode value]]
  | .print value => tagged "Print" [ofNode value]

/-- The outlines of nodes. -/
def ofNodes : List Node → List Outline
  | [] => []
  | node :: nodes => ofNode node :: ofNodes nodes

end

/-- The outline of a program. -/
def ofProgram (p : Program) : Outline :=
  record "Program" [("statements", list (ofNodes p))]

end Outline

end StackScript
