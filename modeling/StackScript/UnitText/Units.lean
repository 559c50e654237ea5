import StackScript.Bytecode.Unit
import StackScript.UnitText.Term

/-!
Units as stored data.

Every part of a unit is a datum: structures are groups of fields, the cases of constants and instructions
are words, and what a case holds is behind its word. What is expected of a datum is its shape, and a
datum of that shape is a unit if each field of its groups is there once.

* `ofUnit`: the datum of a unit, of its functions, its code and its constants;
* `unitShape`: the shape of that datum;
* `unitOf?`: the unit of a datum.
-/

namespace StackScript

namespace UnitText

/-! ### From units to data -/

/-- A word with one datum in parentheses behind it. -/
def tagged (name : String) (t : Term) : Term := .group (some name) [t]

/-- A constant. -/
def ofConstant : Constant → Term
  | .number x => tagged "Number" (.number x)
  | .string s => tagged "String" (.text s)
  | .none => .word "None"

/-- The word for a binary operator. -/
def binaryWord : BinaryOp → String
  | .add => "BinaryAdd"
  | .sub => "BinarySub"
  | .mul => "BinaryMul"
  | .div => "BinaryDiv"
  | .eq => "BinaryEq"
  | .ne => "BinaryNeq"
  | .lt => "BinaryLt"
  | .gt => "BinaryGt"

/-- The word for a unary operator. -/
def unaryWord : UnaryOp → String
  | .plus => "UnaryPlus"
  | .minus => "UnaryMinus"

/-- An instruction. -/
def ofInstruction : Instruction → Term
  | .loadConst i => tagged "LoadConst" (.natural i)
  | .loadVar name => tagged "LoadVar" (.text name)
  | .storeVar name => tagged "StoreVar" (.text name)
  | .binary op => .word (binaryWord op)
  | .unary op => .word (unaryWord op)
  | .call name arity =>
    .record (some "CallFunc") [("name", .text name), ("arity", .natural arity)]
  | .ret => .word "Return"
  | .jump t => tagged "Jump" (.natural t)
  | .jumpIfFalse t => tagged "JumpIfFalse" (.natural t)
  | .print => .word "Print"

/-- A list of texts. -/
def ofTexts (ss : List String) : Term := .list (ss.map .text)

/-- Code. -/
def ofCode (code : List Instruction) : Term := .list (code.map ofInstruction)

/-- A pool. -/
def ofPool (pool : ConstantPool) : Term := .list (pool.map ofConstant)

/-- A function. -/
def ofFunction (f : CompiledFunction) : Term :=
  .record none [("instructions", ofCode f.code), ("constants", ofPool f.constants)]

/-- An entry of a table of functions. -/
def ofEntry (e : String × CompiledFunction) : Term :=
  .group none [.text e.1, ofFunction e.2]

/-- A table of functions, entry by entry. -/
def ofFunctions (t : Table CompiledFunction) : Term :=
  .record none [("entries", .list (t.entries.map ofEntry))]

/-- A unit. -/
def ofUnit (u : BytecodeUnit) : Term :=
  .record none
    [("name", .text u.name),
     ("instructions", ofCode u.code),
     ("constants", ofPool u.constants),
     ("functions", ofFunctions u.functions),
     ("exports", ofTexts u.exports),
     ("imports", ofTexts u.imports)]

/-! ### The shapes of the data -/

/-- Constants. -/
def constantShape : Shape :=
  .choice [("Number", .datum .number), ("String", .datum .text), ("None", .nothing)]

/-- Instructions. -/
def instructionShape : Shape :=
  .choice
    [("LoadConst", .datum .natural),
     ("LoadVar", .datum .text),
     ("StoreVar", .datum .text),
     ("BinaryAdd", .nothing),
     ("BinarySub", .nothing),
     ("BinaryMul", .nothing),
     ("BinaryDiv", .nothing),
     ("BinaryEq", .nothing),
     ("BinaryNeq", .nothing),
     ("BinaryLt", .nothing),
     ("BinaryGt", .nothing),
     ("UnaryPlus", .nothing),
     ("UnaryMinus", .nothing),
     ("CallFunc", .fields [("name", .text), ("arity", .natural)]),
     ("Return", .nothing),
     ("Jump", .datum .natural),
     ("JumpIfFalse", .datum .natural),
     ("Print", .nothing)]

/-- Functions. -/
def functionShape : Shape :=
  .record "CompiledFunction"
    [("instructions", .list instructionShape), ("constants", .list constantShape)]

/-- Tables of functions. -/
def functionsShape : Shape :=
  .record "FunctionTable" [("entries", .list (.pair .text functionShape))]

/-- Units. -/
def unitShape : Shape :=
  .record "BytecodeUnit"
    [("name", .text),
     ("instructions", .list instructionShape),
     ("constants", .list constantShape),
     ("functions", functionsShape),
     ("exports", .list .text),
     ("imports", .list .text)]

/-! ### From data to units -/

/-- A text. -/
def textOf? : Term → Option String
  | .text s => some s
  | _ => none

/-- A natural number. -/
def naturalOf? : Term → Option Nat
  | .natural n => some n
  | _ => none

/-- A number. -/
def numberOf? : Term → Option Float
  | .number x => some x
  | _ => none

/-- A list. -/
def listOf? {α : Type} (itemOf? : Term → Option α) : Term → Option (List α)
  | .list items => items.mapM itemOf?
  | _ => none

/-- A field that has to be there once. -/
def fieldOf? {α : Type} (fields : List (String × Term)) (name : String) (valueOf? : Term → Option α) :
    Option α :=
  match fields.filter (·.1 = name) with
  | [field] => valueOf? field.2
  | _ => none

/-- A constant. -/
def constantOf? : Term → Option Constant
  | .group (some "Number") [t] => .number <$> numberOf? t
  | .group (some "String") [t] => .string <$> textOf? t
  | .word "None" => some .none
  | _ => none

/-- The instruction that is a word alone. -/
def wordInstruction? : String → Option Instruction
  | "BinaryAdd" => some (.binary .add)
  | "BinarySub" => some (.binary .sub)
  | "BinaryMul" => some (.binary .mul)
  | "BinaryDiv" => some (.binary .div)
  | "BinaryEq" => some (.binary .eq)
  | "BinaryNeq" => some (.binary .ne)
  | "BinaryLt" => some (.binary .lt)
  | "BinaryGt" => some (.binary .gt)
  | "UnaryPlus" => some (.unary .plus)
  | "UnaryMinus" => some (.unary .minus)
  | "Return" => some .ret
  | "Print" => some .print
  | _ => none

/-- The instruction that is a word with an operand. -/
def operandInstruction? (name : String) (t : Term) : Option Instruction :=
  match name with
  | "LoadConst" => .loadConst <$> naturalOf? t
  | "LoadVar" => .loadVar <$> textOf? t
  | "StoreVar" => .storeVar <$> textOf? t
  | "Jump" => .jump <$> naturalOf? t
  | "JumpIfFalse" => .jumpIfFalse <$> naturalOf? t
  | _ => none

/-- An instruction. -/
def instructionOf? : Term → Option Instruction
  | .word name => wordInstruction? name
  | .group (some name) [t] => operandInstruction? name t
  | .record (some "CallFunc") fields => do
    let name ← fieldOf? fields "name" textOf?
    let arity ← fieldOf? fields "arity" naturalOf?
    return .call name arity
  | _ => none

/-- Code. -/
def codeOf? : Term → Option (List Instruction) := listOf? instructionOf?

/-- A pool. -/
def poolOf? : Term → Option ConstantPool := listOf? constantOf?

/-- A function. -/
def functionOf? : Term → Option CompiledFunction
  | .record none fields => do
    let code ← fieldOf? fields "instructions" codeOf?
    let constants ← fieldOf? fields "constants" poolOf?
    return { code, constants }
  | _ => none

/-- An entry of a table of functions. -/
def entryOf? : Term → Option (String × CompiledFunction)
  | .group none [name, f] => do return (← textOf? name, ← functionOf? f)
  | _ => none

/-- A table of functions. -/
def functionsOf? : Term → Option (Table CompiledFunction)
  | .record none fields => Table.mk <$> fieldOf? fields "entries" (listOf? entryOf?)
  | _ => none

/-- A unit. -/
def unitOf? : Term → Option BytecodeUnit
  | .record none fields => do
    let name ← fieldOf? fields "name" textOf?
    let code ← fieldOf? fields "instructions" codeOf?
    let constants ← fieldOf? fields "constants" poolOf?
    let functions ← fieldOf? fields "functions" functionsOf?
    let exports ← fieldOf? fields "exports" (listOf? textOf?)
    let imports ← fieldOf? fields "imports" (listOf? textOf?)
    return { name, code, constants, functions, exports, imports }
  | _ => none

end UnitText

end StackScript
