import StackScript.Bytecode.Constant
import StackScript.Bytecode.Instruction
import StackScript.Table

/-!
Units and linked programs, and their listings.

A unit is what one source compiles to: its main code with a pool, and a table of functions, each with
a pool of its own. A linked program has one pool for everything.

* `CompiledFunction`, `BytecodeUnit`, `LinkedProgram`: the data;
* `BytecodeUnit.InWords`: the units whose numbers are machine words;
* `BytecodeUnit.listing`, `LinkedProgram.listing`: their text forms.
-/

namespace StackScript

/-- The code of a function body; its constants are in its own pool. -/
structure CompiledFunction where
  code : List Instruction := []
  constants : ConstantPool := []
deriving Inhabited

/-- A compiled source, with the symbols that it offers to other units and those that it needs. -/
structure BytecodeUnit where
  name : String
  code : List Instruction := []
  constants : ConstantPool := []
  functions : Table CompiledFunction := {}
  exports : List String := []
  imports : List String := []
deriving Inhabited

/-- The code of a unit: its main code, and that of its functions. -/
def BytecodeUnit.streams (u : BytecodeUnit) : List (List Instruction) :=
  u.code :: u.functions.entries.map fun f => f.2.code

/-- All numbers in the code of a unit have at most 64 bits. -/
def BytecodeUnit.InWords (u : BytecodeUnit) : Prop :=
  ∀ code ∈ u.streams, ∀ i ∈ code, ∀ n ∈ i.number?, n < Nat.pow 2 64

/-- Units put together: the code starts at `entryPoint`. -/
structure LinkedProgram where
  constants : ConstantPool := []
  code : List Instruction := []
  functions : Table (List Instruction) := {}
  entryPoint : Nat := 0
deriving Inhabited

namespace Listing

/-- The lines of code, each with its index in a field of four columns, behind a margin. -/
def codeLines (margin : String) (code : List Instruction) : List String :=
  code.mapIdx fun i instruction =>
    margin ++ padLeft 4 (toString i) ++ ": " ++ instruction.shown

/-- The lines of a pool, each with its index. -/
def constantLines (constants : ConstantPool) : List String :=
  constants.mapIdx fun i c => s!"  {i}: " ++ c.shown

/-- The lines of a function: its name, its code, and an empty line. -/
def functionLines (name : String) (code : List Instruction) : List String :=
  ("  " ++ name ++ ":") :: codeLines "    " code ++ [""]

/-- The lines of a table of functions, none if it is empty. -/
def functionSection (functions : List (String × List Instruction)) : List String :=
  if functions.isEmpty then []
  else "FUNCTIONS:" :: functions.flatMap fun f => functionLines f.1 f.2

/-- A listing: a title, the constants, the code, the functions, and some last lines. -/
def render (title : String) (constants : ConstantPool) (code : List Instruction)
    (functions : List (String × List Instruction)) (ending : List String) : String :=
  "\n".intercalate (
    [title, "", "CONSTANTS:"] ++ constantLines constants ++
    ["", "CODE:"] ++ codeLines "  " code ++
    [""] ++ functionSection functions ++ ending)

end Listing

/-- The listing of a unit. The pools of functions are not listed. -/
def BytecodeUnit.listing (u : BytecodeUnit) : String :=
  Listing.render "# Codex Object Code" u.constants u.code
    (u.functions.entries.map fun f => (f.1, f.2.code)) []

/-- The listing of a linked program ends with its entry point. -/
def LinkedProgram.listing (p : LinkedProgram) : String :=
  Listing.render "# Codex Executable" p.constants p.code p.functions.entries
    [s!"ENTRY_POINT: {p.entryPoint}"]

end StackScript
