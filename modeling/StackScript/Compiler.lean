import StackScript.Bytecode.Unit
import StackScript.Log

/-!
From programs to code for the stack machine.

Expressions are emitted operands first. A branch and a loop are emitted with absolute jump targets,
which follow from the place where their code begins and from the lengths of its parts. A function
definition puts nothing into the code around it: its body is compiled on its own, with its own pool,
and joins the functions of the unit together with the functions defined inside it.

* `Emission`: what a compilation gathers besides code;
* `emit`, `emitAll`: the code of a node, and of nodes one after the other, that begins at `base`;
* `compile`: the unit of a program, with the notices of its compilation.
-/

namespace StackScript

/-- What a compilation gathers besides code: the pool, the functions, and the definitions that were
moved out of other ones, as pairs of the inner and the outer name. -/
structure Emission where
  constants : ConstantPool := []
  functions : Table CompiledFunction := {}
  hoisted : List (String × String) := []
deriving Inhabited

/-- A computation that adds to an emission. -/
abbrev Emit (α : Type) := StateM Emission α

/-- Load a constant. -/
def loadConstant (c : Constant) : Emit (List Instruction) := fun e =>
  let (i, constants) := e.constants.place c
  ([.loadConst i], { e with constants := constants })

/-- A compiled body joins the functions, and then the functions inside it do. -/
def Emission.addFunction (e : Emission) (name : String) (code : List Instruction)
    (inner : Emission) : Emission :=
  { e with
    functions :=
      (e.functions.insert name ⟨code, inner.constants⟩).insertAll inner.functions.entries
    hoisted := e.hoisted ++ inner.hoisted ++ inner.functions.names.map fun n => (n, name) }

mutual

/-- The code of a node that begins at `base`. -/
def emit (base : Nat) : Node → Emit (List Instruction)
  | .number x => loadConstant (.number x)
  | .string s => loadConstant (.string s)
  | .identifier name => return [.loadVar name]
  | .binary op left right => do
    let l ← emit base left
    let r ← emit (base + l.length) right
    return l ++ r ++ [.binary op]
  | .unary op operand => do
    let code ← emit base operand
    return code ++ [.unary op]
  | .assign name value => do
    let code ← emit base value
    return code ++ [.storeVar name]
  | .call name arguments => do
    let code ← emitAll base arguments
    return code ++ [.call name arguments.length]
  | .define name _ body => fun e =>
    let (code, inner) := emitAll 0 body {}
    ([], e.addFunction name code inner)
  | .branch condition thenBody none => do
    let test ← emit base condition
    let thenCode ← emitAll (base + test.length + 1) thenBody
    let stop := base + test.length + 1 + thenCode.length + 1
    return test ++ .jumpIfFalse stop :: thenCode ++ [.jump stop]
  | .branch condition thenBody (some elseBody) => do
    let test ← emit base condition
    let thenCode ← emitAll (base + test.length + 1) thenBody
    let elseStart := base + test.length + 1 + thenCode.length + 1
    let elseCode ← emitAll elseStart elseBody
    return test ++ .jumpIfFalse elseStart :: thenCode
      ++ .jump (elseStart + elseCode.length) :: elseCode
  | .loop condition body => do
    let test ← emit base condition
    let code ← emitAll (base + test.length + 1) body
    return test ++ .jumpIfFalse (base + test.length + 1 + code.length + 1) :: code ++ [.jump base]
  | .ret none => do
    let code ← loadConstant .none
    return code ++ [.ret]
  | .ret (some value) => do
    let code ← emit base value
    return code ++ [.ret]
  | .print value => do
    let code ← emit base value
    return code ++ [.print]

/-- The code of nodes one after the other that begins at `base`. -/
def emitAll (base : Nat) : List Node → Emit (List Instruction)
  | [] => return []
  | node :: nodes => do
    let first ← emit base node
    let rest ← emitAll (base + first.length) nodes
    return first ++ rest

end

/-- The unit of a program, which exports and imports nothing, and the notices of its compilation. -/
def compileWithNotices (name : String) (program : Program) : BytecodeUnit × List Notice :=
  let (code, e) := emitAll 0 program {}
  let notice := .compiledUnit name code.length e.constants.length e.functions.size
  ({ name, code, constants := e.constants, functions := e.functions },
    e.hoisted.map (fun h => .hoisting h.1 h.2) ++ [notice])

/-- The unit of a program, which exports and imports nothing. -/
def compile (name : String) (program : Program) : BytecodeUnit :=
  (compileWithNotices name program).1

end StackScript
