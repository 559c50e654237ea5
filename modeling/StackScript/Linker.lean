import StackScript.Bytecode.Unit
import StackScript.Log

/-!
Linking: units put together into one program.

Units are registered one after the other, and no two of them may export one symbol. Linking checks
that every import is exported somewhere, and then takes the units in order: their constants join one
pool, their code is appended, and their functions join one table, all with the operands that load
constants changed to the new indices. Jump targets are moved by the place where the code of their
unit begins only if that is asked for.

* `LinkError`: why units do not fit together;
* `Linker`, `Linker.add`, `Linker.resolveImports`: registering units;
* `Linker.link`: the linked program, with the notices of linking;
* `linkAll`: register and link.
-/

namespace StackScript

/-- How units are linked. -/
structure LinkOptions where
  /-- Jump targets move with the code of their unit. -/
  rebaseJumps : Bool := false
  /-- The constants of a function are those of its own pool, which joins the common pool; otherwise
  they are taken from the main pool of its unit. -/
  mergeFunctionConstants : Bool := false
deriving DecidableEq

/-- Why units do not fit together. -/
inductive LinkError where
  | duplicateSymbol (symbol first second : String)
  | undefinedSymbol (symbol unit : String)
  | duplicateFunction (name : String)
  | constantOutOfRange (unit stream : String) (index : Nat)
  | jumpOutOfRange (unit stream : String) (target offset : Nat)
deriving DecidableEq

namespace LinkError

/-- The error in words. -/
def message : LinkError → String
  | duplicateSymbol symbol first second =>
    "LinkError: duplicate symbol '" ++ symbol ++ "' exported by '" ++ first ++ "' and '" ++ second
      ++ "'"
  | undefinedSymbol symbol unit =>
    "LinkError: undefined symbol '" ++ symbol ++ "' imported by '" ++ unit ++ "'"
  | duplicateFunction name => "LinkError: duplicate function '" ++ name ++ "'"
  | constantOutOfRange unit stream index =>
    "LinkError: '" ++ stream ++ "' in '" ++ unit
      ++ s!"' loads constant {index}, which the unit's pool does not define"
  | jumpOutOfRange unit stream target offset =>
    s!"LinkError: jump target {target} in '" ++ stream ++ "' of '" ++ unit
      ++ s!"' overflows when moved by {offset}"

end LinkError

/-! ### Registering units -/

/-- The units registered so far, in order, and each exported symbol with the name of its unit. -/
structure Linker where
  units : List BytecodeUnit := []
  symbols : Table String := {}

namespace Linker

/-- The first symbol that a unit must not export: one that is registered, or that it has exported
already. -/
def firstClash (symbols : Table String) (unit : String) :
    (seen : List String) → List String → Option LinkError
  | _, [] => none
  | seen, symbol :: rest =>
    match symbols.find? symbol with
    | some first => some (.duplicateSymbol symbol first unit)
    | none =>
      if seen.contains symbol then some (.duplicateSymbol symbol unit unit)
      else firstClash symbols unit (symbol :: seen) rest

/-- Register a unit and its exports, or neither. -/
def add (l : Linker) (u : BytecodeUnit) : Except LinkError Linker :=
  match firstClash l.symbols u.name [] u.exports with
  | some e => .error e
  | none =>
    .ok { units := l.units ++ [u]
          symbols := l.symbols.insertAll (u.exports.map fun symbol => (symbol, u.name)) }

/-- Register units one after the other. -/
def addAll (l : Linker) (us : List BytecodeUnit) : Except LinkError Linker :=
  us.foldlM add l

/-- The first import of a unit that no unit exports. -/
def firstUndefined (l : Linker) (u : BytecodeUnit) : Option LinkError :=
  (u.imports.find? fun symbol => !l.symbols.contains symbol).map fun symbol =>
    .undefinedSymbol symbol u.name

/-- Every import has to be exported by a registered unit. -/
def resolveImports (l : Linker) : Except LinkError Unit :=
  match l.units.findSome? l.firstUndefined with
  | some e => .error e
  | none => .ok ()

end Linker

/-! ### Relocation -/

/-- How the instructions of one stream change: which constant takes the place of each, and by how much
jump targets move. -/
structure Relocation where
  unit : String
  stream : String
  remap : List Nat
  offset : Nat

namespace Relocation

/-- The name of a unit's main code in errors. -/
def mainStream : String := "<main>"

/-- Operands are below this number. -/
def operandLimit : Nat := Nat.pow 2 64

/-- The new index of a constant. -/
def constant (r : Relocation) (index : Nat) : Except LinkError Nat :=
  match r.remap[index]? with
  | some i => .ok i
  | none => .error (.constantOutOfRange r.unit r.stream index)

/-- The new target of a jump. -/
def target (r : Relocation) (t : Nat) : Except LinkError Nat :=
  if t + r.offset < operandLimit then .ok (t + r.offset)
  else .error (.jumpOutOfRange r.unit r.stream t r.offset)

/-- The instruction with its new operand. -/
def apply (r : Relocation) : Instruction → Except LinkError Instruction
  | .loadConst index => .loadConst <$> r.constant index
  | .jump t => .jump <$> r.target t
  | .jumpIfFalse t => .jumpIfFalse <$> r.target t
  | i => .ok i

/-- A stream with its new operands, or the first error in it. -/
def applyAll (r : Relocation) : List Instruction → Except LinkError (List Instruction)
  | [] => .ok []
  | i :: is => do return (← r.apply i) :: (← applyAll r is)

end Relocation

/-! ### Linking -/

/-- What has been linked so far. -/
structure Linking where
  pool : ConstantPool := []
  code : List Instruction := []
  functions : Table (List Instruction) := {}
  notices : List Notice := []

/-- A linking step; an error keeps the notices given before it. -/
abbrev Link (α : Type) := EStateM LinkError Linking α

namespace Linking

/-- Add to the log. -/
def report (n : Notice) : Link Unit :=
  modify fun s => { s with notices := s.notices ++ [n] }

/-- The answer of an operation that may fail. -/
def lift {α : Type} : Except LinkError α → Link α
  | .ok a => pure a
  | .error e => throw e

/-- Constants join the pool; the answer is the new index of each. -/
def mergeConstants (constants : List Constant) : Link (List Nat) := fun s =>
  let (indices, pool) := s.pool.merge constants
  .ok indices { s with pool := pool }

/-- A function of a unit whose main constants have the indices `remap`. -/
def addFunction (options : LinkOptions) (unit : String) (remap : List Nat) (name : String)
    (f : CompiledFunction) : Link Unit := do
  if (← get).functions.contains name then throw (.duplicateFunction name)
  let remap ← if options.mergeFunctionConstants then mergeConstants f.constants else pure remap
  let code ← lift (Relocation.applyAll ⟨unit, name, remap, 0⟩ f.code)
  modify fun s => { s with functions := s.functions.insert name code }

/-- The functions of a unit, in order. -/
def addFunctions (options : LinkOptions) (unit : String) (remap : List Nat) :
    List (String × CompiledFunction) → Link Unit
  | [] => return ()
  | (name, f) :: rest => do
    addFunction options unit remap name f
    addFunctions options unit remap rest

/-- The jumps of a unit behind others go astray if they are not moved. -/
def warnOfJumps (options : LinkOptions) (isFirst : Bool) (u : BytecodeUnit) (base : Nat) :
    Link Unit := do
  if !isFirst && u.code.any Instruction.isJump && !options.rebaseJumps then
    report (.jumpsNotRebased u.name base)

/-- A unit: its constants, its code, and its functions. -/
def addUnit (options : LinkOptions) (isFirst : Bool) (u : BytecodeUnit) : Link Unit := do
  let remap ← mergeConstants u.constants
  let base := (← get).code.length
  warnOfJumps options isFirst u base
  let offset := if options.rebaseJumps then base else 0
  let code ← lift (Relocation.applyAll ⟨u.name, Relocation.mainStream, remap, offset⟩ u.code)
  modify fun s => { s with code := s.code ++ code }
  addFunctions options u.name remap u.functions.entries
  report (.linkedUnit u.name base u.code.length u.functions.size)

/-- Units in order; only the first of all is not behind others. -/
def addUnits (options : LinkOptions) : (isFirst : Bool) → List BytecodeUnit → Link Unit
  | _, [] => return ()
  | isFirst, u :: us => do
    addUnit options isFirst u
    addUnits options false us

/-- The program that has been linked; it starts with its first instruction. -/
def program (s : Linking) : LinkedProgram :=
  { constants := s.pool, code := s.code, functions := s.functions, entryPoint := 0 }

end Linking

/-- The program of the registered units, and the notices of linking, which are given also when linking
fails. -/
def Linker.link (options : LinkOptions) (l : Linker) :
    Except LinkError LinkedProgram × List Notice :=
  match l.resolveImports with
  | .error e => (.error e, [])
  | .ok () =>
    match Linking.addUnits options true l.units {} with
    | .ok () s => (.ok s.program, s.notices)
    | .error e s => (.error e, s.notices)

/-- Register units and link them. -/
def linkAll (options : LinkOptions) (us : List BytecodeUnit) :
    Except LinkError LinkedProgram × List Notice :=
  match Linker.addAll {} us with
  | .ok l => l.link options
  | .error e => (.error e, [])

end StackScript
