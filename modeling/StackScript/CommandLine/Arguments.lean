import StackScript.Interpreter
import StackScript.Lexer
import StackScript.Linker

/-!
Command line arguments.

Arguments are operands, and options by a long or a short name. An option with a value has it behind an
equality sign, directly behind its short name, or in the next argument, which must not look like an
option itself; after two dashes everything is an operand. The settings may stand before or behind the
name of the command, and count from behind it if they stand on both sides.

* `Settings`, `Command`, `Invocation`: what arguments ask for;
* `OptionForm`, `Sorted`, `sortArguments`: the arguments of one level, sorted by the options it knows;
* `Invocation.ofArguments?`: the invocation of a whole command line, none if it is malformed.
-/

namespace StackScript

/-- The settings that every command takes. -/
structure Settings where
  maxCallDepth : Nat := defaultCallLimit
  mode : LexMode := .lenient

/-- Where a compilation goes. -/
structure CompileTargets where
  output : Option String := none
  unit : Option String := none
  report : Option String := none
  exports : List String := []
  imports : List String := []

/-- What there is to do. -/
inductive Command where
  | run (file : String)
  | repl
  | compile (file : String) (targets : CompileTargets)
  | link (inputs : List String) (output : Option String) (options : LinkOptions)
  | tokens (file : String)
  | ast (file : String)
  | usage

/-- A command with its settings. -/
structure Invocation where
  command : Command
  settings : Settings

/-! ### Sorting arguments -/

/-- An option that a level knows. -/
structure OptionForm where
  long : String
  short : Option Char := none
  takesValue : Bool := true
  repeatable : Bool := false

/-- The arguments of a level: its options with their values (empty for options without one), its
operands, and the name of a command with the arguments behind it. -/
structure Sorted where
  options : List (String × String) := []
  operands : List String := []
  command : Option (String × List String) := none

namespace Sorted

/-- Add an option; only a repeatable one may be there already. -/
def addOption (s : Sorted) (form : OptionForm) (value : String) : Option Sorted :=
  if !form.repeatable && s.options.any (·.1 = form.long) then none
  else some { s with options := s.options ++ [(form.long, value)] }

/-- Add an operand. -/
def addOperand (s : Sorted) (operand : String) : Sorted :=
  { s with operands := s.operands ++ [operand] }

/-- The value of an option. -/
def value? (s : Sorted) (name : String) : Option String :=
  (s.options.find? (·.1 = name)).map (·.2)

/-- The values of a repeatable option. -/
def values (s : Sorted) (name : String) : List String :=
  (s.options.filter (·.1 = name)).map (·.2)

/-- An option is there. -/
def has (s : Sorted) (name : String) : Bool :=
  s.options.any (·.1 = name)

end Sorted

/-- What an argument is by its looks: an option by name with what is attached to it, or anything
else. -/
inductive ArgumentShape where
  | endOfOptions
  | long (name : String) (attached : Option String)
  | short (name : Char) (attached : Option String)
  | plain

/-- What is attached to the name of an option behind an equality sign. -/
def splitAtEquals (cs : List Char) : String × Option String :=
  let name := String.ofList (cs.takeWhile (· != '='))
  match cs.dropWhile (· != '=') with
  | _ :: value => (name, some (String.ofList value))
  | [] => (name, none)

/-- The looks of an argument. A single dash is no option. -/
def ArgumentShape.of (argument : String) : ArgumentShape :=
  match argument.toList with
  | ['-', '-'] => .endOfOptions
  | '-' :: '-' :: cs =>
    let (name, attached) := splitAtEquals cs
    .long name attached
  | ['-', c] => .short c none
  | '-' :: c :: '=' :: cs => .short c (some (String.ofList cs))
  | '-' :: c :: cs => .short c (some (String.ofList cs))
  | _ => .plain

/-- Add an option of known form with what is attached to it, or else with the next argument. The answer
holds the arguments that are left. -/
def takeOption (s : Sorted) (form : OptionForm) (attached : Option String)
    (rest : List String) : Option (Sorted × List String) :=
  match form.takesValue, attached, rest with
  | false, none, rest => (s.addOption form "").map (·, rest)
  | false, some _, _ => none
  | true, some value, rest => (s.addOption form value).map (·, rest)
  | true, none, value :: rest =>
    match ArgumentShape.of value with
    | .plain => (s.addOption form value).map (·, rest)
    | _ => none
  | true, none, [] => none

/-- Sort arguments by the forms of options and the names of commands that a level knows. -/
def sortFrom (forms : List OptionForm) (commands : List String) :
    (fuel : Nat) → Sorted → List String → Option Sorted
  | _, s, [] => some s
  | 0, _, _ :: _ => none
  | fuel + 1, s, argument :: rest =>
    match ArgumentShape.of argument with
    | .endOfOptions => some (rest.foldl Sorted.addOperand s)
    | .long name attached => do
      let form ← forms.find? (·.long = name)
      let (s, rest) ← takeOption s form attached rest
      sortFrom forms commands fuel s rest
    | .short name attached => do
      let form ← forms.find? (·.short = some name)
      let (s, rest) ← takeOption s form attached rest
      sortFrom forms commands fuel s rest
    | .plain =>
      if commands.contains argument then some { s with command := some (argument, rest) }
      else sortFrom forms commands fuel (s.addOperand argument) rest

/-- Sort the arguments of a level; every round takes at least one. -/
def sortArguments (forms : List OptionForm) (commands : List String) (arguments : List String) :
    Option Sorted :=
  sortFrom forms commands arguments.length {} arguments

/-! ### Commands -/

/-- The options that every level knows. -/
def settingForms : List OptionForm :=
  [{ long := "max-call-depth" }, { long := "strict", takesValue := false }]

/-- The further options of a command. -/
def commandForms : String → List OptionForm
  | "compile" =>
    [{ long := "output", short := some 'o' }, { long := "unit" }, { long := "report" },
     { long := "export", repeatable := true }, { long := "import", repeatable := true }]
  | "link" =>
    [{ long := "output", short := some 'o' }, { long := "rebase-jumps", takesValue := false },
     { long := "merge-function-constants", takesValue := false }]
  | _ => []

/-- The names of the commands. -/
def commandNames : List String := ["run", "repl", "compile", "link", "tokens", "ast"]

/-- A depth of calls: decimal digits, perhaps behind a plus sign, of a number below `2 ^ 64`. -/
def readDepth? (text : String) : Option Nat :=
  let ds := match text.toList with
    | '+' :: ds => ds
    | ds => ds
  if ds ≠ [] ∧ ds.all Char.isDigit then
    let n := ds.foldl (fun n d => 10 * n + (d.toNat - '0'.toNat)) 0
    if n < Nat.pow 2 64 then some n else none
  else none

/-- Settings changed by the options of a level. -/
def Settings.update? (settings : Settings) (s : Sorted) : Option Settings := do
  let maxCallDepth ← match s.value? "max-call-depth" with
    | some text => readDepth? text
    | none => some settings.maxCallDepth
  return { maxCallDepth, mode := if s.has "strict" then .strict else settings.mode }

/-- The command of a name and its arguments. -/
def Command.ofSorted? (name : String) (s : Sorted) : Option Command :=
  match name, s.operands with
  | "run", [file] => some (.run file)
  | "repl", [] => some .repl
  | "compile", [file] =>
    some (.compile file
      { output := s.value? "output", unit := s.value? "unit", report := s.value? "report"
        exports := s.values "export", imports := s.values "import" })
  | "link", input :: inputs =>
    some (.link (input :: inputs) (s.value? "output")
      ⟨s.has "rebase-jumps", s.has "merge-function-constants"⟩)
  | "tokens", [file] => some (.tokens file)
  | "ast", [file] => some (.ast file)
  | _, _ => none

/-- The invocation of a command line: a command by its name, or a file to run. -/
def Invocation.ofArguments? (arguments : List String) : Option Invocation := do
  let outer ← sortArguments settingForms commandNames arguments
  let settings ← Settings.update? {} outer
  match outer.command, outer.operands with
  | some (name, rest), operands =>
    if 1 < operands.length then none
    else
      let inner ← sortArguments (settingForms ++ commandForms name) [] rest
      return ⟨← Command.ofSorted? name inner, ← settings.update? inner⟩
  | none, [] => return ⟨.usage, settings⟩
  | none, [file] => return ⟨.run file, settings⟩
  | none, _ => none

end StackScript
