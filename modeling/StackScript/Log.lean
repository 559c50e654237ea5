import StackScript.Position
import StackScript.Text.Escaped

/-!
The log: what the stages report besides their results.

* `Level`: how urgent a notice is;
* `Notice`: the things that are reported, with `Notice.level`, `Notice.component` and
  `Notice.message`;
* `Notice.line`: a notice as it is written to the error stream.
-/

namespace StackScript

/-- How urgent a notice is, the most urgent level first. -/
inductive Level where
  | error | warn | info | debug | trace
deriving DecidableEq

namespace Level

/-- The name of a level. -/
def shown : Level → String
  | error => "ERROR"
  | warn => "WARN"
  | info => "INFO"
  | debug => "DEBUG"
  | trace => "TRACE"

/-- The place of a level in the order of urgency. -/
def rank : Level → Nat
  | error => 1
  | warn => 2
  | info => 3
  | debug => 4
  | trace => 5

end Level

/-- Something that a stage reports. -/
inductive Notice where
  /-- The lexer skipped a character that starts no token. -/
  | skippedCharacter (c : Char) (position : Position)
  /-- A function is called from the given number of calls deep. -/
  | calling (name : String) (arity depth : Nat)
  /-- A function defined inside another one joins the functions of the unit. -/
  | hoisting (nested outer : String)
  /-- A unit was compiled. -/
  | compiledUnit (name : String) (instructions constants functions : Nat)
  /-- A source was not compiled. -/
  | compilationFailed (filename message : String)
  /-- A unit read from a file is about to be registered for linking. -/
  | addingUnit (name path : String)
  /-- A unit with jumps is linked behind others, and its jumps stay as they are. -/
  | jumpsNotRebased (unit : String) (offset : Nat)
  /-- A unit was linked. -/
  | linkedUnit (unit : String) (offset instructions functions : Nat)
deriving DecidableEq

namespace Notice

/-- How urgent each kind of notice is. -/
def level : Notice → Level
  | skippedCharacter .. => .debug
  | calling .. => .trace
  | hoisting .. => .debug
  | compiledUnit .. => .debug
  | compilationFailed .. => .debug
  | addingUnit .. => .info
  | jumpsNotRebased .. => .warn
  | linkedUnit .. => .debug

/-- The component that a notice comes from, as log lines name it. -/
def component : Notice → String
  | skippedCharacter .. => "codex_core::parser::lexer"
  | calling .. => "codex_core::interpreter"
  | hoisting .. => "codex_core::bytecode::compile"
  | compiledUnit .. => "codex_core::bytecode::compile"
  | compilationFailed .. => "codex_core::pipeline"
  | addingUnit .. => "codex::link"
  | jumpsNotRebased .. => "codex_core::linker"
  | linkedUnit .. => "codex_core::linker"

/-- The notice in words. -/
def message : Notice → String
  | skippedCharacter c p =>
    "skipping unrecognized character " ++ shownChar c ++ s!" at {p.line}:{p.column}"
  | calling name arity depth => "call " ++ name ++ s!"/{arity} at depth {depth}"
  | hoisting nested outer =>
    "hoisting nested function '" ++ nested ++ "' out of '" ++ outer ++ "'"
  | compiledUnit name instructions constants functions =>
    "compiled unit '" ++ name
      ++ s!"': {instructions} instructions, {constants} constants, {functions} functions"
  | compilationFailed filename message => "compilation of " ++ filename ++ " failed: " ++ message
  | addingUnit name path => "adding unit '" ++ name ++ "' from " ++ path
  | jumpsNotRebased unit offset =>
    "unit '" ++ unit ++ s!"' is linked at offset {offset} but its jump targets are not rebased"
  | linkedUnit unit offset instructions functions =>
    "linked unit '" ++ unit
      ++ s!"' at offset {offset} ({instructions} instructions, {functions} functions)"

/-- The line that a notice makes on the error stream: level, component and message, with the further
lines of a message indented. -/
def line (n : Notice) : String :=
  "[" ++ padRight 5 n.level.shown ++ " " ++ n.component ++ "] "
    ++ "\n    ".intercalate (n.message.splitOn "\n")

end Notice

end StackScript
