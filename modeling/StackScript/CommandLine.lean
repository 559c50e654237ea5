import StackScript.CommandLine.FileTree
import StackScript.CommandLine.Repl
import StackScript.Log.Filter
import StackScript.Outline
import StackScript.Report
import StackScript.UnitText

/-!
Commands: what each of them reads, writes and shows.

A command acts on a console: the files it sees, the text on its input, what it has shown so far on its
two output streams, and the filter for notices, which go to the error stream. It ends with an exit
status, 0 unless something failed.

* `Console`, `Act`: the state, and actions on it, which may end the command;
* `Command.execute`: a command;
* `CommandLine.run`: a whole command line.
-/

namespace StackScript

/-- What a command acts on. -/
structure Console where
  files : FileTree := {}
  input : String := ""
  output : String := ""
  errors : String := ""
  filter : LogFilter := LogFilter.standard

/-- An action, which may end the command with an exit status. -/
abbrev Act (α : Type) := EStateM Nat Console α

namespace Console

/-- Show text on the output. -/
def print (text : String) : Act Unit :=
  modify fun c => { c with output := c.output ++ text }

/-- Show text on the error stream. -/
def printError (text : String) : Act Unit :=
  modify fun c => { c with errors := c.errors ++ text }

/-- Show the notices that the filter lets through. -/
def report (notices : List Notice) : Act Unit := do
  printError ((← get).filter.lines notices)

/-- End the command with an error. -/
def die {α : Type} (line : String) : Act α := do
  printError (line ++ "\n")
  throw 1

/-- The text of a file, or of the input in place of a dash. -/
def readSource (file : String) : Act String := do
  if file = "-" then return (← get).input
  else
    match (← get).files.read file with
    | .ok text => return text
    | .error e => die ("Error reading file '" ++ file ++ "': " ++ e.message)

/-- Write a file. -/
def writeFile (path text : String) : Act Unit := do
  match (← get).files.write path text with
  | .ok files => modify fun c => { c with files := files }
  | .error e => die ("Error writing to '" ++ path ++ "': " ++ e.message)

/-- The answer of a stage, or the end of the command with its error. -/
def stage {α : Type} (s : Source) (answer : Staged α) : Act α := do
  report answer.2
  match answer.1 with
  | .ok a => return a
  | .error e => die (e.format s.text s.filename)

/-- A source by the name of its file. -/
def source (settings : Settings) (file : String) : Act Source := do
  return { text := ← readSource file, filename := file, mode := settings.mode }

/-! ### Running and looking at sources -/

/-- Run a program; what it prints is shown. -/
def run (settings : Settings) (file : String) : Act Unit := do
  let s ← source settings file
  let p ← stage s s.program
  match interpret settings.maxCallDepth ampleFuel p {} with
  | .ok _ m =>
    report m.notices.toList
    print m.sink.written
  | .error e m =>
    report m.notices.toList
    print m.sink.written
    match e with
    | .failed e => die ((ScriptError.runtime e).format s.text s.filename)
    | .exhausted => throw 1

/-- The line of a token: its position, its kind and its lexeme. -/
def tokenLine (t : Token) : String :=
  padLeft 4 (toString t.position.line) ++ ":" ++ padRight 4 (toString t.position.column) ++ " "
    ++ padRight 12 t.kind.shown ++ " " ++ t.lexeme ++ "\n"

/-- Show the tokens of a source. -/
def tokens (settings : Settings) (file : String) : Act Unit := do
  let s ← source settings file
  let ts ← stage s s.tokens
  print (String.join (ts.map tokenLine))

/-- Show the outline of a source. -/
def ast (settings : Settings) (file : String) : Act Unit := do
  let s ← source settings file
  let p ← stage s s.program
  print ((Outline.ofProgram p).write 0 ++ "\n")

/-! ### Compiling -/

/-- Compile a source: the unit, the report and the listing are written as far as they are asked for,
and the listing is shown if it is not written. A report is written also when there is an error. -/
def compile (settings : Settings) (file : String) (targets : CompileTargets) : Act Unit := do
  let s ← source settings file
  let (answer, notices) := s.unit
  report notices
  match answer with
  | .error e => do
    if let some path := targets.report then
      writeFile path (CompileReport.failed s.text e).toJson
    die (e.format s.text s.filename)
  | .ok u => do
    let u := { u with exports := targets.exports, imports := targets.imports }
    if let some path := targets.unit then
      writeFile path u.toText
      print ("Unit written to " ++ path ++ "\n")
    if let some path := targets.report then
      writeFile path (CompileReport.compiled s.text u.listing).toJson
    match targets.output with
    | some path =>
      writeFile path u.listing
      print ("Object code written to " ++ path ++ "\n")
    | none => print (u.listing ++ "\n")

/-! ### Linking -/

/-- The extension of stored units. -/
def unitExtension : String := "cdxo"

/-- The paths of stored units: those below a directory in their order, and everything else itself. -/
def unitPaths (files : FileTree) (input : String) : List String :=
  if files.isDirectory input then
    let below := files.filesBelow input
    let units := below.filter fun p => (p.getLast?.bind Path.extension?) = some unitExtension
    units.map fun p => Path.join input ("/".intercalate p)
  else [input]

/-- Read a stored unit. -/
def loadUnit (path : String) : Act BytecodeUnit := do
  match (← get).files.read path with
  | .error e => die ("Error loading '" ++ path ++ "': " ++ e.message)
  | .ok text =>
    match BytecodeUnit.ofText? text with
    | some u => return u
    | none => die ("Error loading '" ++ path ++ "': failed to read unit")

/-- Read and register stored units one after the other. -/
def registerUnits (l : Linker) : List String → Act Linker
  | [] => return l
  | path :: paths => do
    let u ← loadUnit path
    report [.addingUnit u.name path]
    match l.add u with
    | .ok l => registerUnits l paths
    | .error e => die e.message

/-- Link stored units; the listing is written if that is asked for, and shown if not. -/
def link (inputs : List String) (output : Option String) (options : LinkOptions) : Act Unit := do
  let files := (← get).files
  let paths := inputs.flatMap (unitPaths files)
  if paths.isEmpty then die ("Error: no ." ++ unitExtension ++ " units found")
  let l ← registerUnits {} paths
  let (answer, notices) := l.link options
  report notices
  match answer, output with
  | .error e, _ => die e.message
  | .ok p, some path => do
    writeFile path p.listing
    print ("Executable written to " ++ path ++ "\n")
  | .ok p, none => print (p.listing ++ "\n")

/-! ### The prompt -/

/-- The lines of an input; a line feed at the end opens no further line. -/
def inputLines (input : String) : List String :=
  let lines := input.splitOn "\n"
  if lines.getLast? = some "" then lines.dropLast else lines

/-- Answer lines one after the other, until one leaves or there are no more. -/
def converse (settings : Settings) (m : Machine) : List String → Act Unit
  | [] => print (Repl.prompt ++ "\n")
  | line :: lines => do
    print Repl.prompt
    let (reply, m) := Repl.respond settings m line
    report reply.notices
    print reply.output
    printError reply.errors
    if reply.leaves then return () else converse settings m lines

/-- Answer the lines of the input. -/
def repl (settings : Settings) : Act Unit := do
  print Repl.banner
  converse settings {} (inputLines (← get).input)

/-- How the program is used. -/
def usage : String :=
  String.intercalate "\n"
    ["Codex programming language",
      "",
      "Usage: codex [OPTIONS] [FILE] [COMMAND]",
      "",
      "Commands: run, repl, compile, link",
      "",
      "Options: --max-call-depth <MAX_CALL_DEPTH>, --strict",
      ""]

end Console

/-- Do what a command asks for. -/
def Command.execute (settings : Settings) : Command → Act Unit
  | .run file => Console.run settings file
  | .repl => Console.repl settings
  | .compile file targets => Console.compile settings file targets
  | .link inputs output options => Console.link inputs output options
  | .tokens file => Console.tokens settings file
  | .ast file => Console.ast settings file
  | .usage => Console.print Console.usage

namespace CommandLine

/-- The exit status of a command line that is malformed. -/
def usageStatus : Nat := 2

/-- Run a command line: the exit status, and the console after it. What is wrong with the filter for
notices is reported first. -/
def run (arguments : List String) (c : Console) : Nat × Console :=
  let c := { c with errors := c.errors ++ c.filter.warnings }
  match Invocation.ofArguments? arguments with
  | none => (usageStatus, c)
  | some i =>
    match i.command.execute i.settings c with
    | .ok () c => (0, c)
    | .error status c => (status, c)

end CommandLine

end StackScript
