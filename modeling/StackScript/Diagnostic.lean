import StackScript.Lexer
import StackScript.Linker
import StackScript.Parser
import StackScript.RuntimeError

/-!
Errors as the user sees them.

* `ScriptError`: an error of any stage that a source text goes through, with its `message`;
* `Diagnostic`: a message with the file it belongs to and, when the error has one, the position;
* `Diagnostic.summary`: a diagnostic in one line;
* `Diagnostic.format`: a diagnostic with the source line and a caret under the position;
* `sourceLine`: one line of a source.
-/

namespace StackScript

/-- An error of one of the stages that a source text goes through. -/
inductive ScriptError where
  | lexical (e : LexError)
  | syntactic (e : SyntaxError)
  | runtime (e : RuntimeError)
deriving DecidableEq

/-- The error in words; a syntax error says that it is one. -/
def ScriptError.message : ScriptError → String
  | lexical e => e.message
  | syntactic e => "SyntaxError: " ++ e.message
  | runtime e => e.message

/-- The stage that a diagnostic comes from. -/
inductive DiagnosticKind where
  | lex | parse | runtime | link
deriving DecidableEq

/-- A stage as diagnostics name it. -/
def DiagnosticKind.shown : DiagnosticKind → String
  | lex => "lex"
  | parse => "parse"
  | runtime => "runtime"
  | link => "link"

/-- A message for the user. -/
structure Diagnostic where
  kind : DiagnosticKind
  message : String
  filename : String
  position : Option Position := none
  notes : List String := []
  help : Option String := none

/-! ### Diagnostics of errors -/

/-- The advice that goes with an error of the parser. -/
def SyntaxError.help? : SyntaxError → Option String
  | .unexpectedToken .. => none
  | .invalidNumber .. => some "number literals are digits with at most one '.'"

/-- The advice that goes with an error of a running program. -/
def RuntimeError.help? : RuntimeError → Option String
  | .callDepthExceeded _ => some "raise the limit with --max-call-depth"
  | _ => none

/-- The diagnostic of an error in a file. -/
def ScriptError.diagnostic (filename : String) : ScriptError → Diagnostic
  | lexical e => { kind := .lex, message := e.message, filename, position := some e.position }
  | syntactic e =>
    { kind := .parse, message := e.message, filename, position := some e.position, help := e.help? }
  | runtime e => { kind := .runtime, message := e.message, filename, help := e.help? }

/-- The diagnostic of an error between units. -/
def LinkError.diagnostic (filename : String) (e : LinkError) : Diagnostic :=
  { kind := .link, message := e.message, filename }

/-! ### Source lines -/

/-- The first line of a text, without the carriage return and line feed, or the line feed alone, that
ends it. -/
def firstLine (cs : List Char) : List Char :=
  let line := cs.takeWhile (· != '\n')
  if cs.contains '\n' && line.getLast? = some '\r' then line.dropLast else line

/-- The text after its first line. -/
def afterFirstLine (cs : List Char) : List Char :=
  (cs.dropWhile (· != '\n')).tail

/-- A line of a text by its index from zero, empty if there is none. -/
def sourceLine : List Char → Nat → List Char
  | [], _ => []
  | cs, 0 => firstLine cs
  | cs, n + 1 => sourceLine (afterFirstLine cs) n

/-! ### Text forms -/

namespace Diagnostic

/-- That many spaces. -/
def spaces (n : Nat) : String := padLeft n ""

/-- The line of a position between a line that opens the gutter and a caret; past the end of the line
the caret stands directly behind it. -/
def snippet (source : String) (p : Position) : String :=
  let text := sourceLine source.toList (p.line - 1)
  let number := toString p.line
  let margin := spaces number.length
  margin ++ " |\n"
    ++ number ++ " | " ++ String.ofList text ++ "\n"
    ++ margin ++ " | " ++ spaces (min (p.column - 1) text.length) ++ "^\n"

/-- Where the error is, with the lines around it when a position is known. -/
def place (d : Diagnostic) (source : String) : String :=
  match d.position with
  | some p =>
    "  --> " ++ d.filename ++ s!":{p.line}:{p.column}\n" ++ snippet source p
  | none => "  --> " ++ d.filename ++ "\n"

/-- A diagnostic in full. -/
def format (d : Diagnostic) (source : String) : String :=
  "error[" ++ d.kind.shown ++ "]: " ++ d.message ++ "\n"
    ++ d.place source
    ++ String.join (d.notes.map fun note => "note: " ++ note ++ "\n")
    ++ (match d.help with
        | some help => "help: " ++ help ++ "\n"
        | none => "")

/-- A diagnostic in one line. -/
def summary (d : Diagnostic) : String :=
  match d.position with
  | some p => "error: " ++ d.message ++ " at " ++ d.filename ++ s!":{p.line}:{p.column}"
  | none => "error: " ++ d.message ++ " in " ++ d.filename

end Diagnostic

/-- An error in full, as it is printed for a file with the given source. -/
def ScriptError.format (e : ScriptError) (source filename : String) : String :=
  (e.diagnostic filename).format source

end StackScript
