import StackScript.CommandLine.Arguments
import StackScript.Source

/-!
The prompt: programs of one line each, executed one after the other on one machine.

* `Repl.Request`: what a line asks for;
* `Repl.Reply`: what is shown in return;
* `Repl.respond`: the reply to a line, and the machine after it.
-/

namespace StackScript

namespace Repl

/-- What is shown before the first prompt. -/
def banner : String :=
  "Codex REPL v0.1.0\nType 'exit' or 'quit' to exit, 'help' for language syntax.\n\n"

/-- What is shown where a line is to be typed. -/
def prompt : String := ">>> "

/-- An overview of the language. -/
def overview : String :=
  String.intercalate "\n"
    ["Codex language syntax:",
      "  let x = 10              # variable declaration",
      "  let name = \"text\"       # string variable",
      "  print(x)                # print statement",
      "",
      "  func add(a, b) \x7b        # function definition",
      "      return a + b",
      "  \x7d",
      "",
      "  if (x > 5) \x7b ... \x7d else \x7b ... \x7d",
      "  while (x < 10) \x7b ... \x7d",
      ""]

/-- What a line asks for. -/
inductive Request where
  | nothing
  | leave
  | overview
  | evaluate (text : String)

/-- The request of a line. The words of the prompt count in any case, and white space around them does
not. -/
def Request.ofLine (line : String) : Request :=
  let line := trimmed line
  let word := String.ofList (line.toList.map Char.toLower)
  if word = "" then .nothing
  else if word = "exit" || word = "quit" then .leave
  else if word = "help" then .overview
  else .evaluate line

/-- What is shown in return for a line: text on the output and on the error stream, notices, and
whether the prompt is left. -/
structure Reply where
  output : String := ""
  notices : List Notice := []
  errors : String := ""
  leaves : Bool := false

/-- Evaluate a program: what it prints is shown, and then its value unless that is `None`. -/
def evaluate (settings : Settings) (m : Machine) (text : String) : Reply × Machine :=
  let shown (e : ScriptError) : String := e.format text "<repl>" ++ "\n"
  match Source.programOf settings.mode text with
  | (.error e, notices) => ({ notices, errors := shown e }, m)
  | (.ok p, notices) =>
    let result := interpret settings.maxCallDepth ampleFuel p { m with sink := {}, notices := #[] }
    match result with
    | .ok v m =>
      let value := match v with
        | .none => ""
        | v => v.shown ++ "\n"
      ({ output := m.sink.written ++ value, notices := notices ++ m.notices.toList }, m)
    | .error e m =>
      let errors := match e with
        | .failed e => shown (.runtime e)
        | .exhausted => ""
      ({ output := m.sink.written, notices := notices ++ m.notices.toList, errors }, m)

/-- The reply to a line, and the machine after it. -/
def respond (settings : Settings) (m : Machine) (line : String) : Reply × Machine :=
  match Request.ofLine line with
  | .nothing => ({}, m)
  | .leave => ({ output := "Goodbye!\n", leaves := true }, m)
  | .overview => ({ output := overview ++ "\n" }, m)
  | .evaluate text => evaluate settings m text

end Repl

end StackScript
