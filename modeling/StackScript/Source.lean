import StackScript.Compiler
import StackScript.Diagnostic
import StackScript.Interpreter
import StackScript.Path

/-!
Source texts: from text to program, and on to a result or a unit.

* `Source`: a text with the name of its file and the way stray characters are treated;
* `Source.tokens`, `Source.program`, `Source.unit`: the stages of a source, each with the notices
  that are given on the way, also when the stage fails.
-/

namespace StackScript

/-- A source text. -/
structure Source where
  text : String
  filename : String
  mode : LexMode := .lenient

/-- The answer of a stage, and the notices given on the way to it. -/
abbrev Staged (α : Type) := Except ScriptError α × List Notice

namespace Source

/-- The notices of a scan. -/
def noticesOf (l : Lexed) : List Notice :=
  l.skipped.toList.map fun s => .skippedCharacter s.1 s.2

/-- The tokens of a text. -/
def tokensOf (mode : LexMode) (text : String) : Staged (List Token) :=
  match tokenize mode text with
  | .ok l => (.ok l.tokens.toList, noticesOf l)
  | .error e => (.error (.lexical e), [])

/-- The program of a text. -/
def programOf (mode : LexMode) (text : String) : Staged Program :=
  match tokensOf mode text with
  | (.ok ts, notices) => ((parse ts).mapError .syntactic, notices)
  | (.error e, notices) => (.error e, notices)

/-- The tokens of a source. -/
def tokens (s : Source) : Staged (List Token) :=
  tokensOf s.mode s.text

/-- The program of a source. -/
def program (s : Source) : Staged Program :=
  programOf s.mode s.text

/-- The unit of a source, which is named after its file. -/
def unit (s : Source) : Staged BytecodeUnit :=
  match s.program with
  | (.ok p, notices) =>
    let (u, more) := compileWithNotices (unitName s.filename) p
    (.ok u, notices ++ more)
  | (.error e, notices) => (.error e, notices)

end Source

end StackScript
