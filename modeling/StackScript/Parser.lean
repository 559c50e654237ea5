import StackScript.Decimal.Numeral
import StackScript.Syntax
import StackScript.Token

/-!
From tokens to programs.

A production takes the tokens that are left and returns what it read together with the tokens after
it; the first mismatch is an error. Binary operators have three levels, all associative to the left:
comparisons bind weakest, then addition, then multiplication; unary operators bind stronger. A line
feed ends a statement, and `else` must follow the closing brace of its branch directly.

* `SyntaxError`: what was expected and what stands there, or a number literal that is no numeral;
* `Production`: the type of productions; `expression` and `statement` are the two recursive ones;
* `parse`: the program that a whole list of tokens stands for.

Design notes: the nesting of the grammar (parentheses, arguments, blocks) and the length of its lists
are bounded by one number, `bound`. Every level and every item takes at least one token, so a bound
of one more than the number of tokens is never the reason for an error. The end of the input is never
taken, so the list of tokens left never runs empty when it holds an end-of-input token.
-/

namespace StackScript

/-- What a production was looking for. -/
inductive Expected where
  | token (kind : TokenKind)
  | expression
deriving DecidableEq

/-- What was looked for, in words. -/
def Expected.shown : Expected → String
  | token kind => kind.shown
  | expression => "expression"

/-- Why tokens are no program. -/
inductive SyntaxError where
  | unexpectedToken (expected : Expected) (found : TokenKind) (position : Position)
  | invalidNumber (lexeme : String) (position : Position)
deriving DecidableEq

namespace SyntaxError

/-- Where the error is. -/
def position : SyntaxError → Position
  | unexpectedToken _ _ p => p
  | invalidNumber _ p => p

/-- The error in words. -/
def message : SyntaxError → String
  | unexpectedToken expected found p =>
    "expected " ++ expected.shown ++ ", found " ++ found.shown ++ s!" at line {p.line}"
  | invalidNumber lexeme p => s!"invalid number literal '" ++ lexeme ++ s!"' at line {p.line}"

end SyntaxError

/-- A production reads from the front of the tokens that are left. -/
abbrev Production (α : Type) := StateT (List Token) (Except SyntaxError) α

namespace Parser

/-! ### Single tokens -/

/-- The end-of-input token of an empty list of tokens. -/
def emptyEnd : Token := ⟨.eof, "", .start⟩

/-- The token that stands next. -/
def next (ts : List Token) : Token := ts.headD emptyEnd

/-- The kind of the token that stands next. -/
def peek : Production TokenKind := fun ts => .ok ((next ts).kind, ts)

/-- The kind of the token after the next one. -/
def peekSecond : Production TokenKind := fun ts => .ok ((next ts.tail).kind, ts)

/-- Take the next token. -/
def advance : Production Token := fun ts => .ok (next ts, ts.tail)

/-- The next token is not what was expected. -/
def unexpected {α : Type} (expected : Expected) : Production α := fun ts =>
  .error (.unexpectedToken expected (next ts).kind (next ts).position)

/-- Take the next token, which has to be of this kind. -/
def expect (kind : TokenKind) : Production Token := do
  if (← peek) = kind then advance else unexpected (.token kind)

/-- Take the next token if it is of this kind. -/
def skip (kind : TokenKind) : Production Unit := do
  if (← peek) = kind then discard advance

/-- Drop the line feeds that stand next. -/
def skipNewlines : Production Unit := fun ts =>
  .ok ((), ts.dropWhile (·.kind = .newline))

/-! ### Lists -/

/-- Items until the token `close` stands next, fewer than `bound` of them. -/
def manyUntil {α : Type} (close : TokenKind) (item : Production α) : Nat → Production (List α)
  | 0 => unexpected .expression
  | bound + 1 => do
    if (← peek) = close then return []
    else return (← item) :: (← manyUntil close item bound)

/-! ### Expressions -/

/-- The comparison that a token stands for. -/
def comparison? : TokenKind → Option BinaryOp
  | .equal => some .eq
  | .notEqual => some .ne
  | .less => some .lt
  | .greater => some .gt
  | _ => none

/-- The additive operator that a token stands for. -/
def additive? : TokenKind → Option BinaryOp
  | .plus => some .add
  | .minus => some .sub
  | _ => none

/-- The multiplicative operator that a token stands for. -/
def multiplicative? : TokenKind → Option BinaryOp
  | .star => some .mul
  | .slash => some .div
  | _ => none

/-- The sign that a token stands for. -/
def sign? : TokenKind → Option UnaryOp
  | .plus => some .plus
  | .minus => some .minus
  | _ => none

/-- Operators of one level and their right operands after the operand `left`, at most `bound` of
them, associated to the left. -/
def chainFrom (op? : TokenKind → Option BinaryOp) (operand : Production Node) :
    Nat → Node → Production Node
  | 0, left => return left
  | bound + 1, left => do
    match op? (← peek) with
    | none => return left
    | some op =>
      discard advance
      let right ← operand
      chainFrom op? operand bound (.binary op left right)

/-- Operands joined by operators of one level, fewer than `bound` of them. -/
def chain (bound : Nat) (op? : TokenKind → Option BinaryOp) (operand : Production Node) :
    Production Node := do
  let left ← operand
  chainFrom op? operand bound left

/-- Signs, and then an operand. -/
def signed (operand : Production Node) : List Token → Except SyntaxError (Node × List Token)
  | [] => operand []
  | t :: ts =>
    match sign? t.kind with
    | some op => (signed operand ts).map fun (node, rest) => (.unary op node, rest)
    | none => operand (t :: ts)

/-- One argument of a call; the comma after it may be missing. -/
def argument (inner : Production Node) : Production Node := do
  let node ← inner
  skip .comma
  return node

/-- A literal, a variable, a call, or an expression in parentheses. -/
def primary (bound : Nat) (inner : Production Node) : Production Node := do
  match (← peek) with
  | .number =>
    let t ← advance
    match readNumber? t.lexeme with
    | some x => return .number x
    | none => throw (.invalidNumber t.lexeme t.position)
  | .string => return .string (← advance).lexeme
  | .identifier =>
    let t ← advance
    if (← peek) = .leftParen then
      discard advance
      let arguments ← manyUntil .rightParen (argument inner) bound
      discard advance
      return .call t.lexeme arguments
    else return .identifier t.lexeme
  | .leftParen =>
    discard advance
    let node ← inner
    discard (expect .rightParen)
    return node
  | _ => unexpected .expression

/-- An expression, given how to read the expressions inside parentheses. -/
def expressionOver (bound : Nat) (inner : Production Node) : Production Node :=
  chain bound comparison?
    (chain bound additive? (chain bound multiplicative? (signed (primary bound inner))))

/-- An expression with fewer than `depth` levels of parentheses. -/
def expression (bound : Nat) : (depth : Nat) → Production Node
  | 0, ts => unexpected .expression ts
  | depth + 1, ts => expressionOver bound (expression bound depth) ts

/-! ### Statements -/

/-- A binding: the word `let`, which may be missing, a name, an equality sign, and a value. -/
def assignment (value : Production Node) : Production Node := do
  skip .letWord
  let name ← expect .identifier
  discard (expect .assign)
  let value ← value
  skip .semicolon
  return .assign name.lexeme value

/-- One parameter of a definition; the comma after it may be missing. -/
def parameter : Production String := do
  let name ← expect .identifier
  skip .comma
  return name.lexeme

/-- A statement and the line feeds after it. -/
def line (inner : Production Node) : Production Node := do
  let node ← inner
  skipNewlines
  return node

/-- Statements in braces, with line feeds anywhere between them. -/
def block (bound : Nat) (inner : Production Node) : Production (List Node) := do
  discard (expect .leftBrace)
  skipNewlines
  let body ← manyUntil .rightBrace (line inner) bound
  discard advance
  return body

/-- A condition: an expression in parentheses. -/
def condition (value : Production Node) : Production Node := do
  discard (expect .leftParen)
  let node ← value
  discard (expect .rightParen)
  return node

/-- A function definition after the word that opens it. -/
def definition (bound : Nat) (inner : Production Node) : Production Node := do
  let name ← expect .identifier
  discard (expect .leftParen)
  let parameters ← manyUntil .rightParen parameter bound
  discard advance
  let body ← block bound inner
  return .define name.lexeme parameters body

/-- A branch after the word that opens it. -/
def branch (bound : Nat) (value inner : Production Node) : Production Node := do
  let test ← condition value
  let thenBody ← block bound inner
  if (← peek) = .elseWord then
    discard advance
    let elseBody ← block bound inner
    return .branch test thenBody (some elseBody)
  else return .branch test thenBody none

/-- A loop after the word that opens it. -/
def loop (bound : Nat) (value inner : Production Node) : Production Node := do
  let test ← condition value
  let body ← block bound inner
  return .loop test body

/-- A return without a value stands before one of these. -/
def endsReturn (kind : TokenKind) : Bool :=
  kind = .semicolon || kind = .newline || kind = .rightBrace || kind = .eof

/-- A return after the word that opens it. -/
def ret (value : Production Node) : Production Node := do
  let result ← if endsReturn (← peek) then pure none else some <$> value
  skip .semicolon
  return .ret result

/-- A print statement after the word that opens it. -/
def print (value : Production Node) : Production Node := do
  let node ← condition value
  skip .semicolon
  return .print node

/-- A statement that is an expression. -/
def bare (value : Production Node) : Production Node := do
  let node ← value
  skip .semicolon
  return node

/-- A statement, given how to read expressions and the statements inside braces. -/
def statementOver (bound : Nat) (value inner : Production Node) : Production Node := do
  skipNewlines
  match (← peek) with
  | .letWord => assignment value
  | .funcWord => discard advance; definition bound inner
  | .ifWord => discard advance; branch bound value inner
  | .whileWord => discard advance; loop bound value inner
  | .returnWord => discard advance; ret value
  | .printWord => discard advance; print value
  | .identifier => if (← peekSecond) = .assign then assignment value else bare value
  | _ => bare value

/-- A statement with fewer than `depth` levels of braces. -/
def statement (bound : Nat) : (depth : Nat) → Production Node
  | 0, ts => unexpected .expression ts
  | depth + 1, ts => statementOver bound (expression bound bound) (statement bound depth) ts

/-! ### Programs -/

/-- Statements up to the end of the input. -/
def program (bound : Nat) : Production Program := do
  skipNewlines
  manyUntil .eof (line (statement bound bound)) bound

/-- The tokens with an end-of-input token as their last: behind the lexeme of the last token where
it is missing. -/
def closed (ts : List Token) : List Token :=
  match ts.getLast? with
  | none => [emptyEnd]
  | some last =>
    if last.kind = .eof then ts
    else
      ts ++ [⟨.eof, "", ⟨last.position.line, last.position.column + last.lexeme.length⟩⟩]

end Parser

/-- The program that tokens stand for, up to the first end-of-input token. -/
def parse (ts : List Token) : Except SyntaxError Program :=
  let ts := Parser.closed ts
  (Parser.program (ts.length + 1) ts).map (·.1)

end StackScript
