/-!
The syntax of the language.

A program is a list of statements. Statements and expressions are one type, `Node`, because every
statement has a value and the interpreter and the compiler accept any nesting; which nestings the
grammar produces is a property of the parser, not of the type.

* `BinaryOp`, `UnaryOp`: the operators, with their symbols;
* `Node`: statements and expressions;
* `FunctionDef`: what a function definition binds to its name;
* `Program`: a list of statements.
-/

namespace StackScript

/-- The binary operators. -/
inductive BinaryOp where
  | add | sub | mul | div | eq | ne | lt | gt
deriving DecidableEq

/-- The symbol of a binary operator. -/
def BinaryOp.symbol : BinaryOp → String
  | add => "+"
  | sub => "-"
  | mul => "*"
  | div => "/"
  | eq => "=="
  | ne => "!="
  | lt => "<"
  | gt => ">"

/-- The unary operators. -/
inductive UnaryOp where
  | plus | minus
deriving DecidableEq

/-- The symbol of a unary operator. -/
def UnaryOp.symbol : UnaryOp → String
  | plus => "+"
  | minus => "-"

/-- A statement or an expression. -/
inductive Node where
  | number (value : Float)
  | string (value : String)
  | identifier (name : String)
  | binary (op : BinaryOp) (left right : Node)
  | unary (op : UnaryOp) (operand : Node)
  /-- A binding of a name, whether written with the word `let` or without it. -/
  | assign (name : String) (value : Node)
  | call (name : String) (arguments : List Node)
  | define (name : String) (parameters : List String) (body : List Node)
  /-- A branch without an else part is distinct from one with an empty else part. -/
  | branch (condition : Node) (thenBody : List Node) (elseBody : Option (List Node))
  | loop (condition : Node) (body : List Node)
  | ret (value : Option Node)
  | print (value : Node)
deriving Inhabited

/-- A named function with positional parameters. -/
structure FunctionDef where
  name : String
  parameters : List String
  body : List Node

/-- A program: its statements in order. -/
abbrev Program := List Node

end StackScript
