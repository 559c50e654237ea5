import StackScript.Value

/-!
Why a running program stops early.

* `RuntimeError`: the causes;
* `RuntimeError.message`: each cause in words.
-/

namespace StackScript

/-- The reason for which a program stops before its end. -/
inductive RuntimeError where
  | undefinedVariable (name : String)
  | notAFunction (name : String) (found : ValueType)
  | badOperands (op : BinaryOp) (left right : ValueType)
  | badOperand (op : UnaryOp) (found : ValueType)
  | wrongArity (name : String) (expected found : Nat)
  | divisionByZero
  | callDepthExceeded (limit : Nat)
  | returnInExpression
  | outputFailed (reason : String)
deriving DecidableEq

namespace RuntimeError

/-- The error in words. -/
def message : RuntimeError → String
  | undefinedVariable name => "NameError: variable '" ++ name ++ "' is not defined"
  | notAFunction name found =>
    "TypeError: '" ++ name ++ "' is not a function (found " ++ found.shown ++ ")"
  | badOperands op left right =>
    "TypeError: unsupported operand types for " ++ op.symbol ++ ": " ++ left.shown ++ " and "
      ++ right.shown
  | badOperand op found =>
    "TypeError: bad operand type for unary " ++ op.symbol ++ ": " ++ found.shown
  | wrongArity name expected found =>
    "ArityError: function '" ++ name ++ s!"' expects {expected} arguments, got {found}"
  | divisionByZero => "RuntimeError: division by zero"
  | callDepthExceeded limit => s!"RuntimeError: maximum call depth of {limit} exceeded"
  | returnInExpression => "RuntimeError: 'return' cannot appear inside an expression"
  | outputFailed reason => "RuntimeError: failed to write output: " ++ reason

end RuntimeError

end StackScript
