import StackScript.RuntimeError

/-!
The operators on values.

* `BinaryOp.apply`, `UnaryOp.apply`: the value of an operator, or the error it raises.

Equality is defined between all values, addition between two numbers or two texts, the other
arithmetic between two numbers, and order between two numbers or two texts.
-/

namespace StackScript

/-- The value of a binary operator. -/
def BinaryOp.apply (op : BinaryOp) (left right : Value) : Except RuntimeError Value :=
  match op, left, right with
  | .eq, l, r => .ok (.bool (l.equals r))
  | .ne, l, r => .ok (.bool (!l.equals r))
  | .add, .number x, .number y => .ok (.number (x + y))
  | .add, .string s, .string t => .ok (.string (s ++ t))
  | .sub, .number x, .number y => .ok (.number (x - y))
  | .mul, .number x, .number y => .ok (.number (x * y))
  | .div, .number x, .number y =>
    if y == 0 then .error .divisionByZero else .ok (.number (x / y))
  | .lt, .number x, .number y => .ok (.bool (x < y))
  | .lt, .string s, .string t => .ok (.bool (s < t))
  | .gt, .number x, .number y => .ok (.bool (y < x))
  | .gt, .string s, .string t => .ok (.bool (t < s))
  | op, l, r => .error (.badOperands op l.type r.type)

/-- The value of a unary operator. -/
def UnaryOp.apply (op : UnaryOp) (operand : Value) : Except RuntimeError Value :=
  match op, operand with
  | .plus, .number x => .ok (.number x)
  | .minus, .number x => .ok (.number (-x))
  | op, v => .error (.badOperand op v.type)

end StackScript
