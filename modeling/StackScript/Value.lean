import StackScript.NumberText
import StackScript.Syntax

/-!
Values: what expressions and statements evaluate to.

Functions are values. There are no closures, so a function value holds its definition and nothing of
the scope it was made in; it also holds an identity, because two function values are equal only when
they come from the same execution of the same definition.

* `Value`, `ValueType`: values and their types;
* `Value.isTruthy`: the values that count as true in a condition;
* `Value.equals`: equality, which is false between values of different types;
* `Value.shown`: the text that is printed.
-/

namespace StackScript

/-- The types of values. -/
inductive ValueType where
  | number | string | bool | none | function
deriving DecidableEq

/-- A type as error messages name it. -/
def ValueType.shown : ValueType → String
  | number => "number"
  | string => "string"
  | bool => "bool"
  | none => "none"
  | function => "function"

/-- A value. -/
inductive Value where
  | number (x : Float)
  | string (s : String)
  | bool (b : Bool)
  | none
  | function (identity : Nat) (definition : FunctionDef)
deriving Inhabited

namespace Value

/-- The type of a value. -/
def type : Value → ValueType
  | number _ => .number
  | string _ => .string
  | bool _ => .bool
  | none => .none
  | function .. => .function

/-- Zero, the empty text, `False` and `None` count as false, every other value as true. -/
def isTruthy : Value → Bool
  | number x => x != 0
  | string s => s != ""
  | bool b => b
  | none => false
  | function .. => true

/-- Equality of values: floating-point equality between numbers, identity between functions. -/
def equals : Value → Value → Bool
  | number x, number y => x == y
  | string s, string t => s = t
  | bool a, bool b => a = b
  | none, none => true
  | function i _, function j _ => i = j
  | _, _ => false

/-- The text of a value. -/
def shown : Value → String
  | number x => numberText x
  | string s => s
  | bool true => "True"
  | bool false => "False"
  | none => "None"
  | function _ definition => "<function " ++ definition.name ++ ">"

end Value

end StackScript
