import StackScript.NumberText
import StackScript.Text.Quoted

/-!
Constants and constant pools.

Code loads its literals from a pool by their index. A pool is a list without two equal constants: a
constant that is added again keeps the index of the one that is there.

* `Constant`, `Constant.equals`, `Constant.shown`: literals, their equality and their text;
* `ConstantPool.place`: the index of a constant in a pool, which grows if the constant is new;
* `ConstantPool.merge`: the new index of every constant of another pool.

Design notes: equality between numbers is floating-point equality. The datum that is not a number is
equal to nothing and is added each time; the two zeros are one constant.
-/

namespace StackScript

/-- A literal. -/
inductive Constant where
  | number (x : Float)
  | string (s : String)
  /-- The value of a return without one. -/
  | none
deriving Inhabited

namespace Constant

/-- Equality of constants. -/
def equals : Constant → Constant → Bool
  | number x, number y => x == y
  | string s, string t => s = t
  | none, none => true
  | _, _ => false

/-- A constant as listings write it. -/
def shown : Constant → String
  | number x => numberText x
  | string s => quoted s
  | none => "None"

end Constant

/-- The constants that code loads by their index. -/
abbrev ConstantPool := List Constant

namespace ConstantPool

/-- The index of a constant, and the pool with it. -/
def place (pool : ConstantPool) (c : Constant) : Nat × ConstantPool :=
  match pool.findIdx? (·.equals c) with
  | some i => (i, pool)
  | none => (pool.length, pool ++ [c])

/-- The indices of constants that are added one after the other, and the pool with them. -/
def merge (pool : ConstantPool) : List Constant → List Nat × ConstantPool
  | [] => ([], pool)
  | c :: cs =>
    let (i, pool) := pool.place c
    let (indices, pool) := merge pool cs
    (i :: indices, pool)

end ConstantPool

end StackScript
