import StackScript.Syntax
import StackScript.Text.Quoted

/-!
Instructions of the stack machine.

* `Instruction`: the instruction set;
* `Instruction.opcode`, `Instruction.shown`: an instruction as listings write it;
* `Instruction.isJump`: the instructions whose operand is a place in the code;
* `Instruction.number?`: the number among the operands.
-/

namespace StackScript

/-- An instruction. Operands of expressions are pushed before their operator. -/
inductive Instruction where
  /-- Push a constant, by its index in the pool. -/
  | loadConst (index : Nat)
  | loadVar (name : String)
  /-- Pop a value and bind a name to it. -/
  | storeVar (name : String)
  | binary (op : BinaryOp)
  | unary (op : UnaryOp)
  | call (name : String) (arity : Nat)
  | ret
  /-- Go to an instruction, by its index in the code. -/
  | jump (target : Nat)
  /-- Pop a condition, and go to an instruction if it is false. -/
  | jumpIfFalse (target : Nat)
  | print
deriving DecidableEq

/-- The opcode of a binary operator. -/
def BinaryOp.opcode : BinaryOp → String
  | add => "BINARY_ADD"
  | sub => "BINARY_SUB"
  | mul => "BINARY_MUL"
  | div => "BINARY_DIV"
  | eq => "BINARY_EQ"
  | ne => "BINARY_NEQ"
  | lt => "BINARY_LT"
  | gt => "BINARY_GT"

/-- The opcode of a unary operator. -/
def UnaryOp.opcode : UnaryOp → String
  | plus => "UNARY_PLUS"
  | minus => "UNARY_MINUS"

namespace Instruction

/-- The opcode of an instruction. -/
def opcode : Instruction → String
  | loadConst _ => "LOAD_CONST"
  | loadVar _ => "LOAD_VAR"
  | storeVar _ => "STORE_VAR"
  | binary op => op.opcode
  | unary op => op.opcode
  | call .. => "CALL_FUNC"
  | ret => "RETURN"
  | jump _ => "JUMP"
  | jumpIfFalse _ => "JUMP_IF_FALSE"
  | print => "PRINT"

/-- The operands of an instruction, after a space if there are any. -/
def operands : Instruction → String
  | loadConst index => s!" {index}"
  | loadVar name => " " ++ name
  | storeVar name => " " ++ name
  | call name arity => " (" ++ quoted name ++ s!", {arity})"
  | jump target => s!" {target}"
  | jumpIfFalse target => s!" {target}"
  | _ => ""

/-- An instruction as listings write it. -/
def shown (i : Instruction) : String :=
  i.opcode ++ i.operands

/-- The operand of an instruction is a place in the code. -/
def isJump : Instruction → Bool
  | jump _ => true
  | jumpIfFalse _ => true
  | _ => false

/-- The number among the operands, if there is one. -/
def number? : Instruction → Option Nat
  | loadConst n | call _ n | jump n | jumpIfFalse n => some n
  | _ => none

end Instruction

end StackScript
