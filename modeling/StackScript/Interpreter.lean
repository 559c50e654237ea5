import StackScript.Environment
import StackScript.Log
import StackScript.Operators
import StackScript.Sink

/-!
Running programs.

A node is executed in a machine: the environment, the sink that `print` writes to, the identity that
the next function value gets, and the log. Every node has a value; a return carries its value up to
the nearest call, or to the end of the program.

* `Machine`: the state; `Run` is a computation on it that may be interrupted;
* `execute`: execute one node; `Machine.block`, `Machine.repeatWhile`, `Machine.call` are the
  computations it is put together from, each given how to execute the nodes inside;
* `interpret`: run a program.

Design notes: `fuel` bounds the nesting of executions and the number of rounds of each loop. Running out
of it is an interrupt of its own, so a value or an error is always the answer of the program itself,
and more fuel does not change it. An interrupt keeps the state it arose in: what was printed stays
printed, and the scope of a call is left however the call ends.
-/

namespace StackScript

/-- What executing a statement leads to: the next statement, or the end of the call. -/
inductive Flow where
  | continues (value : Value)
  | returns (value : Value)
deriving Inhabited

/-- The value, whatever it leads to. -/
def Flow.value : Flow → Value
  | continues v => v
  | returns v => v

/-- Why a run ends without a value. -/
inductive Interrupt where
  | failed (error : RuntimeError)
  /-- The fuel ran out before the program ended. -/
  | exhausted
deriving DecidableEq

/-- The state of a running program. -/
structure Machine where
  environment : Environment := {}
  sink : Sink := {}
  /-- The identity of the next function value; all earlier ones are smaller. -/
  nextIdentity : Nat := 0
  notices : Array Notice := #[]
deriving Inhabited

/-- A computation on a machine. -/
abbrev Run (α : Type) := EStateM Interrupt Machine α

namespace Machine

/-- Stop with an error. -/
def fail {α : Type} (e : RuntimeError) : Run α :=
  throw (.failed e)

/-- The answer of an operation that may fail. -/
def lift {α : Type} : Except RuntimeError α → Run α
  | .ok a => pure a
  | .error e => fail e

/-- The value of a variable. -/
def lookup (name : String) : Run Value := fun m =>
  match m.environment.find? name with
  | some v => .ok v m
  | none => .error (.failed (.undefinedVariable name)) m

/-- Bind a variable in the innermost scope. -/
def assign (name : String) (value : Value) : Run Unit := fun m =>
  .ok () { m with environment := m.environment.set name value }

/-- A function value with a new identity. -/
def newFunction (definition : FunctionDef) : Run Value := fun m =>
  .ok (.function m.nextIdentity definition) { m with nextIdentity := m.nextIdentity + 1 }

/-- Print a line. -/
def printLine (text : String) : Run Unit := fun m =>
  match m.sink.write (text ++ "\n") with
  | (true, sink) => .ok () { m with sink := sink }
  | (false, sink) => .error (.failed (.outputFailed Sink.fullReason)) { m with sink := sink }

/-- Add to the log. -/
def report (n : Notice) : Run Unit := fun m =>
  .ok () { m with notices := m.notices.push n }

/-- The number of calls that have not returned. -/
def depth : Run Nat := fun m => .ok m.environment.depth m

/-- Compute inside a new scope, and leave that scope however the computation ends. -/
def inScope {α : Type} (scope : Scope) (body : Run α) : Run α := fun m =>
  match body { m with environment := m.environment.push scope } with
  | .ok a m' => .ok a { m' with environment := m'.environment.leave }
  | .error e m' => .error e { m' with environment := m'.environment.leave }

/-- The value of a node in a place where it must not return. -/
def evaluate (inner : Node → Run Flow) (node : Node) : Run Value := do
  match ← inner node with
  | .continues v => return v
  | .returns _ => fail .returnInExpression

/-- The values of nodes, from left to right. -/
def evaluateAll (inner : Node → Run Flow) : List Node → Run (List Value)
  | [] => return []
  | node :: nodes => return (← evaluate inner node) :: (← evaluateAll inner nodes)

/-- Execute statements in order until one returns; the value is that of the last one executed, or
`last` if there is none. -/
def block (inner : Node → Run Flow) (last : Value) : List Node → Run Flow
  | [] => return .continues last
  | node :: nodes => do
    match ← inner node with
    | .continues v => block inner v nodes
    | .returns v => return .returns v

/-- Execute `body` as long as `test` answers true; the value is that of the last round, or `last` if
there is none. -/
def repeatWhile (test : Run Bool) (body : Run Flow) : (rounds : Nat) → (last : Value) → Run Flow
  | 0, _ => throw .exhausted
  | rounds + 1, last => do
    if ← test then
      match ← body with
      | .continues v => repeatWhile test body rounds v
      | .returns v => return .returns v
    else return .continues last

/-- The function that a name is bound to. -/
def callee (name : String) : Run FunctionDef := do
  match ← lookup name with
  | .function _ definition => return definition
  | v => fail (.notAFunction name v.type)

/-- Call a function: it is looked up before its arguments are evaluated, and their number is checked
before the depth of calls. -/
def call (limit : Nat) (inner : Node → Run Flow) (name : String) (arguments : List Node) :
    Run Value := do
  let f ← callee name
  let values ← evaluateAll inner arguments
  if values.length ≠ f.parameters.length then
    fail (.wrongArity name f.parameters.length values.length)
  let d ← depth
  if limit ≤ d then fail (.callDepthExceeded limit)
  report (.calling name values.length d)
  let flow ← inScope (Table.ofPairs (f.parameters.zip values)) (block inner .none f.body)
  return flow.value

/-- Execute a node, given how to execute the nodes inside it and how many rounds a loop may take. -/
def step (limit : Nat) (inner : Node → Run Flow) (rounds : Nat) : Node → Run Flow
  | .number x => return .continues (.number x)
  | .string s => return .continues (.string s)
  | .identifier name => return .continues (← lookup name)
  | .binary op left right => do
    let l ← evaluate inner left
    let r ← evaluate inner right
    return .continues (← lift (op.apply l r))
  | .unary op operand => do
    let v ← evaluate inner operand
    return .continues (← lift (op.apply v))
  | .assign name value => do
    let v ← evaluate inner value
    assign name v
    return .continues v
  | .call name arguments => return .continues (← call limit inner name arguments)
  | .define name parameters body => do
    assign name (← newFunction ⟨name, parameters, body⟩)
    return .continues .none
  | .branch condition thenBody elseBody => do
    if (← evaluate inner condition).isTruthy then block inner .none thenBody
    else
      match elseBody with
      | some body => block inner .none body
      | none => return .continues .none
  | .loop condition body =>
    repeatWhile (Value.isTruthy <$> evaluate inner condition) (block inner .none body) rounds .none
  | .ret none => return .returns .none
  | .ret (some value) => return .returns (← evaluate inner value)
  | .print value => do
    printLine (← evaluate inner value).shown
    return .continues .none

end Machine

/-- Execute a node under a limit for the depth of calls. -/
def execute (limit : Nat) : (fuel : Nat) → Node → Run Flow
  | 0, _ => throw .exhausted
  | fuel + 1, node => Machine.step limit (execute limit fuel) fuel node

/-- Run a program: its value is that of its last statement, or of the return that ends it. -/
def interpret (limit fuel : Nat) (program : Program) : Run Value :=
  Flow.value <$> Machine.block (execute limit fuel) .none program

/-- The limit for the depth of calls unless another one is asked for. -/
def defaultCallLimit : Nat := 200

/-- More fuel than any run uses up that ends in the lifetime of a machine. -/
def ampleFuel : Nat := Nat.pow 10 18

end StackScript
