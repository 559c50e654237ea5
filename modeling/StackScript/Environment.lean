import StackScript.Table
import StackScript.Value

/-!
Environments: the variables that a running program sees.

There is one global scope, and a stack with one scope for each call that has not returned. A name is
looked up in the innermost call's scope and then among the globals, never in the scopes between; a
binding always lands in the innermost scope.

* `Scope`, `Environment`: the scopes and how they are stacked;
* `Environment.find?`, `Environment.set`, `Environment.push`, `Environment.pop?`,
  `Environment.depth`: the operations.
-/

namespace StackScript

/-- The variables of one scope. -/
abbrev Scope := Table Value

/-- The globals, and the scopes of the calls that have not returned, the innermost first. -/
structure Environment where
  globals : Scope := {}
  calls : List Scope := []
deriving Inhabited

namespace Environment

/-- The number of calls that have not returned. -/
def depth (env : Environment) : Nat :=
  env.calls.length

/-- The value of a name. -/
def find? (env : Environment) (name : String) : Option Value :=
  match env.calls with
  | [] => env.globals.find? name
  | scope :: _ => scope.find? name <|> env.globals.find? name

/-- Bind a name in the innermost scope. -/
def set (env : Environment) (name : String) (value : Value) : Environment :=
  match env.calls with
  | [] => { env with globals := env.globals.insert name value }
  | scope :: calls => { env with calls := scope.insert name value :: calls }

/-- Enter a call whose scope starts with the given variables. -/
def push (env : Environment) (scope : Scope) : Environment :=
  { env with calls := scope :: env.calls }

/-- Leave the innermost call. -/
def leave (env : Environment) : Environment :=
  { env with calls := env.calls.tail }

/-- Leave the innermost call and answer its scope, if there is one. -/
def pop? (env : Environment) : Option (Scope × Environment) :=
  env.calls.head?.map fun scope => (scope, env.leave)

/-! ### Depth -/

@[simp] theorem depth_push (env : Environment) (scope : Scope) :
    (env.push scope).depth = env.depth + 1 := rfl

@[simp] theorem depth_set (env : Environment) (name : String) (value : Value) :
    (env.set name value).depth = env.depth := by
  unfold set
  split <;> simp_all [depth]

/-- Leaving a call undoes entering it. -/
@[simp] theorem leave_push (env : Environment) (scope : Scope) : (env.push scope).leave = env := rfl

end Environment

end StackScript
