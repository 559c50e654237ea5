import StackScript.Proofs.Comparison

/-!
A call does not see the variables of its callers.

A name is looked up in the innermost scope and among the globals. So what a body does depends on how
many calls it is in, by way of the limit, but not on what these calls have bound: with any other
scopes in their place it has the same result, prints the same and leaves the same globals.

* `Machine.among`: a machine in the midst of other calls;
* `runBody`, `call_eq_runBody`: the part of a call that binds the parameters and runs the body;
* `Machine.SameView`: machines that differ only in scopes that no lookup comes to;
* `lockstep_sameView`: runs from such machines go the same way;
* `runBody_among`: the body of a function, in the midst of other calls.
-/

namespace StackScript

/-- The machine in the midst of other calls, with these scopes. -/
def Machine.among (m : Machine) (calls : List Scope) : Machine :=
  m.within ⟨m.environment.globals, calls⟩

/-- Bind the parameters of a function in a new scope, and run its body there. -/
def runBody (limit fuel : Nat) (f : FunctionDef) (values : List Value) : Run Flow :=
  Machine.inScope (Table.ofPairs (f.parameters.zip values))
    (Machine.block (execute limit fuel) .none f.body)

/-- It is what a call does when its number of arguments and the depth of calls have been checked. -/
theorem call_eq_runBody (limit fuel : Nat) (name : String) (arguments : List Node) :
    Machine.call limit (execute limit fuel) name arguments = (do
      let f ← Machine.callee name
      let values ← Machine.evaluateAll (execute limit fuel) arguments
      if values.length ≠ f.parameters.length then
        Machine.fail (.wrongArity name f.parameters.length values.length)
      Machine.checkDepth limit name values.length
      let flow ← runBody limit fuel f values
      return flow.value) :=
  call_eq limit (execute limit fuel) name arguments

/-! ### What a lookup comes to -/

namespace Environment

/-- The environments have the same globals, the same innermost scope, and the same depth. -/
structure SameView (env env' : Environment) : Prop where
  globals : env'.globals = env.globals
  innermost : env'.calls.head? = env.calls.head?
  depth : env'.depth = env.depth

namespace SameView

variable {env env' : Environment}

theorem find? (h : env.SameView env') (name : String) : env'.find? name = env.find? name := by
  obtain ⟨globals, calls⟩ := env
  obtain ⟨globals', calls'⟩ := env'
  obtain ⟨rfl, hinnermost, -⟩ := h
  cases calls <;> cases calls'
  · rfl
  · cases hinnermost
  · cases hinnermost
  · obtain rfl := Option.some.inj hinnermost
    rfl

theorem set (h : env.SameView env') (name : String) (value : Value) :
    (env.set name value).SameView (env'.set name value) := by
  obtain ⟨globals, calls⟩ := env
  obtain ⟨globals', calls'⟩ := env'
  obtain ⟨rfl, hinnermost, hdepth⟩ := h
  cases calls <;> cases calls'
  · exact ⟨rfl, rfl, rfl⟩
  · cases hinnermost
  · cases hinnermost
  · obtain rfl := Option.some.inj hinnermost
    exact ⟨rfl, rfl, hdepth⟩

theorem push (h : env.SameView env') (scope : Scope) :
    (env.push scope).SameView (env'.push scope) :=
  ⟨h.globals, rfl, congrArg (· + 1) h.depth⟩

end SameView

end Environment

/-! ### Runs -/

/-- The machines differ only in the scopes of enclosing calls. -/
structure Machine.SameView (m m' : Machine) : Prop where
  environment : m.environment.SameView m'.environment
  sink : m'.sink = m.sink
  nextIdentity : m'.nextIdentity = m.nextIdentity
  notices : m'.notices = m.notices

/-- Neither run is ever stopped before the other. -/
def sameView : Comparison where
  alike := Machine.SameView
  stop := .exhausted
  apart _ _ := False
  excused _ := False

theorem lockstep_sameView (limit : Nat) : sameView.Lockstep limit limit where
  find? h name := h.environment.find? name
  assign h name value := ⟨h.environment.set name value, h.sink, h.nextIdentity, h.notices⟩
  newFunction {m m'} h definition := by
    rw [Machine.newFunction, Machine.newFunction, h.nextIdentity]
    exact .value _ ⟨h.environment, h.sink, rfl, h.notices⟩
  printLine {m m'} h text := by
    rw [Machine.printLine, Machine.printLine, h.sink]
    cases m.sink.write (text ++ "\n") with
    | mk taken sink =>
      cases taken with
      | true => exact .value () ⟨h.environment, rfl, h.nextIdentity, h.notices⟩
      | false => exact .interrupt _ ⟨h.environment, rfl, h.nextIdentity, h.notices⟩
  checkDepth {m m'} h name arity := by
    simp only [Machine.checkDepth, bind_apply, Machine.depth]
    rw [h.environment.depth]
    by_cases hd : limit ≤ m.environment.depth
    · simp only [if_pos hd]
      exact .interrupt _ h
    · simp only [if_neg hd]
      have hnotices := congrArg (·.push (.calling name arity m.environment.depth)) h.notices
      exact .value () ⟨h.environment, h.sink, h.nextIdentity, hnotices⟩
  push h scope := ⟨h.environment.push scope, h.sink, h.nextIdentity, h.notices⟩
  leave h hs hleft hleft' := by
    refine ⟨?_, hs.sink, hs.nextIdentity, hs.notices⟩
    show Environment.SameView _ _
    rw [Machine.within, Machine.within, hleft, hleft']
    exact h.environment
  apart_grows h _ := h
  apart_leave h := h

/-- Machines that have been in the same view, back among the calls that they came from. -/
theorem Machine.SameView.left {m s s' : Machine} {calls : List Scope} (h : s.SameView s')
    (hleft : s.environment.leave = m.environment)
    (hleft' : s'.environment.leave = (m.among calls).environment) :
    s'.within s'.environment.leave = (s.within s.environment.leave).among calls := by
  obtain ⟨environment, sink, nextIdentity, notices⟩ := s
  obtain ⟨environment', sink', nextIdentity', notices'⟩ := s'
  obtain ⟨-, rfl, rfl, rfl⟩ := h
  simp only [Machine.within, Machine.among] at hleft hleft' ⊢
  rw [hleft, hleft']

/-- Whatever calls a body is in the midst of, if they are as many: it has the same result, and the
machine after it is the same but for their scopes. -/
theorem runBody_among (limit fuel : Nat) (f : FunctionDef) (values : List Value) (m : Machine)
    {calls : List Scope} (h : calls.length = m.environment.calls.length) :
    runBody limit fuel f values (m.among calls) = match runBody limit fuel f values m with
      | .ok flow s => .ok flow (s.among calls)
      | .error e s => .error e (s.among calls) := by
  have hstep := lockstep_sameView limit
  have hbody := hstep.block (hstep.execute fuel) f.body .none
  rw [runBody, inScope_apply, inScope_apply]
  generalize hinside : m.within (m.environment.push _) = inside
  generalize hinside' : (m.among calls).within ((m.among calls).environment.push _) = inside'
  -- the innermost scope is now that of the body
  have hsame : inside.SameView inside' := by
    subst hinside hinside'
    exact ⟨⟨rfl, rfl, congrArg (· + 1) h⟩, rfl, rfl, rfl⟩
  have houtcome := hbody.outcome inside inside' hsame
  have hfirst := (hbody.first inside).2
  have hsecond := (hbody.second inside').2
  generalize Machine.block (execute limit fuel) .none f.body inside = r at houtcome hfirst ⊢
  generalize Machine.block (execute limit fuel) .none f.body inside' = r' at houtcome hsecond ⊢
  rw [← hinside] at hfirst
  rw [← hinside'] at hsecond
  cases houtcome with
  | value a hs => exact congrArg _ (hs.left hfirst.leave_eq hsecond.leave_eq)
  | interrupt e hs => exact congrArg _ (hs.left hfirst.leave_eq hsecond.leave_eq)
  | stopped hs => exact absurd hs id
  | excused he => exact absurd he id

/-- The body prints `x`, binds it, and fails at a name that only a calling scope binds. -/
theorem runBody_among_of_hidden_name :
    let body : List Node := [.print (.identifier "x"), .assign "x" (.identifier "y"),
      .identifier "hidden"]
    let f : FunctionDef := ⟨"f", ["y"], body⟩
    let m : Machine := { environment :=
      ⟨.ofPairs [("x", .string "outer")], [.ofPairs [("x", .string "one")]]⟩ }
    let calls : List Scope := [.ofPairs [("x", .string "two"), ("hidden", .none)]]
    calls.length = m.environment.calls.length ∧
      (runBody 200 10 f [.string "s"] (m.among calls)
        = match runBody 200 10 f [.string "s"] m with
          | .ok flow s => .ok flow (s.among calls)
          | .error e s => .error e (s.among calls)) ∧
      ∃ s, runBody 200 10 f [.string "s"] m = .error (.failed (.undefinedVariable "hidden")) s ∧
        s.sink.written = "outer\n" := by
  intro body f m calls
  have hlength : calls.length = m.environment.calls.length := rfl
  exact ⟨hlength, runBody_among 200 10 f [.string "s"] m hlength, _, rfl, rfl⟩

end StackScript
