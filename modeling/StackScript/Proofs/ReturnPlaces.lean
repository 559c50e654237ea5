import StackScript.Proofs.ParsedShape
import StackScript.Proofs.ScopeDiscipline

/-!
Returns in the place of values.

A tree could hold a return where a value is needed, and running it ends in an error. No program that
was parsed holds one: there are no statements in its expressions, nor in those of the bodies of its
functions. Functions are values, which are bound, passed on and returned, and outlive the program
that has defined them. But wherever they are, their bodies are those of programs that were parsed.
So the error never comes up on a machine on which only such programs have been run, in whatever
errors these have ended.

* `Value.Sound`, `Environment.Sound`: a function has a body of statements, and so has every function
  that is bound;
* `Safe`: a computation keeps the environment sound, and does not end in the error;
* `SafeNodes`, `safeNodes_step`, `safeNodes_execute`: expressions answer values, and statements may
  return;
* `Reached`: the machines on which programs that were parsed have been run;
* `ne_returnInExpression_of_parse`: what no program that was parsed ends in.
-/

namespace StackScript

/-! ### Sound values -/

/-- The body of a function holds statements. -/
def Value.Sound : Value → Prop
  | .function _ definition => areStatements definition.body = true
  | _ => True

theorem Value.sound_none : Value.none.Sound :=
  trivial

/-- All values in a scope are sound. -/
def SoundScope (scope : Scope) : Prop :=
  ∀ e ∈ scope.entries, e.2.Sound

/-- All values in an environment are sound. -/
structure Environment.Sound (env : Environment) : Prop where
  globals : SoundScope env.globals
  calls : ∀ scope ∈ env.calls, SoundScope scope

section Scopes

variable {scope : Scope} {name : String} {value : Value} {env : Environment}

theorem SoundScope.find? (h : SoundScope scope) (hfind : scope.find? name = some value) :
    value.Sound := by
  obtain ⟨e, he, rfl⟩ := Option.map_eq_some_iff.mp hfind
  exact h e (List.mem_of_find?_eq_some he)

theorem SoundScope.insert (h : SoundScope scope) (name : String) (hvalue : value.Sound) :
    SoundScope (scope.insert name value) := by
  intro e he
  rcases Table.mem_insertEntry he with he | rfl
  · exact h e he
  · exact hvalue

/-- The scope of a call binds the arguments. -/
theorem soundScope_ofPairs (names : List String) {values : List Value}
    (h : ∀ v ∈ values, v.Sound) : SoundScope (Table.ofPairs (names.zip values)) := by
  intro e he
  rcases Table.mem_entries_insertAll _ he with he | he
  · exact absurd he List.not_mem_nil
  · exact h e.2 (List.of_mem_zip he).2

theorem Environment.Sound.find? (h : env.Sound) (hfind : env.find? name = some value) :
    value.Sound := by
  obtain ⟨globals, calls⟩ := env
  cases calls with
  | nil => exact h.globals.find? hfind
  | cons scope calls =>
    replace hfind : (scope.find? name <|> globals.find? name) = some value := hfind
    cases hscope : scope.find? name with
    | none =>
      rw [hscope] at hfind
      exact h.globals.find? hfind
    | some v =>
      rw [hscope] at hfind
      obtain rfl := Option.some.inj hfind
      exact (h.calls scope List.mem_cons_self).find? hscope

theorem Environment.Sound.set (h : env.Sound) (name : String) (hvalue : value.Sound) :
    (env.set name value).Sound := by
  obtain ⟨globals, calls⟩ := env
  cases calls with
  | nil => exact ⟨h.globals.insert name hvalue, h.calls⟩
  | cons scope calls =>
    obtain ⟨hscope, hcalls⟩ := List.forall_mem_cons.mp h.calls
    exact ⟨h.globals, List.forall_mem_cons.mpr ⟨hscope.insert name hvalue, hcalls⟩⟩

theorem Environment.Sound.push (h : env.Sound) (hscope : SoundScope scope) :
    (env.push scope).Sound :=
  ⟨h.globals, List.forall_mem_cons.mpr ⟨hscope, h.calls⟩⟩

theorem Environment.Sound.leave (h : env.Sound) : env.leave.Sound :=
  ⟨h.globals, fun scope hscope => h.calls scope (List.mem_of_mem_tail hscope)⟩

end Scopes

/-! ### Safe computations -/

/-- In a sound environment, the computation answers such a value or ends in an interrupt, which is
not that of a return in an expression; and it leaves the environment sound. -/
def Safe {α : Type} (x : Run α) (P : α → Prop) : Prop :=
  ∀ m, m.environment.Sound → match x m with
    | .ok a m' => m'.environment.Sound ∧ P a
    | .error e m' => m'.environment.Sound ∧ e ≠ .failed .returnInExpression

namespace Safe

variable {α β : Type} {x : Run α} {P : α → Prop} {Q : β → Prop}

theorem mono {P' : α → Prop} (hx : Safe x P) (h : ∀ a, P a → P' a) : Safe x P' := by
  intro m hm
  have hrun := hx m hm
  cases hr : x m with
  | ok a m' =>
    rw [hr] at hrun
    exact ⟨hrun.1, h a hrun.2⟩
  | error e m' =>
    rw [hr] at hrun
    exact hrun

theorem pure {a : α} (h : P a) : Safe (Pure.pure a : Run α) P :=
  fun _ hm => ⟨hm, h⟩

theorem exhausted : Safe (throw .exhausted : Run α) P :=
  fun _ hm => ⟨hm, nofun⟩

theorem fail {e : RuntimeError} (h : e ≠ .returnInExpression) : Safe (Machine.fail e : Run α) P :=
  fun _ hm => ⟨hm, fun he => h (Interrupt.failed.inj he)⟩

theorem bind {f : α → Run β} (hx : Safe x P) (hf : ∀ a, P a → Safe (f a) Q) :
    Safe (x >>= f) Q := by
  intro m hm
  have hrun := hx m hm
  rw [bind_apply]
  cases hr : x m with
  | ok a m' =>
    rw [hr] at hrun
    exact hf a hrun.2 m' hrun.1
  | error e m' =>
    rw [hr] at hrun
    exact hrun

theorem map {f : α → β} (hx : Safe x P) (hf : ∀ a, P a → Q (f a)) : Safe (f <$> x) Q :=
  hx.bind fun a ha => pure (hf a ha)

theorem ite {c : Prop} [Decidable c] {y : Run α} (hx : Safe x P) (hy : Safe y P) :
    Safe (if c then x else y) P := by
  by_cases hc : c
  · rwa [if_pos hc]
  · rwa [if_neg hc]

/-- A check in front of a computation. -/
theorem check {c : Prop} [Decidable c] {e : RuntimeError} (he : e ≠ .returnInExpression)
    (hx : Safe x P) : Safe (if c then (do let _ : Unit ← Machine.fail e; x) else x) P :=
  .ite (bind (P := fun _ => True) (fail he) fun _ _ => hx) hx

/-- No operator answers a function. -/
theorem binary (op : BinaryOp) (left right : Value) :
    Safe (Machine.lift (op.apply left right)) Value.Sound := by
  unfold BinaryOp.apply
  split
  all_goals first
    | exact pure trivial
    | exact fail (by simp)
    | split
      · exact fail (by simp)
      · exact pure trivial

theorem unary (op : UnaryOp) (operand : Value) :
    Safe (Machine.lift (op.apply operand)) Value.Sound := by
  unfold UnaryOp.apply
  split
  all_goals first
    | exact pure trivial
    | exact fail (by simp)

theorem lookup (name : String) : Safe (Machine.lookup name) Value.Sound := by
  intro m hm
  rw [Machine.lookup]
  cases hv : m.environment.find? name with
  | some v => exact ⟨hm, hm.find? hv⟩
  | none => exact ⟨hm, by simp⟩

theorem assign (name : String) {value : Value} (h : value.Sound) :
    Safe (Machine.assign name value) fun _ => True :=
  fun _ hm => ⟨hm.set name h, trivial⟩

theorem newFunction {definition : FunctionDef} (h : areStatements definition.body = true) :
    Safe (Machine.newFunction definition) Value.Sound :=
  fun _ hm => ⟨hm, h⟩

theorem printLine (text : String) : Safe (Machine.printLine text) fun _ => True := by
  intro m hm
  rw [Machine.printLine]
  cases m.sink.write (text ++ "\n") with
  | mk taken sink =>
    cases taken with
    | true => exact ⟨hm, trivial⟩
    | false => exact ⟨hm, by simp⟩

theorem report (n : Notice) : Safe (Machine.report n) fun _ => True :=
  fun _ hm => ⟨hm, trivial⟩

theorem depth : Safe Machine.depth fun _ => True :=
  fun _ hm => ⟨hm, trivial⟩

theorem inScope {scope : Scope} (hscope : SoundScope scope) (hx : Safe x P) :
    Safe (Machine.inScope scope x) P := by
  intro m hm
  have hrun := hx { m with environment := m.environment.push scope } (hm.push hscope)
  rw [Machine.inScope]
  cases hr : x { m with environment := m.environment.push scope } with
  | ok a m' =>
    rw [hr] at hrun
    exact ⟨hrun.1.leave, hrun.2⟩
  | error e m' =>
    rw [hr] at hrun
    exact ⟨hrun.1.leave, hrun.2⟩

/-- The function that is called has a body of statements. -/
theorem callee (name : String) :
    Safe (Machine.callee name) fun f => areStatements f.body = true := by
  refine (lookup name).bind fun v hv => ?_
  cases v with
  | function identity definition => exact pure hv
  | _ => exact fail nofun

end Safe

/-! ### Nodes, given those inside them -/

/-- The execution goes on, with a sound value. -/
inductive Flow.Answers : Flow → Prop where
  | continues {v : Value} (h : v.Sound) : Answers (.continues v)

/-- Expressions have values, and statements lead to some. -/
structure SafeNodes (inner : Node → Run Flow) : Prop where
  expression : ∀ node, node.isExpression = true → Safe (inner node) Flow.Answers
  statement : ∀ node, node.isStatement = true → Safe (inner node) fun flow => flow.value.Sound

namespace SafeNodes

variable {inner : Node → Run Flow} (h : SafeNodes inner)

include h

theorem evaluate {node : Node} (hnode : node.isExpression = true) :
    Safe (Machine.evaluate inner node) Value.Sound := by
  refine (h.expression node hnode).bind ?_
  rintro _ ⟨hv⟩
  exact .pure hv

theorem evaluateAll {nodes : List Node} (hnodes : ∀ node ∈ nodes, node.isExpression = true) :
    Safe (Machine.evaluateAll inner nodes) fun values => ∀ v ∈ values, v.Sound := by
  induction nodes with
  | nil => exact .pure (List.forall_mem_nil _)
  | cons node nodes ih =>
    obtain ⟨hnode, hrest⟩ := List.forall_mem_cons.mp hnodes
    refine (h.evaluate hnode).bind fun v hv => (ih hrest).bind fun vs hvs => .pure ?_
    exact List.forall_mem_cons.mpr ⟨hv, hvs⟩

theorem block {nodes : List Node} (hnodes : areStatements nodes = true) :
    ∀ {last : Value}, last.Sound →
      Safe (Machine.block inner last nodes) fun flow => flow.value.Sound := by
  rw [areStatements_iff] at hnodes
  induction nodes with
  | nil => exact fun hlast => .pure hlast
  | cons node nodes ih =>
    intro last _
    obtain ⟨hnode, hrest⟩ := List.forall_mem_cons.mp hnodes
    refine (h.statement node hnode).bind fun flow hflow => ?_
    cases flow with
    | continues v => exact ih hrest hflow
    | returns v => exact .pure hflow

omit h in
theorem repeatWhile {test : Run Bool} {body : Run Flow} (htest : Safe test fun _ => True)
    (hbody : Safe body fun flow => flow.value.Sound) (rounds : Nat) :
    ∀ {last : Value}, last.Sound →
      Safe (Machine.repeatWhile test body rounds last) fun flow => flow.value.Sound := by
  induction rounds with
  | zero => exact fun _ => .exhausted
  | succ rounds ih =>
    intro last hlast
    refine htest.bind fun b _ => ?_
    cases b with
    | false => exact .pure hlast
    | true =>
      refine hbody.bind fun flow hflow => ?_
      cases flow with
      | continues v => exact ih hflow
      | returns v => exact .pure hflow

theorem call (limit : Nat) (name : String) {arguments : List Node}
    (harguments : areExpressions arguments = true) :
    Safe (Machine.call limit inner name arguments) Value.Sound := by
  rw [areExpressions_iff] at harguments
  refine (Safe.callee name).bind fun f hf => ?_
  refine (h.evaluateAll harguments).bind fun values hvalues => ?_
  -- what is left are two checks, a notice, and the body in its scope
  refine .check nofun (Safe.depth.bind fun d _ => .check nofun ((Safe.report _).bind fun _ _ => ?_))
  have hbody := Safe.inScope (soundScope_ofPairs f.parameters hvalues) (h.block hf Value.sound_none)
  exact hbody.bind fun _ hv => .pure hv

/-- One case for each kind of node that an expression is made of. -/
theorem step_expression (limit rounds : Nat) {node : Node} (hnode : node.isExpression = true) :
    Safe (Machine.step limit inner rounds node) Flow.Answers := by
  cases node with
  | number x => exact .pure (.continues trivial)
  | string s => exact .pure (.continues trivial)
  | identifier name => exact (Safe.lookup name).bind fun _ hv => .pure (.continues hv)
  | binary op left right =>
    rw [Node.isExpression, Bool.and_eq_true] at hnode
    refine (h.evaluate hnode.1).bind fun l _ => (h.evaluate hnode.2).bind fun r _ => ?_
    exact (Safe.binary op l r).bind fun _ hv => .pure (.continues hv)
  | unary op operand =>
    rw [Node.isExpression] at hnode
    refine (h.evaluate hnode).bind fun v _ => ?_
    exact (Safe.unary op v).bind fun _ hv => .pure (.continues hv)
  | call name arguments =>
    exact (h.call limit name hnode).bind fun _ hv => .pure (.continues hv)
  | _ => exact nomatch hnode

/-- One case for each kind of statement; the others are expressions. -/
theorem step_statement (limit rounds : Nat) {node : Node} (hnode : node.isStatement = true) :
    Safe (Machine.step limit inner rounds node) fun flow => flow.value.Sound := by
  have hanswers : ∀ flow : Flow, flow.Answers → flow.value.Sound := by
    rintro _ ⟨hv⟩
    exact hv
  cases node with
  | assign name value =>
    exact (h.evaluate hnode).bind fun v hv => (Safe.assign name hv).bind fun _ _ => .pure hv
  | define name parameters body =>
    have hfunction : Safe (Machine.newFunction ⟨name, parameters, body⟩) Value.Sound :=
      .newFunction hnode
    refine hfunction.bind fun v hv => ?_
    exact (Safe.assign name hv).bind fun _ _ => .pure trivial
  | branch condition thenBody elseBody =>
    cases elseBody with
    | none =>
      rw [Node.isStatement, Bool.and_eq_true] at hnode
      refine (h.evaluate hnode.1).bind fun _ _ => .ite (h.block hnode.2 Value.sound_none) ?_
      exact .pure trivial
    | some body =>
      rw [Node.isStatement, Bool.and_eq_true, Bool.and_eq_true] at hnode
      refine (h.evaluate hnode.1.1).bind fun _ _ => .ite (h.block hnode.1.2 Value.sound_none) ?_
      exact h.block hnode.2 Value.sound_none
  | loop condition body =>
    rw [Node.isStatement, Bool.and_eq_true] at hnode
    have htest := (h.evaluate hnode.1).map (Q := fun _ => True) (f := Value.isTruthy)
      fun _ _ => trivial
    exact repeatWhile htest (h.block hnode.2 Value.sound_none) rounds Value.sound_none
  | ret value =>
    cases value with
    | none => exact .pure trivial
    | some value => exact (h.evaluate hnode).bind fun _ hv => .pure hv
  | print value =>
    refine (h.evaluate hnode).bind fun v _ => ?_
    exact (Safe.printLine v.shown).bind fun _ _ => .pure trivial
  | _ => exact (h.step_expression limit rounds hnode).mono hanswers

end SafeNodes

/-! ### Whole runs -/

theorem safeNodes_execute (limit fuel : Nat) : SafeNodes (execute limit fuel) := by
  induction fuel with
  | zero => exact ⟨fun _ _ => .exhausted, fun _ _ => .exhausted⟩
  | succ fuel ih =>
    exact ⟨fun _ hnode => ih.step_expression limit fuel hnode,
      fun _ hnode => ih.step_statement limit fuel hnode⟩

theorem safe_interpret (limit fuel : Nat) {program : Program}
    (hprogram : areStatements program = true) :
    Safe (interpret limit fuel program) Value.Sound :=
  ((safeNodes_execute limit fuel).block hprogram Value.sound_none).map fun _ hv => hv

/-- The machines on which programs that were parsed have been run, one after the other. In between,
the machine may be given another sink and another log. Each program is run under whatever limit and
with whatever fuel, and ends however it does. -/
inductive Reached : Machine → Prop where
  | fresh : Reached {}
  | rewired {m : Machine} (sink : Sink) (notices : Array Notice) (h : Reached m) :
    Reached { m with sink := sink, notices := notices }
  | ran {m : Machine} {ts : List Token} {program : Program} (limit fuel : Nat)
    (hprogram : parse ts = .ok program) (h : Reached m) :
    Reached (stateAfter (interpret limit fuel program m))

theorem reached_session {limit fuel : Nat} {programs : List Program}
    (hprograms : ∀ program ∈ programs, ∃ ts, parse ts = .ok program) :
    ∀ {m : Machine}, Reached m → Reached (session limit fuel programs m) := by
  induction programs with
  | nil => exact fun h => h
  | cons program programs ih =>
    intro m h
    obtain ⟨⟨ts, hprogram⟩, hrest⟩ := List.forall_mem_cons.mp hprograms
    exact ih hrest (.ran limit fuel hprogram h)

/-- The induction is on the programs that have been run. -/
theorem sound_of_reached {m : Machine} (h : Reached m) : m.environment.Sound := by
  induction h with
  | fresh => exact ⟨List.forall_mem_nil _, List.forall_mem_nil _⟩
  | rewired _ _ _ ih => exact ih
  | @ran m ts program limit fuel hprogram _ ih =>
    have hrun := safe_interpret limit fuel (areStatements_of_parse hprogram) m ih
    cases hr : interpret limit fuel program m with
    | ok v m' =>
      rw [hr] at hrun
      exact hrun.1
    | error e m' =>
      rw [hr] at hrun
      exact hrun.1

/-- No program that was parsed runs into a return inside an expression, whatever programs have been
run before it, and in whatever errors these have ended. -/
theorem ne_returnInExpression_of_parse {m : Machine} (hm : Reached m) {ts : List Token}
    {program : Program} (hprogram : parse ts = .ok program) (limit fuel : Nat) :
    error? (interpret limit fuel program m) ≠ some (.failed .returnInExpression) := by
  have hrun := safe_interpret limit fuel (areStatements_of_parse hprogram) m (sound_of_reached hm)
  cases hr : interpret limit fuel program m with
  | ok v m' => exact nofun
  | error e m' =>
    rw [hr] at hrun
    exact fun he => hrun.2 (Option.some.inj he)

/-- A program defines a function and fails; another one prints what this function returns, to a sink
that takes only one byte. -/
theorem ne_returnInExpression_of_parse_of_failed :
    let first : List Token := [⟨.funcWord, "func", ⟨1, 1⟩⟩, ⟨.identifier, "f", ⟨1, 6⟩⟩,
      ⟨.leftParen, "(", ⟨1, 7⟩⟩, ⟨.rightParen, ")", ⟨1, 8⟩⟩, ⟨.leftBrace, "\x7b", ⟨1, 10⟩⟩,
      ⟨.returnWord, "return", ⟨1, 12⟩⟩, ⟨.string, "s", ⟨1, 19⟩⟩, ⟨.rightBrace, "\x7d", ⟨1, 23⟩⟩,
      ⟨.identifier, "y", ⟨1, 25⟩⟩]
    let second : List Token := [⟨.printWord, "print", ⟨1, 1⟩⟩, ⟨.leftParen, "(", ⟨1, 6⟩⟩,
      ⟨.identifier, "f", ⟨1, 7⟩⟩, ⟨.leftParen, "(", ⟨1, 8⟩⟩, ⟨.rightParen, ")", ⟨1, 9⟩⟩,
      ⟨.rightParen, ")", ⟨1, 10⟩⟩]
    let failing : Program := [.define "f" [] [.ret (some (.string "s"))], .identifier "y"]
    let printing : Program := [.print (.call "f" [])]
    let start : Machine := { sink := ⟨"", some 1⟩ }
    let m := session 200 10 [failing] start
    parse first = .ok failing ∧ parse second = .ok printing ∧
      error? (interpret 200 10 failing start) = some (.failed (.undefinedVariable "y")) ∧
      Reached m ∧
      error? (interpret 200 10 printing m) ≠ some (.failed .returnInExpression) := by
  intro first second failing printing start m
  have hfirst : parse first = .ok failing := rfl
  have hsecond : parse second = .ok printing := rfl
  have hreached : Reached m := by
    refine reached_session ?_ (.rewired _ _ .fresh)
    rw [List.forall_mem_singleton]
    exact ⟨first, hfirst⟩
  exact ⟨hfirst, hsecond, rfl, hreached,
    ne_returnInExpression_of_parse hreached hsecond 200 10⟩

/-- A tree that no tokens are read as runs into the error. -/
example : error? (interpret 200 10 [.print (.ret none)] {})
    = some (.failed .returnInExpression) := rfl

end StackScript
