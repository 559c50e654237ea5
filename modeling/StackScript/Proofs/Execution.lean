import StackScript.Interpreter
import StackScript.Proofs.Computation

/-!
What every execution does to the machine.

A run is put together from a few small steps: binding a name, making a function value, writing,
adding to the log, and computing inside a new scope. A relation between machines that these steps
keep to holds between the machine before and the machine after any execution, however that ends.

* `Obeys`: a computation leads every machine to one that is related to it;
* `Compositional`: a relation that holds along steps put together if it holds along each;
* `Discipline`: a relation that the small steps keep to;
* `Compositional.block`, `Compositional.repeatWhile`: statements and loops, given those inside them;
* `Discipline.execute`, `Discipline.call`, `Discipline.interpret`: whole runs keep to it as well.
-/

namespace StackScript

variable {R : Machine → Machine → Prop} {α β : Type}

/-- Whether a computation ends with a value or with an interrupt, the machine after it is related to
the machine before it. -/
def Obeys (R : Machine → Machine → Prop) (x : Run α) : Prop :=
  ∀ m, R m (stateAfter (x m))

namespace Obeys

theorem map {x : Run α} (hx : Obeys R x) (f : α → β) : Obeys R (f <$> x) := by
  intro m
  have hm := hx m
  rw [map_apply]
  cases hr : x m with
  | ok a m' => rwa [hr] at hm
  | error e m' => rwa [hr] at hm

theorem ite {c : Prop} [Decidable c] {x y : Run α} (hx : Obeys R x) (hy : Obeys R y) :
    Obeys R (if c then x else y) := by
  by_cases hc : c
  · rwa [if_pos hc]
  · rwa [if_neg hc]

end Obeys

/-- A relation that holds along steps put together if it holds along each. -/
structure Compositional (R : Machine → Machine → Prop) : Prop where
  refl : ∀ m, R m m
  trans : ∀ {a b c}, R a b → R b c → R a c

/-- A relation between machines that the small steps of a run keep to. -/
structure Discipline (R : Machine → Machine → Prop) : Prop extends Compositional R where
  assign : ∀ name value, Obeys R (Machine.assign name value)
  newFunction : ∀ definition, Obeys R (Machine.newFunction definition)
  printLine : ∀ text, Obeys R (Machine.printLine text)
  report : ∀ notice, Obeys R (Machine.report notice)
  inScope : ∀ {α : Type} (scope : Scope) {body : Run α}, Obeys R body →
    Obeys R (Machine.inScope scope body)

/-- A line that is printed changes the sink and nothing else, whether there is room for it or not. -/
theorem stateAfter_printLine (text : String) (m : Machine) :
    stateAfter (Machine.printLine text m)
      = { m with sink := (m.sink.write (text ++ "\n")).2 } := by
  rw [Machine.printLine]
  cases m.sink.write (text ++ "\n") with
  | mk taken sink => cases taken <;> rfl

/-! ### Steps put together -/

namespace Compositional

variable (h : Compositional R)

include h

theorem pure (a : α) : Obeys R (Pure.pure a : Run α) :=
  h.refl

theorem throw (e : Interrupt) : Obeys R (MonadExcept.throw e : Run α) :=
  h.refl

theorem bind {x : Run α} {f : α → Run β} (hx : Obeys R x) (hf : ∀ a, Obeys R (f a)) :
    Obeys R (x >>= f) := by
  intro m
  have hm := hx m
  rw [bind_apply]
  cases hr : x m with
  | ok a m' =>
    rw [hr] at hm
    exact h.trans hm (hf a m')
  | error e m' =>
    rw [hr] at hm
    exact hm

theorem fail (e : RuntimeError) : Obeys R (Machine.fail e : Run α) :=
  h.refl

theorem lift (r : Except RuntimeError α) : Obeys R (Machine.lift r) := by
  cases r with
  | ok a => exact h.refl
  | error e => exact h.refl

/-- A check in front of a computation. -/
theorem check {c : Prop} [Decidable c] {e : RuntimeError} {x : Run α} (hx : Obeys R x) :
    Obeys R (if c then (do let _ : Unit ← Machine.fail e; x) else x) :=
  .ite (h.bind (h.fail e) fun _ => hx) hx

theorem lookup (name : String) : Obeys R (Machine.lookup name) := by
  intro m
  rw [Machine.lookup]
  cases m.environment.find? name with
  | some v => exact h.refl m
  | none => exact h.refl m

theorem depth : Obeys R Machine.depth :=
  h.refl

theorem callee (name : String) : Obeys R (Machine.callee name) := by
  refine h.bind (h.lookup name) fun v => ?_
  cases v with
  | function identity definition => exact h.pure definition
  | _ => exact h.fail _

theorem evaluate {inner : Node → Run Flow} {node : Node} (hnode : Obeys R (inner node)) :
    Obeys R (Machine.evaluate inner node) := by
  refine h.bind hnode fun flow => ?_
  cases flow with
  | continues v => exact h.pure v
  | returns v => exact h.fail _

theorem evaluateAll {inner : Node → Run Flow} (nodes : List Node)
    (hnodes : ∀ node ∈ nodes, Obeys R (inner node)) :
    Obeys R (Machine.evaluateAll inner nodes) := by
  induction nodes with
  | nil => exact h.pure []
  | cons node nodes ih =>
    obtain ⟨hnode, hrest⟩ := List.forall_mem_cons.mp hnodes
    exact h.bind (h.evaluate hnode) fun v => h.bind (ih hrest) fun vs => h.pure (v :: vs)

theorem block {inner : Node → Run Flow} (nodes : List Node)
    (hnodes : ∀ node ∈ nodes, Obeys R (inner node)) :
    ∀ last, Obeys R (Machine.block inner last nodes) := by
  induction nodes with
  | nil => exact fun last => h.pure _
  | cons node nodes ih =>
    obtain ⟨hnode, hrest⟩ := List.forall_mem_cons.mp hnodes
    intro last
    refine h.bind hnode fun flow => ?_
    cases flow with
    | continues v => exact ih hrest v
    | returns v => exact h.pure _

theorem repeatWhile {test : Run Bool} {body : Run Flow} (htest : Obeys R test)
    (hbody : Obeys R body) (rounds : Nat) :
    ∀ last, Obeys R (Machine.repeatWhile test body rounds last) := by
  induction rounds with
  | zero => exact fun last => h.throw _
  | succ rounds ih =>
    intro last
    refine h.bind htest fun b => ?_
    cases b with
    | false => exact h.pure _
    | true =>
      refine h.bind hbody fun flow => ?_
      cases flow with
      | continues v => exact ih v
      | returns v => exact h.pure _

end Compositional

namespace Discipline

variable (h : Discipline R)

include h

/-! ### Nodes, given those inside them -/

section Inner

variable {inner : Node → Run Flow} (hinner : ∀ node, Obeys R (inner node))

include hinner

theorem block (nodes : List Node) (last : Value) : Obeys R (Machine.block inner last nodes) :=
  h.toCompositional.block nodes (fun node _ => hinner node) last

theorem call (limit : Nat) (name : String) (arguments : List Node) :
    Obeys R (Machine.call limit inner name arguments) := by
  refine h.bind (h.callee name) fun f =>
    h.bind (h.evaluateAll arguments fun node _ => hinner node) fun values => ?_
  -- what is left are two checks, a notice, and the body in its scope
  refine h.check (h.bind h.depth fun d => h.check (h.bind (h.report _) fun _ => ?_))
  exact h.bind (h.inScope _ (h.block hinner f.body .none)) fun _ => h.pure _

/-- One case for each kind of node. -/
theorem step (limit rounds : Nat) (node : Node) :
    Obeys R (Machine.step limit inner rounds node) := by
  cases node with
  | number x => exact h.pure _
  | string s => exact h.pure _
  | identifier name => exact h.bind (h.lookup name) fun _ => h.pure _
  | binary op left right =>
    exact h.bind (h.evaluate (hinner left)) fun l => h.bind (h.evaluate (hinner right)) fun r =>
      h.bind (h.lift (op.apply l r)) fun _ => h.pure _
  | unary op operand =>
    exact h.bind (h.evaluate (hinner operand)) fun v => h.bind (h.lift (op.apply v)) fun _ =>
      h.pure _
  | assign name value =>
    exact h.bind (h.evaluate (hinner value)) fun v => h.bind (h.assign name v) fun _ => h.pure _
  | call name arguments => exact h.bind (h.call hinner limit name arguments) fun _ => h.pure _
  | define name parameters body =>
    exact h.bind (h.newFunction _) fun v => h.bind (h.assign name v) fun _ => h.pure _
  | branch condition thenBody elseBody =>
    refine h.bind (h.evaluate (hinner condition)) fun _ => .ite (h.block hinner thenBody _) ?_
    cases elseBody with
    | none => exact h.pure _
    | some body => exact h.block hinner body _
  | loop condition body =>
    exact h.repeatWhile ((h.evaluate (hinner condition)).map _) (h.block hinner body _) rounds _
  | ret value =>
    cases value with
    | none => exact h.pure _
    | some value => exact h.bind (h.evaluate (hinner value)) fun _ => h.pure _
  | print value =>
    exact h.bind (h.evaluate (hinner value)) fun v => h.bind (h.printLine v.shown) fun _ =>
      h.pure _

end Inner

/-! ### Whole runs -/

theorem execute (limit fuel : Nat) : ∀ node, Obeys R (StackScript.execute limit fuel node) := by
  induction fuel with
  | zero => exact fun node => h.throw _
  | succ fuel ih => exact h.step ih limit fuel

theorem interpret (limit fuel : Nat) (program : Program) :
    Obeys R (StackScript.interpret limit fuel program) :=
  (h.block (h.execute limit fuel) program .none).map _

end Discipline

end StackScript
