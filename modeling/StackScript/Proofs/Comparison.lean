import StackScript.Proofs.Purity

/-!
Two runs of one program, step by step.

The runs start in machines that are alike, and differ in what these machines hold, in the limit for
the depth of calls, or in their fuel. As long as each small step leads from alike machines to alike
ones, both runs do the same. The second run may also be stopped at a step where the first one goes on;
what is known then must outlast everything that the first run does afterwards.

* `Comparison`: which machines are alike, and what stops the second run;
* `Comparison.Outcome`, `Comparison.Compares`: how two results, and two computations, compare;
* `Comparison.Lockstep`: what is asked of the small steps;
* `Comparison.Allows`: how much fuel the runs may have;
* `Lockstep.execute`, `Lockstep.interpret`: whole runs compare as well.
-/

namespace StackScript

/-- A relation and another one that the small steps keep to, at once. -/
theorem Discipline.and {R S : Machine → Machine → Prop} (h : Discipline R) (h' : Discipline S) :
    Discipline fun m m' => R m m' ∧ S m m' where
  refl m := ⟨h.refl m, h'.refl m⟩
  trans hab hbc := ⟨h.trans hab.1 hbc.1, h'.trans hab.2 hbc.2⟩
  assign name value m := ⟨h.assign name value m, h'.assign name value m⟩
  newFunction definition m := ⟨h.newFunction definition m, h'.newFunction definition m⟩
  printLine text m := ⟨h.printLine text m, h'.printLine text m⟩
  report notice m := ⟨h.report notice m, h'.report notice m⟩
  inScope scope _ hbody m :=
    ⟨h.inScope scope (fun m => (hbody m).1) m, h'.inScope scope (fun m => (hbody m).2) m⟩

namespace Machine

/-- What any execution does: it adds to what there is, and keeps the scopes around. -/
def Advances (m m' : Machine) : Prop :=
  m.Grows m' ∧ KeepsScopes m m'

/-- The machine with other scopes. -/
def within (m : Machine) (environment : Environment) : Machine :=
  { m with environment := environment }

/-- The last check before a call, and the notice of it. -/
def checkDepth (limit : Nat) (name : String) (arity : Nat) : Run Unit := do
  let d ← depth
  if limit ≤ d then fail (.callDepthExceeded limit)
  report (.calling name arity d)

end Machine

theorem discipline_advances : Discipline Machine.Advances :=
  discipline_grows.and discipline_keeps

theorem Machine.grows_within (m : Machine) (environment : Environment) :
    m.Grows (m.within environment) :=
  ⟨m.written_self, List.prefix_rfl, Nat.le_refl _⟩

theorem inScope_apply {α : Type} (scope : Scope) (body : Run α) (m : Machine) :
    Machine.inScope scope body m = match body (m.within (m.environment.push scope)) with
      | .ok a s => .ok a (s.within s.environment.leave)
      | .error e s => .error e (s.within s.environment.leave) := rfl

/-- The body of a call runs in a scope of its own, behind the last check. -/
theorem call_eq (limit : Nat) (inner : Node → Run Flow) (name : String) (arguments : List Node) :
    Machine.call limit inner name arguments = (do
      let f ← Machine.callee name
      let values ← Machine.evaluateAll inner arguments
      if values.length ≠ f.parameters.length then
        Machine.fail (.wrongArity name f.parameters.length values.length)
      Machine.checkDepth limit name values.length
      let flow ← Machine.inScope (Table.ofPairs (f.parameters.zip values))
        (Machine.block inner .none f.body)
      return flow.value) := by
  have hcheck : ∀ (arity : Nat) (rest : Run Value), (do
      let d ← Machine.depth
      if limit ≤ d then Machine.fail (.callDepthExceeded limit)
      Machine.report (.calling name arity d)
      rest) = (do Machine.checkDepth limit name arity; rest) := by
    intro arity rest
    funext m
    simp only [Machine.checkDepth, bind_apply, Machine.depth]
    by_cases hd : limit ≤ m.environment.depth
    · simp only [if_pos hd]
      rfl
    · simp only [if_neg hd]
      rfl
  simp only [Machine.call, hcheck]

/-! ### Results -/

/-- How two runs are compared. -/
structure Comparison where
  /-- Both runs have done the same so far. -/
  alike : Machine → Machine → Prop
  /-- What stops the second run where the first one goes on. -/
  stop : Interrupt
  /-- The first run has gone on to a machine since the second one was stopped in another. -/
  apart : Machine → Machine → Prop
  /-- An end of the first run after which nothing is claimed about the second one. -/
  excused : Interrupt → Prop

namespace Comparison

variable {C : Comparison} {α β : Type}

/-- How a result of the first run and one of the second compare. -/
inductive Outcome (C : Comparison) {α : Type} :
    EStateM.Result Interrupt Machine α → EStateM.Result Interrupt Machine α → Prop where
  | value (a : α) {s s' : Machine} (h : C.alike s s') : Outcome C (.ok a s) (.ok a s')
  | interrupt (e : Interrupt) {s s' : Machine} (h : C.alike s s') :
    Outcome C (.error e s) (.error e s')
  | stopped {r : EStateM.Result Interrupt Machine α} {s' : Machine}
    (h : C.apart (stateAfter r) s') : Outcome C r (.error C.stop s')
  | excused {e : Interrupt} {s : Machine} {r' : EStateM.Result Interrupt Machine α}
    (h : C.excused e) : Outcome C (.error e s) r'

/-- Two computations compare if their results do wherever they start alike. -/
structure Compares (C : Comparison) {α : Type} (x y : Run α) : Prop where
  outcome : ∀ m m', C.alike m m' → C.Outcome (x m) (y m')
  first : Obeys Machine.Advances x
  second : Obeys Machine.Advances y

namespace Compares

theorem pure (a : α) : C.Compares (Pure.pure a : Run α) (Pure.pure a) where
  outcome _ _ hm := .value a hm
  first := discipline_advances.pure a
  second := discipline_advances.pure a

theorem throw (e : Interrupt) :
    C.Compares (MonadExcept.throw e : Run α) (MonadExcept.throw e) where
  outcome _ _ hm := .interrupt e hm
  first := discipline_advances.throw e
  second := discipline_advances.throw e

theorem fail (e : RuntimeError) : C.Compares (Machine.fail e : Run α) (Machine.fail e) :=
  .throw (.failed e)

theorem lift (r : Except RuntimeError α) : C.Compares (Machine.lift r) (Machine.lift r) := by
  cases r with
  | ok a => exact .pure a
  | error e => exact .fail e

theorem ite {c : Prop} [Decidable c] {x y x' y' : Run α} (hx : C.Compares x y)
    (hx' : C.Compares x' y') :
    C.Compares (if c then x else x') (if c then y else y') := by
  by_cases hc : c
  · rwa [if_pos hc, if_pos hc]
  · rwa [if_neg hc, if_neg hc]

end Compares

/-- The runs have the same fuel, or the first one has less and is excused for running out of it. -/
def Allows (C : Comparison) (fuel fuel' : Nat) : Prop :=
  fuel' = fuel ∨ C.excused .exhausted ∧ fuel ≤ fuel'

theorem Compares.of_excused {e : Interrupt} {y : Run α} (he : C.excused e)
    (hy : Obeys Machine.Advances y) : C.Compares (MonadExcept.throw e : Run α) y where
  outcome _ _ _ := .excused he
  first := discipline_advances.throw e
  second := hy

theorem Allows.zero {fuel' : Nat} {y : Run α} (h : C.Allows 0 fuel')
    (hzero : fuel' = 0 → y = MonadExcept.throw .exhausted) (hy : Obeys Machine.Advances y) :
    C.Compares (MonadExcept.throw .exhausted : Run α) y := by
  obtain h | ⟨he, -⟩ := h
  · rw [hzero h]
    exact .throw .exhausted
  · exact .of_excused he hy

theorem Allows.exists_succ {fuel fuel' : Nat} (h : C.Allows (fuel + 1) fuel') :
    ∃ n, fuel' = n + 1 ∧ C.Allows fuel n := by
  obtain rfl | ⟨he, hle⟩ := h
  · exact ⟨fuel, rfl, .inl rfl⟩
  · exact ⟨fuel' - 1, by omega, .inr ⟨he, by omega⟩⟩

/-- What the small steps have to do for whole runs to compare, each run under its limit. -/
structure Lockstep (C : Comparison) (limit limit' : Nat) : Prop where
  find? : ∀ {m m'}, C.alike m m' → ∀ name,
    m'.environment.find? name = m.environment.find? name
  assign : ∀ {m m'}, C.alike m m' → ∀ name value,
    C.alike (m.within (m.environment.set name value)) (m'.within (m'.environment.set name value))
  newFunction : ∀ {m m'}, C.alike m m' → ∀ definition,
    C.Outcome (Machine.newFunction definition m) (Machine.newFunction definition m')
  printLine : ∀ {m m'}, C.alike m m' → ∀ text,
    C.Outcome (Machine.printLine text m) (Machine.printLine text m')
  checkDepth : ∀ {m m'}, C.alike m m' → ∀ name arity,
    C.Outcome (Machine.checkDepth limit name arity m) (Machine.checkDepth limit' name arity m')
  push : ∀ {m m'}, C.alike m m' → ∀ scope,
    C.alike (m.within (m.environment.push scope)) (m'.within (m'.environment.push scope))
  leave : ∀ {m m' s s'}, C.alike m m' → C.alike s s' →
    s.environment.leave = m.environment → s'.environment.leave = m'.environment →
    C.alike (s.within s.environment.leave) (s'.within s'.environment.leave)
  apart_grows : ∀ {s s' t}, C.apart s s' → s.Grows t → C.apart t s'
  apart_leave : ∀ {s s'}, C.apart s s' → C.apart s (s'.within s'.environment.leave)

namespace Lockstep

variable {limit limit' : Nat} (h : C.Lockstep limit limit')

include h

/-! ### Steps put together -/

/-- Where the second run is stopped in its first part, the first run still does the second part. -/
theorem bind {x y : Run α} {f g : α → Run β} (hx : C.Compares x y)
    (hf : ∀ a, C.Compares (f a) (g a)) : C.Compares (x >>= f) (y >>= g) where
  first := discipline_advances.bind hx.first fun a => (hf a).first
  second := discipline_advances.bind hx.second fun a => (hf a).second
  outcome m m' hm := by
    have hfirst := hx.outcome m m' hm
    rw [bind_apply, bind_apply]
    generalize x m = r at hfirst ⊢
    generalize y m' = r' at hfirst ⊢
    -- only in the first case does the second run get to its second part
    cases hfirst with
    | value a hs => exact (hf a).outcome _ _ hs
    | interrupt e hs => exact .interrupt e hs
    | excused he => exact .excused he
    | stopped hs =>
      cases r with
      | ok a s => exact .stopped (h.apart_grows hs ((hf a).first s).1)
      | error e s => exact .stopped hs

theorem map {x y : Run α} (hx : C.Compares x y) (f : α → β) :
    C.Compares (f <$> x) (f <$> y) :=
  h.bind hx fun a => .pure (f a)

theorem lookup (name : String) :
    C.Compares (Machine.lookup name) (Machine.lookup name) where
  first := discipline_advances.lookup name
  second := discipline_advances.lookup name
  outcome m m' hm := by
    rw [Machine.lookup, Machine.lookup, h.find? hm]
    cases m.environment.find? name with
    | some v => exact .value v hm
    | none => exact .interrupt _ hm

theorem callee (name : String) :
    C.Compares (Machine.callee name) (Machine.callee name) := by
  refine h.bind (h.lookup name) fun v => ?_
  cases v with
  | function identity definition => exact .pure definition
  | _ => exact .fail _

theorem compares_assign (name : String) (value : Value) :
    C.Compares (Machine.assign name value) (Machine.assign name value) where
  first := discipline_advances.assign name value
  second := discipline_advances.assign name value
  outcome _ _ hm := .value () (h.assign hm name value)

theorem compares_newFunction (definition : FunctionDef) :
    C.Compares (Machine.newFunction definition) (Machine.newFunction definition) where
  first := discipline_advances.newFunction definition
  second := discipline_advances.newFunction definition
  outcome _ _ hm := h.newFunction hm definition

theorem compares_printLine (text : String) :
    C.Compares (Machine.printLine text) (Machine.printLine text) where
  first := discipline_advances.printLine text
  second := discipline_advances.printLine text
  outcome _ _ hm := h.printLine hm text

omit h in
theorem advances_checkDepth (limit : Nat) (name : String) (arity : Nat) :
    Obeys Machine.Advances (Machine.checkDepth limit name arity) :=
  discipline_advances.bind discipline_advances.depth fun _ =>
    discipline_advances.check (discipline_advances.report _)

theorem compares_checkDepth (name : String) (arity : Nat) :
    C.Compares (Machine.checkDepth limit name arity) (Machine.checkDepth limit' name arity) where
  first := advances_checkDepth limit name arity
  second := advances_checkDepth limit' name arity
  outcome _ _ hm := h.checkDepth hm name arity

/-- Both runs come back to the scopes that they left. -/
theorem inScope (scope : Scope) {x y : Run α} (hx : C.Compares x y) :
    C.Compares (Machine.inScope scope x) (Machine.inScope scope y) where
  first := discipline_advances.inScope scope hx.first
  second := discipline_advances.inScope scope hx.second
  outcome m m' hm := by
    -- the scopes around are kept in each run, so that leaving leads back to where it was
    have hbody := hx.outcome _ _ (h.push hm scope)
    have hfirst := (hx.first (m.within (m.environment.push scope))).2.leave_eq
    have hsecond := (hx.second (m'.within (m'.environment.push scope))).2.leave_eq
    rw [inScope_apply, inScope_apply]
    generalize x (m.within (m.environment.push scope)) = r at hbody hfirst ⊢
    generalize y (m'.within (m'.environment.push scope)) = r' at hbody hsecond ⊢
    cases hbody with
    | value a hs => exact .value a (h.leave hm hs hfirst hsecond)
    | interrupt e hs => exact .interrupt e (h.leave hm hs hfirst hsecond)
    | excused he => exact .excused he
    | stopped hs =>
      have hleft := h.apart_leave hs
      cases r with
      | ok a s => exact .stopped (h.apart_grows hleft (s.grows_within _))
      | error e s => exact .stopped (h.apart_grows hleft (s.grows_within _))

/-! ### Nodes, given those inside them -/

section Inner

variable {inner inner' : Node → Run Flow} (hinner : ∀ node, C.Compares (inner node) (inner' node))

include hinner

theorem evaluate (node : Node) :
    C.Compares (Machine.evaluate inner node) (Machine.evaluate inner' node) := by
  refine h.bind (hinner node) fun flow => ?_
  cases flow with
  | continues v => exact .pure v
  | returns v => exact .fail _

theorem evaluateAll (nodes : List Node) :
    C.Compares (Machine.evaluateAll inner nodes) (Machine.evaluateAll inner' nodes) := by
  induction nodes with
  | nil => exact .pure []
  | cons node nodes ih =>
    exact h.bind (h.evaluate hinner node) fun v => h.bind ih fun vs => .pure (v :: vs)

theorem block (nodes : List Node) :
    ∀ last, C.Compares (Machine.block inner last nodes) (Machine.block inner' last nodes) := by
  induction nodes with
  | nil => exact fun last => .pure _
  | cons node nodes ih =>
    intro last
    refine h.bind (hinner node) fun flow => ?_
    cases flow with
    | continues v => exact ih v
    | returns v => exact .pure _

omit hinner in
theorem repeatWhile {test test' : Run Bool} {body body' : Run Flow} (htest : C.Compares test test')
    (hbody : C.Compares body body') (rounds : Nat) :
    ∀ rounds', C.Allows rounds rounds' → ∀ last, C.Compares (Machine.repeatWhile test body rounds last)
      (Machine.repeatWhile test' body' rounds' last) := by
  induction rounds with
  | zero =>
    intro rounds' hrounds last
    refine hrounds.zero (fun h => by rw [h]; rfl) ?_
    exact discipline_advances.repeatWhile htest.second hbody.second rounds' last
  | succ rounds ih =>
    intro rounds' hrounds last
    obtain ⟨rounds', rfl, hfewer⟩ := hrounds.exists_succ
    refine h.bind htest fun b => ?_
    cases b with
    | false => exact .pure _
    | true =>
      refine h.bind hbody fun flow => ?_
      cases flow with
      | continues v => exact ih rounds' hfewer v
      | returns v => exact .pure _

theorem call (name : String) (arguments : List Node) :
    C.Compares (Machine.call limit inner name arguments)
      (Machine.call limit' inner' name arguments) := by
  rw [call_eq, call_eq]
  refine h.bind (h.callee name) fun f => h.bind (h.evaluateAll hinner arguments) fun values => ?_
  -- what is left is the body, behind the check of the depth
  have hbody := h.bind (h.inScope (Table.ofPairs (f.parameters.zip values))
    (h.block hinner f.body .none)) fun flow => .pure flow.value
  have hrest := h.bind (h.compares_checkDepth name values.length) fun _ => hbody
  exact .ite (h.bind (.fail _) fun _ => hrest) hrest

/-- One case for each kind of node. -/
theorem step {rounds rounds' : Nat} (hrounds : C.Allows rounds rounds') (node : Node) :
    C.Compares (Machine.step limit inner rounds node)
      (Machine.step limit' inner' rounds' node) := by
  cases node with
  | number x => exact .pure _
  | string s => exact .pure _
  | identifier name => exact h.bind (h.lookup name) fun _ => .pure _
  | binary op left right =>
    exact h.bind (h.evaluate hinner left) fun l => h.bind (h.evaluate hinner right) fun r =>
      h.bind (.lift (op.apply l r)) fun _ => .pure _
  | unary op operand =>
    exact h.bind (h.evaluate hinner operand) fun v => h.bind (.lift (op.apply v)) fun _ => .pure _
  | assign name value =>
    exact h.bind (h.evaluate hinner value) fun v => h.bind (h.compares_assign name v) fun _ =>
      .pure _
  | call name arguments => exact h.bind (h.call hinner name arguments) fun _ => .pure _
  | define name parameters body =>
    exact h.bind (h.compares_newFunction _) fun v => h.bind (h.compares_assign name v) fun _ =>
      .pure _
  | branch condition thenBody elseBody =>
    refine h.bind (h.evaluate hinner condition) fun _ => .ite (h.block hinner thenBody _) ?_
    cases elseBody with
    | none => exact .pure _
    | some body => exact h.block hinner body _
  | loop condition body =>
    exact h.repeatWhile (h.map (h.evaluate hinner condition) _) (h.block hinner body _) rounds
      rounds' hrounds _
  | ret value =>
    cases value with
    | none => exact .pure _
    | some value => exact h.bind (h.evaluate hinner value) fun _ => .pure _
  | print value =>
    exact h.bind (h.evaluate hinner value) fun v => h.bind (h.compares_printLine v.shown) fun _ =>
      .pure _

end Inner

/-! ### Whole runs -/

theorem execute_of_allows (fuel : Nat) : ∀ fuel', C.Allows fuel fuel' → ∀ node,
    C.Compares (StackScript.execute limit fuel node) (StackScript.execute limit' fuel' node) := by
  induction fuel with
  | zero =>
    intro fuel' hfuel node
    refine hfuel.zero (fun h => by rw [h]; rfl) ?_
    exact discipline_advances.execute limit' fuel' node
  | succ fuel ih =>
    intro fuel' hfuel node
    obtain ⟨fuel', rfl, hless⟩ := hfuel.exists_succ
    exact h.step (ih fuel' hless) hless node

theorem execute (fuel : Nat) (node : Node) : C.Compares (StackScript.execute limit fuel node)
    (StackScript.execute limit' fuel node) :=
  h.execute_of_allows fuel fuel (.inl rfl) node

theorem interpret (fuel : Nat) (program : Program) :
    C.Compares (StackScript.interpret limit fuel program)
      (StackScript.interpret limit' fuel program) :=
  h.map (h.block (h.execute fuel) program .none) _

end Lockstep

end Comparison

end StackScript
