import StackScript.Proofs.Draft
import StackScript.Proofs.Grammar
import StackScript.Proofs.SeparateCompilation

/-!
The code of an expression is its postfix form.

Code is run on a stack of expressions instead of values: a load pushes its literal or its variable, an
operator puts the expressions on top of the stack together, and a call does so with its arguments.
What has been emitted for an expression then leaves the expression on the stack, whatever lies below
it and whatever else has joined the pool. So expressions with one code over one pool are the same.
The expressions are those that the parser answers, as `Parser.answers_expression` says.

* `Instruction.rebuild`, `rebuild`: one instruction, and code, on a stack of expressions;
* `Node.equals`, `equalAll`: expressions that are the same up to equal numbers;
* `rebuild_settle`: the code of an expression leaves it on the stack, over any pool that its own has
  grown to;
* `prefix_emitAll`: the pool of a compilation grows only at its end;
* `emit_rebuilds`: what holds of the code that is emitted for an expression.
-/

namespace StackScript

/-! ### Code on a stack of expressions -/

/-- The literal expression of a constant. -/
def Constant.node? : Constant → Option Node
  | number x => some (.number x)
  | string s => some (.string s)
  | none => Option.none

/-- An instruction on a stack of expressions, the last one first. There is no result for instructions
that no expression is compiled to, and none if the stack or the pool has too little. -/
def Instruction.rebuild (pool : ConstantPool) : Instruction → List Node → Option (List Node)
  | loadConst index, stack => (pool[index]?.bind Constant.node?).map (· :: stack)
  | loadVar name, stack => some (.identifier name :: stack)
  | binary op, right :: left :: stack => some (.binary op left right :: stack)
  | unary op, operand :: stack => some (.unary op operand :: stack)
  | call name arity, stack =>
    if arity ≤ stack.length then some (.call name (stack.take arity).reverse :: stack.drop arity)
    else none
  | _, _ => none

/-- Code on a stack of expressions. -/
def rebuild (pool : ConstantPool) (code : List Instruction) (stack : List Node) :
    Option (List Node) :=
  code.foldlM (fun stack i => i.rebuild pool stack) stack

theorem rebuild_append (pool : ConstantPool) (xs ys : List Instruction) (stack : List Node) :
    rebuild pool (xs ++ ys) stack = (rebuild pool xs stack).bind (rebuild pool ys) := by
  rw [rebuild, List.foldlM_append]
  rfl

theorem rebuild_singleton (pool : ConstantPool) (i : Instruction) (stack : List Node) :
    rebuild pool [i] stack = i.rebuild pool stack := by
  rw [rebuild, List.foldlM_cons]
  cases i.rebuild pool stack <;> rfl

/-- Code with a result on a stack of expressions has no jump. -/
theorem isJump_of_rebuild {pool : ConstantPool} {code : List Instruction} :
    ∀ {stack result : List Node}, rebuild pool code stack = some result →
      ∀ i ∈ code, i.isJump = false := by
  induction code with
  | nil => exact fun _ => List.forall_mem_nil _
  | cons i code ih =>
    intro stack result h
    rw [rebuild, List.foldlM_cons] at h
    obtain ⟨next, hi, hrest⟩ := Option.bind_eq_some_iff.mp h
    refine List.forall_mem_cons.mpr ⟨?_, ih hrest⟩
    cases i with
    | jump target => cases hi
    | jumpIfFalse target => cases hi
    | _ => rfl

/-! ### Expressions up to equal numbers -/

mutual

/-- The expressions are the same, where numbers are compared as floating-point numbers are. -/
def Node.equals : Node → Node → Bool
  | .number x, .number y => x == y
  | .string s, .string t => s = t
  | .identifier m, .identifier n => m = n
  | .binary op left right, .binary op' left' right' =>
    op = op' && left.equals left' && right.equals right'
  | .unary op operand, .unary op' operand' => op = op' && operand.equals operand'
  | .call f arguments, .call g arguments' => f = g && equalAll arguments arguments'
  | _, _ => false

/-- The expressions in two lists are the same, one by one. -/
def equalAll : List Node → List Node → Bool
  | [], [] => true
  | e :: es, e' :: es' => e.equals e' && equalAll es es'
  | _, _ => false

end

mutual

/-- Expressions that are the same as a third one are the same. -/
theorem equals_of_equals : ∀ {a b c : Node}, a.equals c = true → b.equals c = true →
    a.equals b = true
  | .number x, b, c, ha, hb => by
    cases c <;> simp only [Node.equals, Bool.false_eq_true] at ha
    cases b <;> simp only [Node.equals, Bool.false_eq_true] at hb ⊢
    exact float_beq_trans ha (float_beq_symm hb)
  | .string s, b, c, ha, hb => by
    cases c <;> simp only [Node.equals, Bool.false_eq_true] at ha
    cases b <;> simp only [Node.equals, Bool.false_eq_true] at hb ⊢
    simp_all
  | .identifier m, b, c, ha, hb => by
    cases c <;> simp only [Node.equals, Bool.false_eq_true] at ha
    cases b <;> simp only [Node.equals, Bool.false_eq_true] at hb ⊢
    simp_all
  | .binary op left right, b, c, ha, hb => by
    cases c <;> simp only [Node.equals, Bool.false_eq_true] at ha
    cases b <;> simp only [Node.equals, Bool.false_eq_true] at hb ⊢
    simp only [Bool.and_eq_true, decide_eq_true_eq] at ha hb ⊢
    obtain ⟨⟨rfl, hl⟩, hr⟩ := ha
    obtain ⟨⟨rfl, hl'⟩, hr'⟩ := hb
    exact ⟨⟨rfl, equals_of_equals hl hl'⟩, equals_of_equals hr hr'⟩
  | .unary op operand, b, c, ha, hb => by
    cases c <;> simp only [Node.equals, Bool.false_eq_true] at ha
    cases b <;> simp only [Node.equals, Bool.false_eq_true] at hb ⊢
    simp only [Bool.and_eq_true, decide_eq_true_eq] at ha hb ⊢
    obtain ⟨rfl, ho⟩ := ha
    obtain ⟨rfl, ho'⟩ := hb
    exact ⟨rfl, equals_of_equals ho ho'⟩
  | .call f arguments, b, c, ha, hb => by
    cases c <;> simp only [Node.equals, Bool.false_eq_true] at ha
    cases b <;> simp only [Node.equals, Bool.false_eq_true] at hb ⊢
    simp only [Bool.and_eq_true, decide_eq_true_eq] at ha hb ⊢
    obtain ⟨rfl, hs⟩ := ha
    obtain ⟨rfl, hs'⟩ := hb
    exact ⟨rfl, equalAll_of_equalAll hs hs'⟩

theorem equalAll_of_equalAll : ∀ {as bs cs : List Node}, equalAll as cs = true →
    equalAll bs cs = true → equalAll as bs = true
  | [], bs, cs, ha, hb => by
    cases cs <;> simp only [equalAll, Bool.false_eq_true] at ha
    cases bs <;> simp only [equalAll, Bool.false_eq_true] at hb ⊢
  | a :: as, bs, cs, ha, hb => by
    cases cs <;> simp only [equalAll, Bool.false_eq_true] at ha
    cases bs <;> simp only [equalAll, Bool.false_eq_true] at hb ⊢
    rw [Bool.and_eq_true] at ha hb ⊢
    exact ⟨equals_of_equals ha.1 hb.1, equalAll_of_equalAll ha.2 hb.2⟩

end

theorem length_of_equalAll : ∀ {es es' : List Node}, equalAll es es' = true → es.length = es'.length
  | [], [], _ => rfl
  | e :: es, e' :: es', h => by
    rw [equalAll, Bool.and_eq_true] at h
    rw [List.length_cons, List.length_cons, length_of_equalAll h.2]

/-! ### The code of an expression -/

section Settled

variable {own pool : ConstantPool}

/-- Equal constants have the same literal expression. -/
theorem node?_of_equals {c d : Constant} {e : Node} (h : d.equals c = true) (he : c.node? = some e) :
    ∃ e', d.node? = some e' ∧ e.equals e' = true := by
  cases c with
  | number x =>
    obtain rfl := Option.some.inj he
    cases d <;> simp only [Constant.equals, Bool.false_eq_true] at h
    exact ⟨_, rfl, float_beq_symm h⟩
  | string s =>
    obtain rfl := Option.some.inj he
    cases d <;> simp only [Constant.equals, Bool.false_eq_true] at h
    exact ⟨_, rfl, by simpa [Node.equals, eq_comm] using h⟩
  | none => cases he

/-- The load of a literal pushes it, also when other constants have joined the pool since. -/
theorem rebuild_literal {c : Constant} {e : Node} (hc : ¬c.IsNaN) (he : c.node? = some e)
    (hpool : (settle own [.literal c]).2 <+: pool) (stack : List Node) :
    ∃ e', rebuild pool (settle own [.literal c]).1 stack = some (e' :: stack) ∧
      e.equals e' = true := by
  obtain ⟨d, hd, halike⟩ := (ConstantPool.holds_place own c).mono hpool
  have hequals : d.equals c = true := halike.equals (.refl c) hc
  obtain ⟨e', he', hsame⟩ := node?_of_equals hequals he
  refine ⟨e', ?_, hsame⟩
  show rebuild pool [.loadConst (own.place c).1] stack = _
  rw [rebuild_singleton, Instruction.rebuild, hd, Option.bind_some, he']
  rfl

theorem rebuild_call (pool : ConstantPool) (name : String) (arguments stack : List Node) :
    (Instruction.call name arguments.length).rebuild pool (arguments.reverse ++ stack)
      = some (.call name arguments :: stack) := by
  simp [Instruction.rebuild]

/-- One more instruction behind code whose result is known. -/
theorem rebuild_snoc {ds : List Draft} {i : Instruction} {stack middle result : List Node}
    (h : rebuild pool (settle own ds).1 stack = some middle) (hi : i.rebuild pool middle = some result) :
    rebuild pool (settle own (ds ++ [.plain i])).1 stack = some result := by
  rw [settle_append, rebuild_append, h, Option.bind_some]
  show rebuild pool [i] middle = some result
  rw [rebuild_singleton, hi]

mutual

/-- The code of an expression leaves the expression on the stack, over every pool that its own
has grown to. -/
theorem rebuild_settle (base : Nat) : ∀ (e : Node) (own : ConstantPool), e.isExpression = true →
    (∀ x ∈ e.numbers, x.isNaN = false) → (settle own (draft base e)).2 <+: pool → ∀ stack,
      ∃ e', rebuild pool (settle own (draft base e)).1 stack = some (e' :: stack) ∧
        e.equals e' = true
  | .number x, own, _, hnan, hpool => by
    have hx : ¬(Constant.number x).IsNaN :=
      Bool.eq_false_iff.mp (hnan x (List.mem_singleton_self x))
    exact rebuild_literal hx rfl hpool
  | .string s, own, _, _, hpool => rebuild_literal id rfl hpool
  | .identifier name, own, _, _, _ => fun stack => ⟨.identifier name, rfl, by simp [Node.equals]⟩
  | .binary op left right, own, h, hnan, hpool => by
    intro stack
    rw [Node.isExpression, Bool.and_eq_true] at h
    obtain ⟨hnanl, hnanr⟩ := List.forall_mem_append.mp
      (show ∀ x ∈ left.numbers ++ right.numbers, x.isNaN = false from hnan)
    rw [draft, settle_append, settle_append] at hpool
    obtain ⟨left', hl, hleft⟩ := rebuild_settle base left own h.1 hnanl
      ((prefix_settle _ _).trans hpool) stack
    obtain ⟨right', hr, hright⟩ := rebuild_settle _ right _ h.2 hnanr hpool (left' :: stack)
    have hboth : rebuild pool
        (settle own (draft base left ++ draft (base + (draft base left).length) right)).1 stack
          = some (right' :: left' :: stack) := by
      rw [settle_append, rebuild_append, hl, Option.bind_some, hr]
    exact ⟨.binary op left' right', rebuild_snoc hboth rfl, by simp [Node.equals, hleft, hright]⟩
  | .unary op operand, own, h, hnan, hpool => by
    intro stack
    rw [draft, settle_append] at hpool
    obtain ⟨operand', ho, hoperand⟩ := rebuild_settle base operand own h hnan hpool stack
    exact ⟨.unary op operand', rebuild_snoc ho rfl, by simp [Node.equals, hoperand]⟩
  | .call name arguments, own, h, hnan, hpool => by
    intro stack
    rw [draft, settle_append] at hpool
    obtain ⟨arguments', ha, harguments⟩ := rebuildAll_settle base arguments own h hnan hpool stack
    have hcall := rebuild_call pool name arguments' stack
    rw [← length_of_equalAll harguments] at hcall
    exact ⟨.call name arguments', rebuild_snoc ha hcall, by simp [Node.equals, harguments]⟩

/-- The code of arguments leaves them on the stack, the last one first. -/
theorem rebuildAll_settle (base : Nat) : ∀ (es : List Node) (own : ConstantPool),
    areExpressions es = true → (∀ x ∈ numbersAll es, x.isNaN = false) →
    (settle own (draftAll base es)).2 <+: pool → ∀ stack,
      ∃ es', rebuild pool (settle own (draftAll base es)).1 stack = some (es'.reverse ++ stack) ∧
        equalAll es es' = true
  | [], own, _, _, _ => fun stack => ⟨[], rfl, rfl⟩
  | e :: es, own, h, hnan, hpool => by
    intro stack
    rw [areExpressions, Bool.and_eq_true] at h
    rw [numbersAll, List.forall_mem_append] at hnan
    rw [draftAll, settle_append] at hpool ⊢
    obtain ⟨e', he, hsame⟩ := rebuild_settle base e own h.1 hnan.1
      ((prefix_settle _ _).trans hpool) stack
    obtain ⟨es', hes, hsames⟩ := rebuildAll_settle _ es _ h.2 hnan.2 hpool (e' :: stack)
    refine ⟨e' :: es', ?_, by simp [equalAll, hsame, hsames]⟩
    rw [rebuild_append, he, Option.bind_some, hes, List.reverse_cons, List.append_assoc]
    rfl

end

end Settled

/-! ### Emission -/

/-- What is emitted moves nothing in the pool. -/
theorem prefix_emitAll (base : Nat) (nodes : List Node) (s : Emission) :
    s.constants <+: (emitAll base nodes s).2.constants := by
  obtain ⟨hoisted, hemit⟩ := emitsAll_draftAll base nodes s
  rw [hemit]
  exact prefix_settle _ _

theorem rebuild_emit {e : Node} (he : e.isExpression = true) (hnan : ∀ x ∈ e.numbers, x.isNaN = false)
    (base : Nat) (s : Emission) {pool : ConstantPool}
    (hpool : (emit base e s).2.constants <+: pool) (stack : List Node) :
    ∃ e', rebuild pool (emit base e s).1 stack = some (e' :: stack) ∧ e.equals e' = true := by
  obtain ⟨hoisted, hemit⟩ := emits_draft base e s
  rw [hemit] at hpool ⊢
  exact rebuild_settle base e s.constants he hnan hpool stack

/-- The code that is emitted for an expression, into any state of a compilation, has no jump, and over
every pool that its own has grown to it puts the expression on any stack. So an expression that has
the same code over such a pool is the same one. -/
theorem emit_rebuilds {e : Node} (he : e.isExpression = true)
    (hnan : ∀ x ∈ e.numbers, x.isNaN = false) (base : Nat) (s : Emission) :
    (∀ i ∈ (emit base e s).1, i.isJump = false) ∧
      ∀ pool, (emit base e s).2.constants <+: pool →
        (∀ stack, ∃ e', rebuild pool (emit base e s).1 stack = some (e' :: stack) ∧
          e.equals e' = true) ∧
        ∀ (f : Node) (base' : Nat) (s' : Emission), f.isExpression = true →
          (∀ x ∈ f.numbers, x.isNaN = false) → (emit base' f s').2.constants <+: pool →
            (emit base' f s').1 = (emit base e s).1 → e.equals f = true := by
  constructor
  · obtain ⟨e', hresult, -⟩ := rebuild_emit he hnan base s List.prefix_rfl []
    exact isJump_of_rebuild hresult
  · intro pool hpool
    refine ⟨rebuild_emit he hnan base s hpool, ?_⟩
    intro f base' s' hf hnanf hpool' hcode
    obtain ⟨e', hresult, hsame⟩ := rebuild_emit he hnan base s hpool []
    obtain ⟨f', hresult', hsame'⟩ := rebuild_emit hf hnanf base' s' hpool' []
    -- one code has one result
    rw [hcode, hresult, Option.some_inj, List.cons.injEq] at hresult'
    obtain ⟨rfl, -⟩ := hresult'
    exact equals_of_equals hsame hsame'

/-- A call between other statements, with literals that come before it and again behind it. -/
theorem emit_rebuilds_of_call :
    let e : Node := .call "f" [.number 1, .binary .sub (.identifier "x") (.number 1),
      .unary .minus (.string "a")]
    let s := (emit 0 (.print (.string "a")) {}).2
    let pool := (emitAll 9 [.assign "y" (.number 2), .print (.number 1)] (emit 2 e s).2).2.constants
    e.isExpression = true ∧ (∀ x ∈ e.numbers, x.isNaN = false) ∧
      (emit 2 e s).2.constants <+: pool ∧
      ∃ e', rebuild pool (emit 2 e s).1 [.identifier "z"] = some [e', .identifier "z"] ∧
        e.equals e' = true := by
  intro e s pool
  have he : e.isExpression = true := rfl
  have hnan : ∀ x ∈ e.numbers, x.isNaN = false := by decide
  have hpool : (emit 2 e s).2.constants <+: pool := prefix_emitAll 9 _ _
  exact ⟨he, hnan, hpool, ((emit_rebuilds he hnan 2 s).2 pool hpool).1 _⟩

end StackScript
