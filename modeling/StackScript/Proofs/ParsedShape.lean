import StackScript.Proofs.Grammar

/-!
The shape of what the parser returns.

There are more trees than programs: a loop could stand where a value is needed. The parser builds no
such tree, whatever tokens it is given. Values, conditions, arguments and operands are expressions,
and bodies hold statements.

* `Answers`: what a production answers, if it answers, has a property;
* `answers_expression`, `answers_statement`: expressions and statements;
* `areStatements_of_parse`: programs.
-/

namespace StackScript

namespace Parser

/-- Whatever a production answers has a property. -/
def Answers {α : Type} (x : Production α) (P : α → Prop) : Prop :=
  ∀ ts a rest, x ts = .ok (a, rest) → P a

namespace Answers

variable {α β : Type} {x : Production α} {P Q : α → Prop} {R : β → Prop}

theorem trivial (x : Production α) : Answers x fun _ => True :=
  fun _ _ _ _ => True.intro

theorem pure {a : α} (h : P a) : Answers (Pure.pure a : Production α) P := by
  intro ts b rest hb
  injection hb with hb
  injection hb with hb _
  exact hb ▸ h

theorem bind {f : α → Production β} (hx : Answers x P) (hf : ∀ a, P a → Answers (f a) R) :
    Answers (x >>= f) R := by
  intro ts b rest hb
  replace hb : (x ts >>= fun r => f r.1 r.2) = .ok (b, rest) := hb
  cases hr : x ts with
  | error e =>
    rw [hr] at hb
    exact nomatch hb
  | ok r =>
    rw [hr] at hb
    exact hf r.1 (hx ts r.1 r.2 hr) r.2 b rest hb

/-- What comes first is not looked at. -/
theorem after {f : α → Production β} (hf : ∀ a, Answers (f a) R) : Answers (x >>= f) R :=
  (trivial x).bind fun a _ => hf a

theorem map {f : α → β} (hx : Answers x P) (hf : ∀ a, P a → R (f a)) : Answers (f <$> x) R :=
  hx.bind fun a ha => pure (hf a ha)

theorem ite {c : Prop} [Decidable c] {y : Production α} (hx : Answers x P) (hy : Answers y P) :
    Answers (if c then x else y) P := by
  by_cases hc : c
  · rwa [if_pos hc]
  · rwa [if_neg hc]

theorem unexpected (e : Expected) : Answers (Parser.unexpected e : Production α) P :=
  fun _ _ _ h => nomatch h

theorem throw (e : SyntaxError) : Answers (MonadExcept.throw e : Production α) P :=
  fun _ _ _ h => nomatch h

theorem manyUntil {close : TokenKind} {item : Production α} (h : Answers item P) (bound : Nat) :
    Answers (Parser.manyUntil close item bound) fun as => ∀ a ∈ as, P a := by
  induction bound with
  | zero => exact unexpected _
  | succ bound ih =>
    refine after fun kind => ite (pure (List.forall_mem_nil _)) ?_
    exact h.bind fun a ha => ih.bind fun as has => pure (List.forall_mem_cons.mpr ⟨ha, has⟩)

end Answers

/-! ### Expressions -/

/-- A node that is an expression. -/
abbrev IsExpression (node : Node) : Prop := node.isExpression = true

section Expressions

variable {inner operand : Production Node}

theorem answers_chainFrom {op? : TokenKind → Option BinaryOp} (h : Answers operand IsExpression)
    (bound : Nat) : ∀ {left : Node}, IsExpression left →
      Answers (chainFrom op? operand bound left) IsExpression := by
  induction bound with
  | zero => exact fun hleft => .pure hleft
  | succ bound ih =>
    intro left hleft
    refine .after fun kind => ?_
    cases op? kind with
    | none => exact .pure hleft
    | some op =>
      refine .after fun _ => h.bind fun right hright => ih ?_
      rw [IsExpression, Node.isExpression, hleft, hright]
      rfl

theorem answers_chain (bound : Nat) (op? : TokenKind → Option BinaryOp)
    (h : Answers operand IsExpression) : Answers (chain bound op? operand) IsExpression :=
  h.bind fun _ hleft => answers_chainFrom h bound hleft

/-- The induction is on the signs, which are tokens at the front of the input. -/
theorem answers_signed (h : Answers operand IsExpression) :
    Answers (signed operand) IsExpression := by
  intro ts
  induction ts with
  | nil => exact h []
  | cons t ts ih =>
    intro e rest he
    rw [signed] at he
    split at he
    · next op _ =>
      cases hr : signed operand ts with
      | error err =>
        rw [hr] at he
        exact nomatch he
      | ok r =>
        rw [hr] at he
        injection he with he
        injection he with he _
        subst he
        exact ih r.1 r.2 hr
    · exact h (t :: ts) e rest he

theorem answers_argument (h : Answers inner IsExpression) :
    Answers (argument inner) IsExpression :=
  h.bind fun _ he => .after fun _ => .pure he

theorem answers_primary (bound : Nat) (h : Answers inner IsExpression) :
    Answers (primary bound inner) IsExpression := by
  refine .after fun kind => ?_
  split
  · refine .after fun t => ?_
    split
    · exact .pure rfl
    · exact .throw _
  · exact .after fun t => .pure rfl
  · refine .after fun t => .after fun kind => .ite ?_ (.pure rfl)
    refine .after fun _ => ((answers_argument h).manyUntil bound).bind fun arguments hall => ?_
    exact .after fun _ => .pure ((areExpressions_iff arguments).mpr hall)
  · exact .after fun _ => h.bind fun e he => .after fun _ => .pure he
  · exact .unexpected _

/-- What is read as an expression is one. -/
theorem answers_expression (bound depth : Nat) :
    Answers (expression bound depth) IsExpression := by
  induction depth with
  | zero => exact .unexpected _
  | succ depth ih =>
    -- three levels of operators, and signs in front of what is inside them
    have hsigned := answers_signed (answers_primary bound ih)
    exact answers_chain bound _ (answers_chain bound _ (answers_chain bound _ hsigned))

end Expressions

/-! ### Statements -/

/-- A node that is a statement. -/
abbrev IsStatement (node : Node) : Prop := node.isStatement = true

/-- An expression can stand as a statement. -/
theorem isStatement_of_isExpression {node : Node} (h : IsExpression node) : IsStatement node := by
  cases node with
  | number x => rfl
  | string s => rfl
  | identifier name => rfl
  | binary op left right => exact h
  | unary op operand => exact h
  | call name arguments => exact h
  | _ => exact nomatch h

section Statements

variable {bound : Nat} {value inner : Production Node}

theorem answers_line (h : Answers inner IsStatement) : Answers (line inner) IsStatement :=
  h.bind fun _ hs => .after fun _ => .pure hs

theorem answers_block (h : Answers inner IsStatement) :
    Answers (block bound inner) fun body => areStatements body = true := by
  refine .after fun _ => .after fun _ => ?_
  refine ((answers_line h).manyUntil bound).bind fun body hbody => ?_
  exact .after fun _ => .pure ((areStatements_iff body).mpr hbody)

theorem answers_definition (h : Answers inner IsStatement) :
    Answers (definition bound inner) IsStatement :=
  .after fun _ => .after fun _ => .after fun _ => .after fun _ =>
    (answers_block h).bind fun _ hbody => .pure hbody

variable (hvalue : Answers value IsExpression)

include hvalue

theorem answers_condition : Answers (condition value) IsExpression :=
  .after fun _ => hvalue.bind fun _ he => .after fun _ => .pure he

theorem answers_assignment : Answers (assignment value) IsStatement :=
  .after fun _ => .after fun _ => .after fun _ => hvalue.bind fun _ he =>
    .after fun _ => .pure he

theorem answers_bare : Answers (bare value) IsStatement :=
  hvalue.bind fun _ he => .after fun _ => .pure (isStatement_of_isExpression he)

theorem answers_print : Answers (print value) IsStatement :=
  (answers_condition hvalue).bind fun _ he => .after fun _ => .pure he

theorem answers_ret : Answers (ret value) IsStatement := by
  -- a return has no value, or one that is an expression
  have hend : ∀ {result : Production (Option Node)},
      Answers result (fun r => IsStatement (.ret r)) →
      Answers (do let r ← result; skip .semicolon; return Node.ret r) IsStatement :=
    fun h => h.bind fun _ hr => .after fun _ => .pure hr
  exact .after fun kind => .ite (hend (.pure rfl)) (hend (hvalue.map fun _ he => he))

theorem answers_loop (h : Answers inner IsStatement) :
    Answers (loop bound value inner) IsStatement := by
  refine (answers_condition hvalue).bind fun test htest => ?_
  refine (answers_block h).bind fun body hbody => .pure ?_
  exact Bool.and_eq_true_iff.mpr ⟨htest, hbody⟩

theorem answers_branch (h : Answers inner IsStatement) :
    Answers (branch bound value inner) IsStatement := by
  refine (answers_condition hvalue).bind fun test htest => ?_
  refine (answers_block h).bind fun thenBody hthen => .after fun kind => ?_
  have hfirst := Bool.and_eq_true_iff.mpr ⟨htest, hthen⟩
  refine .ite (.after fun _ => (answers_block h).bind fun elseBody helse => .pure ?_) (.pure hfirst)
  exact Bool.and_eq_true_iff.mpr ⟨hfirst, helse⟩

theorem answers_statementOver (h : Answers inner IsStatement) :
    Answers (statementOver bound value inner) IsStatement := by
  refine .after fun _ => .after fun kind => ?_
  split
  · exact answers_assignment hvalue
  · exact .after fun _ => answers_definition h
  · exact .after fun _ => answers_branch hvalue h
  · exact .after fun _ => answers_loop hvalue h
  · exact .after fun _ => answers_ret hvalue
  · exact .after fun _ => answers_print hvalue
  · exact .after fun kind => .ite (answers_assignment hvalue) (answers_bare hvalue)
  · exact answers_bare hvalue

end Statements

/-- What is read as a statement is one. -/
theorem answers_statement (bound depth : Nat) : Answers (statement bound depth) IsStatement := by
  induction depth with
  | zero => exact .unexpected _
  | succ depth ih => exact answers_statementOver (answers_expression bound bound) ih

theorem answers_program (bound : Nat) :
    Answers (program bound) fun p => areStatements p = true := by
  intro ts p rest hp
  have hall : Answers (program bound) fun p => ∀ s ∈ p, IsStatement s :=
    .after fun _ => (answers_line (answers_statement bound bound)).manyUntil bound
  exact (areStatements_iff p).mpr (hall ts p rest hp)

end Parser

/-- What tokens are read as is what the production for programs answers. -/
theorem exists_program_of_parse {ts : List Token} {program : Program}
    (h : parse ts = .ok program) :
    ∃ rest, Parser.program ((Parser.closed ts).length + 1) (Parser.closed ts)
      = .ok (program, rest) := by
  replace h : Except.map _ (Parser.program ((Parser.closed ts).length + 1) (Parser.closed ts))
    = .ok program := h
  cases hr : Parser.program ((Parser.closed ts).length + 1) (Parser.closed ts) with
  | error e =>
    rw [hr] at h
    exact nomatch h
  | ok r =>
    rw [hr] at h
    obtain rfl := Except.ok.inj h
    exact ⟨r.2, rfl⟩

/-- Whatever tokens are read as a program, its statements are statements. -/
theorem areStatements_of_parse {ts : List Token} {program : Program}
    (h : parse ts = .ok program) : areStatements program = true := by
  obtain ⟨rest, hrun⟩ := exists_program_of_parse h
  exact Parser.answers_program _ _ program rest hrun

end StackScript
