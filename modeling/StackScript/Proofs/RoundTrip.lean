import Mathlib.Data.Nat.Init
import StackScript.Proofs.Reading

/-!
The parser reads back what is written.

An expression is written with parentheses only where a part binds weaker than its place asks for.
The productions for the levels of operators take exactly such parts: the one for a level reads every
expression that binds at least as strongly, and leaves alone an operator that binds weaker.

* `operator?`, `levelProduction`: the levels of the grammar by number;
* `Stops`: the tokens at which the production for a level ends;
* `Chains`: a chain of operators of one level that has been read up to a node;
* `reads_level`, `reads_expression`: expressions;
* `reads_statement`: statements;
* `parse_programWords`: programs.
-/

namespace StackScript

namespace Parser

/-! ### Levels -/

/-- The operator of a level that a token stands for. -/
def operator? : (level : Nat) → TokenKind → Option BinaryOp
  | 0 => comparison?
  | 1 => additive?
  | 2 => multiplicative?
  | _ => fun _ => none

/-- The production for the nodes that bind at least as strongly as the level says. -/
def levelProduction (bound : Nat) (inner : Production Node) : (level : Nat) → Production Node
  | 0 => expressionOver bound inner
  | 1 => chain bound additive? (chain bound multiplicative? (signed (primary bound inner)))
  | 2 => chain bound multiplicative? (signed (primary bound inner))
  | 3 => signed (primary bound inner)
  | _ => primary bound inner

theorem levelProduction_chain (bound : Nat) (inner : Production Node) {level : Nat}
    (h : level < 3) :
    levelProduction bound inner level
      = chain bound (operator? level) (levelProduction bound inner (level + 1)) := by
  match level with
  | 0 => rfl
  | 1 => rfl
  | 2 => rfl

theorem operator?_kind (op : BinaryOp) : operator? op.level op.kind = some op := by
  cases op <;> rfl

theorem operator?_kind_of_ne {op : BinaryOp} {level : Nat} (h : level ≠ op.level) :
    operator? level op.kind = none := by
  match level with
  | 0 => cases op <;> first | rfl | exact absurd rfl h
  | 1 => cases op <;> first | rfl | exact absurd rfl h
  | 2 => cases op <;> first | rfl | exact absurd rfl h
  | _ + 3 => rfl

theorem level_lt (op : BinaryOp) : op.level < 3 := by
  cases op <;> decide

/-- The production for a level ends before such a token. -/
def Stops (level : Nat) (kind : TokenKind) : Prop :=
  kind ≠ .leftParen ∧ ∀ m, level ≤ m → operator? m kind = none

theorem Stops.mono {level level' : Nat} {kind : TokenKind} (h : Stops level kind)
    (hl : level ≤ level') : Stops level' kind :=
  ⟨h.1, fun m hm => h.2 m (Nat.le_trans hl hm)⟩

/-- An operator ends all that binds stronger than it. -/
theorem stops_kind (op : BinaryOp) : Stops (op.level + 1) op.kind :=
  ⟨by cases op <;> exact nofun, fun _ hm => operator?_kind_of_ne (Nat.ne_of_gt hm)⟩

/-- What ends every expression. -/
theorem stops_zero {kind : TokenKind} (hw : kind ≠ .leftParen) (h₀ : comparison? kind = none)
    (h₁ : additive? kind = none) (h₂ : multiplicative? kind = none) : Stops 0 kind :=
  ⟨hw, fun
    | 0, _ => h₀
    | 1, _ => h₁
    | 2, _ => h₂
    | _ + 3, _ => rfl⟩

/-! ### Operators of one level -/

theorem chainFrom_succ (op? : TokenKind → Option BinaryOp) (operand : Production Node) (bound : Nat)
    (left : Node) (ts : List Token) : chainFrom op? operand (bound + 1) left ts
      = (match op? (next ts).kind with
        | none => pure left
        | some op => do
          discard advance
          let right ← operand
          chainFrom op? operand bound (.binary op left right) : Production Node) ts := rfl

/-- An operator and its right operand. -/
theorem chainFrom_cons {op? : TokenKind → Option BinaryOp} {operand : Production Node} {bound : Nat}
    {op : BinaryOp} {left right : Node} {t : Token} {ts rest : List Token}
    (hop : op? t.kind = some op) (hright : operand ts = .ok (right, rest)) :
    chainFrom op? operand (bound + 1) left (t :: ts)
      = chainFrom op? operand bound (.binary op left right) rest := by
  have hnext : op? (next (t :: ts)).kind = some op := hop
  rw [chainFrom_succ, hnext]
  show (operand ts >>= fun r => chainFrom op? operand bound (.binary op left r.1) r.2) = _
  rw [hright]
  rfl

/-- No operator of the level stands next. -/
theorem chainFrom_of_none {op? : TokenKind → Option BinaryOp} {operand : Production Node}
    (bound : Nat) (left : Node) {ts : List Token} (hop : op? (next ts).kind = none) :
    chainFrom op? operand bound left ts = .ok (left, ts) := by
  cases bound with
  | zero => rfl
  | succ n =>
    rw [chainFrom_succ, hop]
    rfl

/-! ### From level to level -/

section Levels

variable {bound : Nat} {inner : Production Node} {ws : List Word} {e : Node}

/-- What a stronger level reads is read by a weaker one: no operator of that level comes behind. -/
theorem reads_chain {level : Nat} (hl : level < 3)
    (h : Reads (levelProduction bound inner (level + 1)) ws e (Stops (level + 1))) :
    Reads (levelProduction bound inner level) ws e (Stops level) := by
  rw [levelProduction_chain bound inner hl]
  refine h.bind_nil (fun kind hk => hk.mono (Nat.le_succ level)) ?_
  rintro _ rest (_ | _) hrest
  exact chainFrom_of_none _ _ (hrest.2 level (Nat.le_refl level))

theorem signed_of_none {operand : Production Node} {ts : List Token}
    (h : sign? (next ts).kind = none) : signed operand ts = operand ts := by
  cases ts with
  | nil => rfl
  | cons t ts =>
    rw [signed, show sign? t.kind = none from h]

theorem signed_of_some {operand : Production Node} {t : Token} {op : UnaryOp}
    (h : sign? t.kind = some op) (ts : List Token) :
    signed operand (t :: ts)
      = bind (m := Production) (signed operand) (fun node => Pure.pure (Node.unary op node)) ts := by
  rw [signed, h]
  show Except.map _ _ = (signed operand ts >>= fun r => Pure.pure (Node.unary op r.1, r.2))
  cases signed operand ts <;> rfl

theorem reads_signed {operand : Production Node} {w : Word} {follow : TokenKind → Prop}
    (hw : sign? w.kind = none) (h : Reads operand (w :: ws) e follow) :
    Reads (signed operand) (w :: ws) e follow := by
  rintro _ rest (_ | ⟨ht, hts⟩) hrest
  rw [List.cons_append, signed, ht.1, hw]
  exact h _ rest (.cons ht hts) hrest

theorem reads_sign {operand : Production Node} (op : UnaryOp) {follow : TokenKind → Prop}
    (h : Reads (signed operand) ws e follow) :
    Reads (signed operand) (.mark op.kind :: ws) (.unary op e) follow := by
  rintro _ rest (_ | ⟨ht, hts⟩) hrest
  have hsign : sign? op.kind = some op := by cases op <;> rfl
  rw [List.cons_append, signed, kind_of_spells_mark ht, hsign]
  simp only [h _ rest hts hrest]
  rfl

/-- What a level reads is read by all weaker ones. -/
theorem reads_weaker {level' : Nat} (h₃ : level' ≤ 3)
    (h : Reads (levelProduction bound inner level') ws e (Stops level')) :
    ∀ level ≤ level', Reads (levelProduction bound inner level) ws e (Stops level) := by
  intro level hl
  induction hl using Nat.decreasingInduction with
  | self => exact h
  | of_succ level hl ih => exact reads_chain (Nat.lt_of_lt_of_le hl h₃) ih

/-- What the strongest level reads is read by all, unless it begins with a sign. -/
theorem reads_of_primary {w : Word} (hw : sign? w.kind = none)
    (h : Reads (primary bound inner) (w :: ws) e (Stops 4)) :
    ∀ level ≤ 4, Reads (levelProduction bound inner level) (w :: ws) e (Stops level) := by
  have h₃ : Reads (levelProduction bound inner 3) (w :: ws) e (Stops 3) :=
    (reads_signed hw h).mono fun kind hk => hk.mono (by decide)
  intro level hl
  rcases Nat.lt_or_eq_of_le hl with hl | rfl
  · exact reads_weaker (Nat.le_refl 3) h₃ level (Nat.le_of_lt_succ hl)
  · exact h

/-! ### The strongest level -/

theorem reads_number (x : Float) :
    Reads (primary bound inner) [.number x] (.number x) (Stops 4) := by
  refine Reads.peek (Reads.advance fun t ht => ?_)
  have hx : readNumber? t.lexeme = some x := ht.2
  rw [hx]
  exact .pure _

theorem reads_string (s : String) :
    Reads (primary bound inner) [.text s] (.string s) (Stops 4) := by
  refine Reads.peek (Reads.advance fun t ht => ?_)
  obtain rfl : t.lexeme = s := ht.2
  exact .pure _

/-- A variable is no call: no parenthesis follows. -/
theorem reads_identifier (name : String) :
    Reads (primary bound inner) [.name name] (.identifier name) (Stops 4) := by
  refine Reads.peek (Reads.advance fun t ht => Reads.peek_nil fun kind hk => ?_)
  obtain rfl : t.lexeme = name := ht.2
  rw [if_neg hk.1]
  exact .pure _

theorem reads_call (name : String) {arguments : List Node}
    (h : Reads (manyUntil .rightParen (argument inner) bound) ws arguments (· = .rightParen)) :
    Reads (primary bound inner) (.name name :: parenthesized ws) (.call name arguments)
      (Stops 4) := by
  refine Reads.peek (Reads.advance fun t ht => Reads.peek ?_)
  obtain rfl : t.lexeme = name := ht.2
  rw [if_pos (show (Word.mark .leftParen).kind = .leftParen from rfl)]
  exact .discard (h.bind (leads_cons rfl) (.discard (.pure _)))

theorem reads_parenthesized (h : Reads inner ws e (Stops 0)) :
    Reads (primary bound inner) (parenthesized ws) e (Stops 4) := by
  refine Reads.peek (.discard (h.bind (leads_cons ?_) (.expectMark (.pure e))))
  exact stops_zero nofun rfl rfl rfl

/-! ### Chains -/

/-- Reading operators of a level comes to a node, from which it goes on with fewer of them left. -/
def Chains (bound : Nat) (inner : Production Node) (level : Nat) (ws : List Word) (e : Node) :
    Prop :=
  ∃ n ≤ ws.length, ∀ b ts rest, n ≤ b → Written ws ts → Stops (level + 1) (next rest).kind →
    (levelProduction bound inner (level + 1) >>= chainFrom (operator? level)
        (levelProduction bound inner (level + 1)) b) (ts ++ rest)
      = chainFrom (operator? level) (levelProduction bound inner (level + 1)) (b - n) e rest

/-- A chain begins with a node of a stronger level. -/
theorem chains_of_reads {level : Nat}
    (h : Reads (levelProduction bound inner (level + 1)) ws e (Stops (level + 1))) :
    Chains bound inner level ws e := by
  refine ⟨0, Nat.zero_le _, fun b ts rest _ hts hrest => ?_⟩
  show (levelProduction bound inner (level + 1) (ts ++ rest) >>= fun r =>
    chainFrom (operator? level) (levelProduction bound inner (level + 1)) b r.1 r.2) = _
  rw [h ts rest hts hrest]
  rfl

/-- One more operator and its right operand. -/
theorem chains_snoc {op : BinaryOp} {qs : List Word} {left right : Node}
    (hl : Chains bound inner op.level ws left)
    (hr : Reads (levelProduction bound inner (op.level + 1)) qs right (Stops (op.level + 1))) :
    Chains bound inner op.level (ws ++ .mark op.kind :: qs) (.binary op left right) := by
  obtain ⟨n, hn, hl⟩ := hl
  refine ⟨n + 1, by simp only [List.length_append, List.length_cons]; omega, ?_⟩
  intro b ts rest hb hts hrest
  obtain ⟨us, vs, rfl, hus, hvs⟩ := written_append hts
  obtain ⟨m, hm⟩ : ∃ m, b - n = m + 1 := ⟨b - n - 1, by omega⟩
  -- the chain comes to the left operand, and the operator does not go on with it
  rw [List.append_assoc, hl b us (vs ++ rest) (by omega) hus
    (leads_cons (stops_kind op) vs rest hvs hrest), hm, show b - (n + 1) = m by omega]
  rcases hvs with _ | ⟨ht, hws⟩
  refine chainFrom_cons ?_ (hr _ rest hws hrest)
  rw [kind_of_spells_mark ht]
  exact operator?_kind op

/-- A chain has come to its end where its level stops. -/
theorem reads_of_chains {level : Nat} (hl : level < 3) (hws : ws.length ≤ bound)
    (h : Chains bound inner level ws e) :
    Reads (levelProduction bound inner level) ws e (Stops level) := by
  obtain ⟨n, hn, h⟩ := h
  intro ts rest hts hrest
  rw [levelProduction_chain bound inner hl]
  show (levelProduction bound inner (level + 1) >>= chainFrom (operator? level)
    (levelProduction bound inner (level + 1)) bound) (ts ++ rest) = _
  rw [h bound ts rest (by omega) hts (hrest.mono (Nat.le_succ level))]
  exact chainFrom_of_none _ _ (hrest.2 level (Nat.le_refl level))

end Levels

/-! ### Lengths -/

theorem length_parenthesized (ws : List Word) : (parenthesized ws).length = ws.length + 2 := by
  simp [parenthesized]

theorem length_le_operandWords (level : Nat) (node : Node) (ws : List Word) :
    ws.length ≤ (operandWords level node ws).length := by
  unfold operandWords
  split
  · rw [length_parenthesized]
    exact Nat.le_add_right _ _
  · exact Nat.le_refl _

theorem length_le_commaSeparated {ws : List Word} : ∀ {wss : List (List Word)}, ws ∈ wss →
    ws.length ≤ (commaSeparated wss).length
  | [qs], h => by
    obtain rfl := List.mem_singleton.mp h
    exact Nat.le_of_eq (congrArg List.length List.intercalate_singleton.symm)
  | qs :: rs :: wss, h => by
    rw [commaSeparated, List.intercalate_cons_cons, List.length_append, List.length_append]
    rcases List.mem_cons.mp h with rfl | h
    · omega
    · have := length_le_commaSeparated h
      rw [commaSeparated] at this
      omega

theorem length_le_length_commaSeparated : ∀ wss : List (List Word),
    wss.length ≤ (commaSeparated wss).length + 1
  | [] => Nat.zero_le _
  | [_] => Nat.le_add_left _ _
  | qs :: rs :: wss => by
    have := length_le_length_commaSeparated (rs :: wss)
    rw [commaSeparated] at this ⊢
    rw [List.intercalate_cons_cons, List.length_append, List.length_append, List.length_cons,
      List.length_singleton]
    omega

/-! ### Expressions -/

section Expressions

variable {bound size : Nat} {inner : Production Node} {lets : Bool}

theorem reads_argument {ws : List Word} {e : Node} (h : Reads inner ws e (Stops 0)) :
    Reads (argument inner) ws e (· = .rightParen) := by
  refine h.bind_nil ?_ (Reads.skip_nil.bind_nil ?_ (.pure e))
  · rintro _ rfl
    exact stops_zero nofun rfl rfl rfl
  · rintro _ rfl
    exact nofun

theorem reads_argument_comma {ws : List Word} {e : Node} (h : Reads inner ws e (Stops 0)) :
    Reads (argument inner) (ws ++ [.mark .comma]) e fun _ => True :=
  h.bind (leads_cons (stops_zero nofun rfl rfl rfl)) (Reads.skip.bind_nil (fun _ h => h) (.pure e))

variable (hinner : ∀ e : Node, e.isExpression = true → (e.words lets).length < size →
  Reads inner (e.words lets) e (Stops 0))

include hinner

/-- An operand, with parentheses if it needs them. -/
theorem reads_operand {level : Nat} (hlevel : level ≤ 4) {e : Node} (he : e.isExpression = true)
    (hsize : (operandWords level e (e.words lets)).length ≤ size)
    (h : ∀ level ≤ e.level, Reads (levelProduction bound inner level) (e.words lets) e
      (Stops level)) :
    Reads (levelProduction bound inner level) (operandWords level e (e.words lets)) e
      (Stops level) := by
  unfold operandWords at hsize ⊢
  split at hsize
  · next hlt =>
    rw [length_parenthesized] at hsize
    rw [if_pos hlt]
    exact reads_of_primary rfl (reads_parenthesized (hinner e he (by omega))) level hlevel
  · next hlt =>
    rw [if_neg hlt]
    exact h level (Nat.le_of_not_lt hlt)

/-- A left operand begins a chain, or goes on with the one that it is. -/
theorem chains_operand {level : Nat} (hlevel : level < 3) {e : Node} (he : e.isExpression = true)
    (hsize : (operandWords level e (e.words lets)).length ≤ size)
    (h : ∀ level ≤ e.level, Reads (levelProduction bound inner level) (e.words lets) e
      (Stops level))
    (hchains : e.level < 3 → Chains bound inner e.level (e.words lets) e) :
    Chains bound inner level (operandWords level e (e.words lets)) e := by
  unfold operandWords at hsize ⊢
  split at hsize
  · next hlt =>
    rw [length_parenthesized] at hsize
    rw [if_pos hlt]
    exact chains_of_reads (reads_of_primary rfl (reads_parenthesized (hinner e he (by omega)))
      (level + 1) (by omega))
  · next hlt =>
    rw [if_neg hlt]
    -- a node of a stronger level is a first operand, one of this level has its own
    rcases Nat.lt_or_eq_of_le (Nat.le_of_not_lt hlt) with hlt | rfl
    · exact chains_of_reads (h (level + 1) hlt)
    · exact hchains hlevel

/-- The production for a level reads all expressions that bind at least as strongly, given how those
in parentheses are read. Along with that goes that a binary node is a chain of its level. -/
theorem reads_level : ∀ e : Node, e.isExpression = true → (e.words lets).length ≤ size →
    (e.words lets).length ≤ bound →
    (∀ level ≤ e.level, Reads (levelProduction bound inner level) (e.words lets) e (Stops level)) ∧
      (e.level < 3 → Chains bound inner e.level (e.words lets) e)
  | .number x, _, _, _ => ⟨reads_of_primary rfl (reads_number x), nofun⟩
  | .string s, _, _, _ => ⟨reads_of_primary rfl (reads_string s), nofun⟩
  | .identifier name, _, _, _ => ⟨reads_of_primary rfl (reads_identifier name), nofun⟩
  | .binary op left right, he, hsize, hbound => by
    rw [Node.isExpression, Bool.and_eq_true] at he
    have hbound' := hbound
    rw [Node.words, List.length_append, List.length_cons] at hsize hbound
    have hl := length_le_operandWords op.level left (left.words lets)
    have hr := length_le_operandWords (op.level + 1) right (right.words lets)
    have hleft := reads_level left he.1 (by omega) (by omega)
    have hright := reads_level right he.2 (by omega) (by omega)
    have hop := level_lt op
    -- the operator goes on with the chain that its left operand is or begins
    have hchains : Chains bound inner op.level (Node.words lets (.binary op left right))
        (.binary op left right) :=
      chains_snoc (chains_operand hinner hop he.1 (by omega) hleft.1 hleft.2)
        (reads_operand hinner (by omega) he.2 (by omega) hright.1)
    exact ⟨reads_weaker (Nat.le_of_lt hop) (reads_of_chains hop hbound' hchains), fun _ => hchains⟩
  | .unary op operand, he, hsize, hbound => by
    rw [Node.words, List.length_cons] at hsize hbound
    have ho := length_le_operandWords 3 operand (operand.words lets)
    have hoperand := reads_level operand he (by omega) (by omega)
    have hsigned : Reads (levelProduction bound inner 3)
        (Node.words lets (.unary op operand)) (.unary op operand) (Stops 3) :=
      reads_sign op (reads_operand hinner (by decide) he (by omega) hoperand.1)
    exact ⟨reads_weaker (Nat.le_refl 3) hsigned, nofun⟩
  | .call name arguments, he, hsize, hbound => by
    have harguments := (areExpressions_iff arguments).mp he
    rw [Node.words, allWords_eq_map, List.length_cons, length_parenthesized] at hsize hbound
    have hcount := length_le_length_commaSeparated (arguments.map (Node.words lets))
    rw [List.length_map] at hcount
    rw [Node.words, allWords_eq_map]
    refine ⟨reads_of_primary rfl (reads_call name
      (reads_manyUntil_commaSeparated arguments (fun a ha => ?_) (by omega))), nofun⟩
    have hlength := length_le_commaSeparated (List.mem_map_of_mem (f := Node.words lets) ha)
    have hread := hinner a (harguments a ha) (by omega)
    have hbegins := beginsExpression_words lets a (harguments a ha)
    refine ⟨reads_argument hread, reads_argument_comma hread, hbegins.mono ?_⟩
    rintro _ hk rfl
    exact nomatch hk

omit hinner in
/-- An expression is read, whatever follows that does not go on with it. -/
theorem reads_expression (depth : Nat) : ∀ e : Node, e.isExpression = true →
    (e.words lets).length < depth → (e.words lets).length ≤ bound →
    Reads (expression bound depth) (e.words lets) e (Stops 0) := by
  induction depth with
  | zero => exact fun e _ h _ => absurd h (Nat.not_lt_zero _)
  | succ depth ih =>
    intro e he hdepth hbound
    -- what stands in parentheses or between commas is shorter
    have hinner : ∀ e' : Node, e'.isExpression = true →
        (e'.words lets).length < (e.words lets).length →
        Reads (expression bound depth) (e'.words lets) e' (Stops 0) :=
      fun e' he' hlt => ih e' he' (by omega) (by omega)
    exact (reads_level hinner e he (Nat.le_refl _) hbound).1 0 (Nat.zero_le _)

end Expressions

/-! ### Lines and blocks -/

theorem parenthesized_append (ws qs : List Word) :
    parenthesized ws ++ qs = .mark .leftParen :: (ws ++ .mark .rightParen :: qs) := by
  simp [parenthesized]

theorem lineWords_cons (ws : List Word) (wss : List (List Word)) :
    lineWords (ws :: wss) = ws ++ .mark .newline :: lineWords wss := by
  simp [lineWords]

theorem length_blockWords (wss : List (List Word)) :
    (blockWords wss).length = (lineWords wss).length + 2 := by
  simp [blockWords]

theorem length_le_length_lineWords (wss : List (List Word)) :
    wss.length ≤ (lineWords wss).length := by
  induction wss with
  | nil => exact Nat.zero_le _
  | cons ws wss ih =>
    rw [lineWords_cons, List.length_append, List.length_cons, List.length_cons]
    omega

theorem length_lt_lineWords {ws : List Word} {wss : List (List Word)} (h : ws ∈ wss) :
    ws.length < (lineWords wss).length := by
  induction wss with
  | nil => exact absurd h List.not_mem_nil
  | cons qs wss ih =>
    rw [lineWords_cons, List.length_append, List.length_cons]
    rcases List.mem_cons.mp h with rfl | h
    · omega
    · have := ih h
      omega

section Statements

variable {bound size : Nat} {value inner : Production Node} {lets : Bool}

theorem reads_line {ws : List Word} {s : Node} (h : Reads inner ws s (· = .newline)) :
    Reads (line inner) (ws ++ [.mark .newline]) s (· ≠ .newline) :=
  h.bind (leads_cons rfl) (Reads.skipNewlines.bind_nil (fun _ hk => hk) (.pure s))

/-- What begins a statement ends no list of statements, and is no line feed. -/
theorem ne_of_beginsStatement {kind close : TokenKind} (hclose : close.beginsStatement = false)
    (h : kind.beginsStatement = true) : kind ≠ close := by
  rintro rfl
  rw [h] at hclose
  exact nomatch hclose

/-- Statements are not begun by a line feed, and neither is what follows them. -/
theorem leads_lineWords {nodes : List Node} (hnodes : areStatements nodes = true)
    {qs : List Word} {follow : TokenKind → Prop} (hqs : Leads qs follow (· ≠ .newline)) :
    Leads (lineWords (allWords lets nodes) ++ qs) follow (· ≠ .newline) := by
  cases nodes with
  | nil => exact hqs
  | cons s nodes =>
    rw [areStatements, Bool.and_eq_true] at hnodes
    have hbegins : Begins (· ≠ .newline) (s.words lets) :=
      (beginsStatement_words lets s hnodes.1).mono fun _ => ne_of_beginsStatement rfl
    rw [allWords, lineWords_cons, List.append_assoc]
    exact leads_of_begins (hbegins.append _)

variable (hinner : ∀ s : Node, s.isStatement = true → (s.words lets).length < size →
  Reads inner (s.words lets) s (· = .newline))

include hinner

/-- Statements up to a token that begins none. -/
theorem reads_lines (close : TokenKind) (hclose : close.beginsStatement = false)
    (hnewline : close ≠ .newline) {nodes : List Node} (hnodes : areStatements nodes = true)
    (hsize : (lineWords (allWords lets nodes)).length ≤ size)
    (hbound : (lineWords (allWords lets nodes)).length < bound) :
    Reads (manyUntil close (line inner) bound) (lineWords (allWords lets nodes)) nodes
      (· = close) := by
  rw [areStatements_iff] at hnodes
  rw [allWords_eq_map] at hsize hbound ⊢
  have hcount := length_le_length_lineWords (nodes.map (Node.words lets))
  rw [List.length_map] at hcount
  rw [lineWords, List.flatMap_map]
  refine reads_manyUntil_flatMap (· ≠ .newline) hnewline nodes (fun s hs => ?_) (by omega)
  have hlength := length_lt_lineWords (List.mem_map_of_mem (f := Node.words lets) hs)
  have hbegins := (beginsStatement_words lets s (hnodes s hs)).append [.mark .newline]
  refine ⟨reads_line (hinner s (hnodes s hs) (by omega)), hbegins.mono fun kind hk => ?_⟩
  exact ⟨ne_of_beginsStatement hclose hk, ne_of_beginsStatement rfl hk⟩

/-- A block. -/
theorem reads_block {nodes : List Node} (hnodes : areStatements nodes = true)
    (hsize : (lineWords (allWords lets nodes)).length ≤ size)
    (hbound : (lineWords (allWords lets nodes)).length < bound) (follow : TokenKind → Prop) :
    Reads (block bound inner) (blockWords (allWords lets nodes)) nodes follow := by
  have hlines : Reads (manyUntil .rightBrace (line inner) bound)
      (lineWords (allWords lets nodes)) nodes (· = .rightBrace) :=
    reads_lines hinner .rightBrace rfl nofun hnodes hsize hbound
  rw [blockWords, List.cons_append]
  refine .expectMark (Reads.skipNewlines_nil.nil_bind
    (leads_lineWords hnodes (leads_cons nofun)) ?_)
  exact hlines.bind (leads_cons rfl) (.discard (.pure nodes))

omit hinner

/-! ### Statements -/

theorem stops_newline {kind : TokenKind} (h : kind = .newline) : Stops 0 kind := by
  subst h
  exact stops_zero nofun rfl rfl rfl

/-- What stands at the front of a statement is looked at. -/
theorem reads_front {α : Type} {g : TokenKind → Production α} {w : Word} {ws : List Word} {a : α}
    {follow : TokenKind → Prop} (hw : w.kind ≠ .newline)
    (h : Reads (g w.kind) (w :: ws) a follow) :
    Reads (do skipNewlines; g (← peek)) (w :: ws) a follow :=
  Reads.skipNewlines_nil.nil_bind (leads_cons hw) (Reads.peek h)

/-- The end of a statement, where a semicolon may stand but none does. -/
theorem reads_end (s : Node) :
    Reads (do skip .semicolon; return s : Production Node) [] s (· = .newline) := by
  refine Reads.skip_nil.bind_nil ?_ (.pure s)
  rintro _ rfl
  exact nofun

section Parts

variable {ws qs : List Word} {e : Node} {body : List Node} (he : Reads value ws e (Stops 0))
  {follow : TokenKind → Prop}

include he

theorem reads_condition : Reads (condition value) (parenthesized ws) e follow :=
  .expectMark (he.bind (leads_cons (stops_zero nofun rfl rfl rfl)) (.expectMark (.pure e)))

theorem reads_assignment (name : String) :
    Reads (assignment value) (letWords lets ++ .name name :: .mark .assign :: ws) (.assign name e)
      (· = .newline) := by
  have hbinding : Reads (do
      let name ← expect .identifier
      discard (expect .assign)
      let value ← value
      skip .semicolon
      return Node.assign name.lexeme value) (.name name :: .mark .assign :: ws) (.assign name e)
      (· = .newline) := by
    refine Reads.expect (w := .name name) fun t ht => ?_
    obtain rfl : t.lexeme = name := ht.2
    exact .expectMark (he.bind_nil (fun _ => stops_newline) (reads_end _))
  cases lets with
  | false => exact Reads.skip_nil.nil_bind (leads_cons nofun) hbinding
  | true => exact Reads.skip.bind (leads_true _ _) hbinding

theorem reads_bare : Reads (bare value) ws e (· = .newline) :=
  he.bind_nil (fun _ => stops_newline) (reads_end e)

theorem reads_print : Reads (print value) (parenthesized ws) (.print e) (· = .newline) :=
  (reads_condition he).bind_nil (fun _ h => h) (reads_end _)

theorem reads_ret_some (hws : Begins (·.beginsExpression) ws) :
    Reads (ret value) ws (.ret (some e)) (· = .newline) := by
  obtain ⟨w, rest, rfl, hw⟩ := hws
  refine Reads.peek ?_
  have hends : endsReturn w.kind = false := by
    cases hk : w.kind <;> rw [hk] at hw <;> first | rfl | exact nomatch hw
  rw [hends]
  exact (he.map some).bind_nil (fun _ => stops_newline) (reads_end _)

omit he in
theorem reads_ret_none : Reads (ret value) [] (.ret none) (· = .newline) := by
  refine Reads.peek_nil fun kind hk => ?_
  subst hk
  exact (Reads.pure none).bind_nil (fun _ h => h) (reads_end _)

theorem reads_loop (hbody : Reads (block bound inner) qs body follow) :
    Reads (loop bound value inner) (parenthesized ws ++ qs) (.loop e body) follow :=
  (reads_condition he).bind (leads_true _ _) (hbody.bind_nil (fun _ h => h) (.pure _))

end Parts

theorem reads_branch_none {ws qs : List Word} {e : Node} {thenBody : List Node}
    (he : Reads value ws e (Stops 0))
    (hthen : ∀ follow, Reads (block bound inner) qs thenBody follow) :
    Reads (branch bound value inner) (parenthesized ws ++ qs) (.branch e thenBody none)
      (· = .newline) := by
  refine (reads_condition he).bind (leads_true _ _) ((hthen _).bind_nil (fun _ h => h) ?_)
  refine Reads.peek_nil fun kind hk => ?_
  subst hk
  exact .pure _

theorem reads_branch_some {ws qs rs : List Word} {e : Node} {thenBody elseBody : List Node}
    (he : Reads value ws e (Stops 0))
    (hthen : ∀ follow, Reads (block bound inner) qs thenBody follow)
    (helse : ∀ follow, Reads (block bound inner) rs elseBody follow)
    {follow : TokenKind → Prop} :
    Reads (branch bound value inner) (parenthesized ws ++ qs ++ .mark .elseWord :: rs)
      (.branch e thenBody (some elseBody)) follow := by
  rw [List.append_assoc]
  refine (reads_condition he).bind (leads_true _ _) ((hthen _).bind (leads_true _ _) ?_)
  refine Reads.peek ?_
  rw [if_pos (show (Word.mark .elseWord).kind = .elseWord from rfl)]
  exact .discard ((helse follow).bind_nil (fun _ h => h) (.pure _))

/-- A parameter, with the comma behind it or without. -/
theorem reads_parameter (name : String) :
    Reads parameter [.name name] name (· = .rightParen) ∧
      Reads parameter ([.name name] ++ [.mark .comma]) name fun _ => True := by
  constructor
  · refine Reads.expect (w := .name name) fun t ht => ?_
    obtain rfl : t.lexeme = name := ht.2
    refine Reads.skip_nil.bind_nil ?_ (.pure _)
    rintro _ rfl
    exact nofun
  · refine Reads.expect (w := .name name) fun t ht => ?_
    obtain rfl : t.lexeme = name := ht.2
    exact Reads.skip.bind_nil (fun _ h => h) (.pure _)

theorem reads_definition (name : String) (parameters : List String) {qs : List Word}
    {body : List Node} (hcount : parameters.length < bound) {follow : TokenKind → Prop}
    (hbody : Reads (block bound inner) qs body follow) :
    Reads (definition bound inner)
      (.name name :: parenthesized (commaSeparated (parameters.map fun p => [.name p])) ++ qs)
      (.define name parameters body) follow := by
  rw [List.cons_append, parenthesized_append]
  refine Reads.expect (w := .name name) fun t ht => .expectMark ?_
  obtain rfl : t.lexeme = name := ht.2
  have hparameters : Reads (manyUntil .rightParen parameter bound)
      (commaSeparated (parameters.map fun p => [.name p])) parameters (· = .rightParen) :=
    reads_manyUntil_commaSeparated parameters
      (fun w _ => ⟨(reads_parameter w).1, (reads_parameter w).2, _, _, rfl, nofun⟩) hcount
  exact hparameters.bind (leads_cons rfl) (.discard (hbody.bind_nil (fun _ h => h) (.pure _)))

variable (hvalue : ∀ e : Node, e.isExpression = true → (e.words lets).length < bound →
  Reads value (e.words lets) e (Stops 0))

include hvalue

/-- A statement that is an expression: if it begins with a name, no equality sign follows. -/
theorem reads_expressionStatement {e : Node} (he : e.isExpression = true)
    (hbound : (e.words lets).length < bound) :
    Reads (statementOver bound value inner) (e.words lets) e (· = .newline) := by
  obtain ⟨w, ws, hws, hw⟩ := beginsExpression_words lets e he
  have hread := reads_bare (hvalue e he hbound)
  have hkinds := inExpression_words lets e he
  rw [hws] at hread hkinds ⊢
  have hsecond : Leads ws (· = .newline) (· ≠ .assign) := by
    cases ws with
    | nil =>
      refine leads_nil ?_
      rintro _ rfl
      exact nofun
    | cons q qs =>
      refine leads_cons fun hq => ?_
      have := hkinds q (List.mem_cons_of_mem _ List.mem_cons_self)
      rw [hq] at this
      exact nomatch this
  refine reads_front ?_ ?_
  · exact ne_of_beginsStatement rfl (TokenKind.beginsStatement_of_beginsExpression hw)
  · cases hk : w.kind with
    | identifier =>
      -- the only kind that can begin a binding as well
      refine Reads.peekSecond hsecond fun kind hkind => ?_
      rw [if_neg hkind]
      exact hread
    | _ =>
      rw [hk] at hw
      first | exact hread | exact nomatch hw

include hinner

/-- A statement is read, given how expressions and the statements inside it are read. -/
theorem reads_statementOver (s : Node) (hs : s.isStatement = true)
    (hsize : (s.words lets).length ≤ size) (hbound : (s.words lets).length < bound) :
    Reads (statementOver bound value inner) (s.words lets) s (· = .newline) := by
  cases s with
  | assign name v =>
    rw [Node.words, List.length_append, List.length_cons, List.length_cons] at hbound
    have hread : Reads (assignment value)
        (letWords lets ++ .name name :: .mark .assign :: v.words lets) (.assign name v)
        (· = .newline) := reads_assignment (hvalue v hs (by omega)) name
    cases lets with
    | false =>
      -- without the word `let`, the equality sign tells a binding from an expression
      have hsecond : Leads (.mark .assign :: v.words false) (· = .newline) (· = .assign) :=
        leads_cons rfl
      refine reads_front nofun (Reads.peekSecond hsecond fun kind hkind => ?_)
      rw [if_pos hkind]
      exact hread
    | true => exact reads_front nofun hread
  | define name parameters body =>
    rw [Node.words, List.length_append, List.length_cons, List.length_cons, length_parenthesized,
      length_blockWords] at hsize hbound
    have hcount := length_le_length_commaSeparated (parameters.map fun p => [Word.name p])
    rw [List.length_map] at hcount
    refine reads_front nofun (.discard ?_)
    exact reads_definition name parameters (by omega)
      (reads_block hinner hs (by omega) (by omega) _)
  | branch condition thenBody elseBody =>
    cases elseBody with
    | none =>
      rw [Node.isStatement, Bool.and_eq_true] at hs
      rw [Node.words, List.length_append, List.length_cons, length_parenthesized,
        length_blockWords] at hsize hbound
      refine reads_front nofun (.discard ?_)
      exact reads_branch_none (hvalue condition hs.1 (by omega))
        (reads_block hinner hs.2 (by omega) (by omega))
    | some elseBody =>
      rw [Node.isStatement, Bool.and_eq_true, Bool.and_eq_true] at hs
      rw [Node.words, List.length_append, List.length_append, List.length_cons, List.length_cons,
        length_parenthesized, length_blockWords, length_blockWords] at hsize hbound
      refine reads_front nofun (.discard ?_)
      exact reads_branch_some (hvalue condition hs.1.1 (by omega))
        (reads_block hinner hs.1.2 (by omega) (by omega))
        (reads_block hinner hs.2 (by omega) (by omega))
  | loop condition body =>
    rw [Node.isStatement, Bool.and_eq_true] at hs
    rw [Node.words, List.length_append, List.length_cons, length_parenthesized,
      length_blockWords] at hsize hbound
    refine reads_front nofun (.discard ?_)
    exact reads_loop (hvalue condition hs.1 (by omega))
      (reads_block hinner hs.2 (by omega) (by omega) _)
  | ret v =>
    cases v with
    | none =>
      exact reads_front nofun (.discard reads_ret_none)
    | some v =>
      rw [Node.words, List.length_cons] at hbound
      exact reads_front nofun
        (.discard (reads_ret_some (hvalue v hs (by omega)) (beginsExpression_words lets v hs)))
  | print v =>
    rw [Node.words, List.length_cons, length_parenthesized] at hbound
    exact reads_front nofun (.discard (reads_print (hvalue v hs (by omega))))
  | _ => exact reads_expressionStatement hvalue hs hbound

end Statements

/-- A statement is read if a line feed follows. -/
theorem reads_statement {bound : Nat} {lets : Bool} (depth : Nat) : ∀ s : Node,
    s.isStatement = true → (s.words lets).length < depth → (s.words lets).length < bound →
    Reads (statement bound depth) (s.words lets) s (· = .newline) := by
  induction depth with
  | zero => exact fun s _ h _ => absurd h (Nat.not_lt_zero _)
  | succ depth ih =>
    intro s hs hdepth hbound
    -- what stands in braces is shorter
    have hinner : ∀ s' : Node, s'.isStatement = true →
        (s'.words lets).length < (s.words lets).length →
        Reads (statement bound depth) (s'.words lets) s' (· = .newline) :=
      fun s' hs' hlt => ih s' hs' (by omega) (by omega)
    have hvalue : ∀ e : Node, e.isExpression = true → (e.words lets).length < bound →
        Reads (expression bound bound) (e.words lets) e (Stops 0) :=
      fun e he hlt => reads_expression bound e he hlt (Nat.le_of_lt hlt)
    exact reads_statementOver hinner hvalue s hs (Nat.le_refl _) hbound

/-! ### Programs -/

/-- A program is read up to the end of the input. -/
theorem reads_program {bound : Nat} {lets : Bool} {program : Program}
    (hprogram : areStatements program = true)
    (hbound : (programWords lets program).length < bound) :
    Reads (Parser.program bound) (programWords lets program) program (· = .eof) := by
  have hfirst : Leads (programWords lets program ++ []) (· = .eof) (· ≠ .newline) := by
    refine leads_lineWords hprogram (leads_nil ?_)
    rintro _ rfl
    exact nofun
  rw [List.append_nil] at hfirst
  refine Reads.skipNewlines_nil.nil_bind hfirst ?_
  exact reads_lines (fun s hs hlt => reads_statement bound s hs hlt hlt) .eof rfl nofun hprogram
    (Nat.le_of_lt hbound) hbound

theorem lineWords_eq_nil_or_snoc (wss : List (List Word)) :
    lineWords wss = [] ∨ ∃ qs, lineWords wss = qs ++ [.mark .newline] := by
  induction wss with
  | nil => exact Or.inl rfl
  | cons ws wss ih =>
    rw [lineWords_cons]
    rcases ih with h | ⟨qs, h⟩
    · exact Or.inr ⟨ws, by rw [h]⟩
    · exact Or.inr ⟨ws ++ .mark .newline :: qs, by rw [h, List.append_assoc, List.cons_append]⟩

theorem closed_append_of_eof (ts : List Token) {e : Token} (he : e.kind = .eof) :
    closed (ts ++ [e]) = ts ++ [e] := by
  simp [closed, he]

/-- The tokens of a program get an end-of-input token behind them. -/
theorem exists_closed_eq {lets : Bool} {program : Program} {ts : List Token}
    (h : Written (programWords lets program) ts) :
    ∃ e : Token, e.kind = .eof ∧ closed ts = ts ++ [e] := by
  -- the last token is none or a line feed, in no case the end of the input
  rcases lineWords_eq_nil_or_snoc (allWords lets program) with hnil | ⟨qs, hsnoc⟩
  · rw [programWords, hnil] at h
    obtain rfl := List.forall₂_nil_left_iff.mp h
    exact ⟨emptyEnd, rfl, rfl⟩
  · rw [programWords, hsnoc] at h
    obtain ⟨us, vs, rfl, -, hvs⟩ := written_append h
    rcases hvs with _ | ⟨ht, _ | _⟩
    have hlast := kind_of_spells_mark ht
    simp [closed, hlast]

/-- What is written for a program and followed by the end of the input is read as the program. -/
theorem parse_of_closed {lets : Bool} {program : Program} (hprogram : areStatements program = true)
    {ts us : List Token} (hts : Written (programWords lets program) ts) {e : Token}
    (he : e.kind = .eof) (hus : closed us = ts ++ [e]) : parse us = .ok program := by
  have hbound : (programWords lets program).length < (ts ++ [e]).length + 1 := by
    rw [hts.length_eq, List.length_append]
    omega
  have hread := reads_program hprogram hbound ts [e] hts he
  show Except.map _ (Parser.program ((closed us).length + 1) (closed us)) = _
  rw [hus, hread]
  rfl

end Parser

/-- The tokens that are written for a program are read as that program, with an end-of-input token
behind them or without. -/
theorem parse_programWords (lets : Bool) (program : Program)
    (hprogram : areStatements program = true) (ts : List Token)
    (hts : Parser.Written (programWords lets program) ts) :
    parse ts = .ok program ∧ ∀ e : Token, e.kind = .eof → parse (ts ++ [e]) = .ok program := by
  obtain ⟨e, he, hclosed⟩ := Parser.exists_closed_eq hts
  exact ⟨Parser.parse_of_closed hprogram hts he hclosed, fun e he =>
    Parser.parse_of_closed hprogram hts he (Parser.closed_append_of_eof ts he)⟩

/-- A binding with parentheses around a left operand and a sign without any, and a branch with a
return that has no value and with an empty else part. -/
theorem parse_programWords_of_branch :
    parse [⟨.letWord, "let", ⟨1, 1⟩⟩, ⟨.identifier, "x", ⟨1, 5⟩⟩, ⟨.assign, "=", ⟨1, 7⟩⟩,
        ⟨.leftParen, "(", ⟨1, 9⟩⟩, ⟨.number, "2.50", ⟨1, 10⟩⟩, ⟨.minus, "-", ⟨1, 15⟩⟩,
        ⟨.minus, "-", ⟨1, 17⟩⟩, ⟨.identifier, "y", ⟨1, 18⟩⟩, ⟨.rightParen, ")", ⟨1, 19⟩⟩,
        ⟨.star, "*", ⟨1, 21⟩⟩, ⟨.identifier, "f", ⟨1, 23⟩⟩, ⟨.leftParen, "(", ⟨1, 24⟩⟩,
        ⟨.string, "s", ⟨1, 25⟩⟩, ⟨.comma, ",", ⟨1, 28⟩⟩, ⟨.identifier, "y", ⟨1, 30⟩⟩,
        ⟨.rightParen, ")", ⟨1, 31⟩⟩, ⟨.newline, "\n", ⟨1, 32⟩⟩, ⟨.ifWord, "if", ⟨2, 1⟩⟩,
        ⟨.leftParen, "(", ⟨2, 4⟩⟩, ⟨.identifier, "x", ⟨2, 5⟩⟩, ⟨.rightParen, ")", ⟨2, 6⟩⟩,
        ⟨.leftBrace, "\x7b", ⟨2, 8⟩⟩, ⟨.returnWord, "return", ⟨2, 10⟩⟩, ⟨.newline, "\n", ⟨2, 16⟩⟩,
        ⟨.rightBrace, "\x7d", ⟨3, 1⟩⟩, ⟨.elseWord, "else", ⟨3, 3⟩⟩, ⟨.leftBrace, "\x7b", ⟨3, 8⟩⟩,
        ⟨.rightBrace, "\x7d", ⟨3, 9⟩⟩, ⟨.newline, "\n", ⟨3, 10⟩⟩]
      = .ok [.assign "x" (.binary .mul
          (.binary .sub (.number 2.5) (.unary .minus (.identifier "y")))
          (.call "f" [.string "s", .identifier "y"])),
        .branch (.identifier "x") [.ret none] (some [])] :=
  (parse_programWords true _ (by decide) _ (by decide)).1

end StackScript
