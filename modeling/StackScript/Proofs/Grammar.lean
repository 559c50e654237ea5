import Mathlib.Data.List.Forall2
import StackScript.Parser

/-!
The grammar, seen from the side of writing.

The type of nodes has more trees than there are programs. Here are those that can be written, and how
they are: with parentheses only where the tree would be read differently without them, and with a
line feed after every statement.

* `Node.isExpression`, `Node.isStatement`: the nodes that stand for what can be written;
* `Node.level`: how strongly a node binds its parts;
* `Word`: a token that is to be written, and `Word.Spells`: the tokens that do;
* `Node.words`, `programWords`: how nodes and programs are written;
* `kind_of_mem_words`, `head_words`: which tokens an expression is made of and begins with.
-/

namespace StackScript

/-! ### What can be written -/

mutual

/-- The node is put together from literals, variables, operators and calls alone. -/
def Node.isExpression : Node → Bool
  | .number _ => true
  | .string _ => true
  | .identifier _ => true
  | .binary _ left right => left.isExpression && right.isExpression
  | .unary _ operand => operand.isExpression
  | .call _ arguments => areExpressions arguments
  | _ => false

/-- All nodes are expressions. -/
def areExpressions : List Node → Bool
  | [] => true
  | node :: nodes => node.isExpression && areExpressions nodes

end

mutual

/-- The node is a statement whose bodies hold statements, and whose values and conditions are
expressions. -/
def Node.isStatement : Node → Bool
  | .assign _ value => value.isExpression
  | .define _ _ body => areStatements body
  | .branch condition thenBody none => condition.isExpression && areStatements thenBody
  | .branch condition thenBody (some elseBody) =>
    condition.isExpression && areStatements thenBody && areStatements elseBody
  | .loop condition body => condition.isExpression && areStatements body
  | .ret none => true
  | .ret (some value) => value.isExpression
  | .print value => value.isExpression
  | node => node.isExpression

/-- All nodes are statements. -/
def areStatements : List Node → Bool
  | [] => true
  | node :: nodes => node.isStatement && areStatements nodes

end

theorem areExpressions_iff (nodes : List Node) :
    areExpressions nodes = true ↔ ∀ node ∈ nodes, node.isExpression = true := by
  induction nodes with
  | nil => simp [areExpressions]
  | cons node nodes ih => simp [areExpressions, ih]

theorem areStatements_iff (nodes : List Node) :
    areStatements nodes = true ↔ ∀ node ∈ nodes, node.isStatement = true := by
  induction nodes with
  | nil => simp [areStatements]
  | cons node nodes ih => simp [areStatements, ih]

/-! ### Words -/

/-- A token that is to be written. -/
inductive Word where
  /-- A token that is known by its kind. -/
  | mark (kind : TokenKind)
  | name (text : String)
  | text (text : String)
  | number (value : Float)

namespace Word

/-- The kind of the token. -/
def kind : Word → TokenKind
  | mark kind => kind
  | name _ => .identifier
  | text _ => .string
  | number _ => .number

/-- A token is written for a word: its kind is that of the word, and its lexeme is the name, the
text, or a numeral of the number. Where it stands is left open. -/
def Spells (w : Word) (t : Token) : Prop :=
  t.kind = w.kind ∧
    match w with
    | mark _ => True
    | name s => t.lexeme = s
    | text s => t.lexeme = s
    | number x => readNumber? t.lexeme = some x

instance (w : Word) (t : Token) : Decidable (w.Spells t) :=
  match w with
  | mark kind => inferInstanceAs (Decidable (t.kind = kind ∧ True))
  | name s => inferInstanceAs (Decidable (t.kind = .identifier ∧ t.lexeme = s))
  | text s => inferInstanceAs (Decidable (t.kind = .string ∧ t.lexeme = s))
  | number x => inferInstanceAs (Decidable (t.kind = .number ∧ readNumber? t.lexeme = some x))

end Word

/-- The token of a binary operator. -/
def BinaryOp.kind : BinaryOp → TokenKind
  | add => .plus
  | sub => .minus
  | mul => .star
  | div => .slash
  | eq => .equal
  | ne => .notEqual
  | lt => .less
  | gt => .greater

/-- The token of a sign. -/
def UnaryOp.kind : UnaryOp → TokenKind
  | plus => .plus
  | minus => .minus

/-! ### Writing -/

/-- How strongly an operator binds: comparisons bind weakest. -/
def BinaryOp.level : BinaryOp → Nat
  | eq | ne | lt | gt => 0
  | add | sub => 1
  | mul | div => 2

/-- How strongly a node binds its parts. -/
def Node.level : Node → Nat
  | .binary op _ _ => op.level
  | .unary _ _ => 3
  | _ => 4

/-- Words in parentheses. -/
def parenthesized (ws : List Word) : List Word :=
  .mark .leftParen :: ws ++ [.mark .rightParen]

/-- A node in a place where it has to bind at least so strongly, given how it is written. -/
def operandWords (level : Nat) (node : Node) (ws : List Word) : List Word :=
  if node.level < level then parenthesized ws else ws

/-- Lists of words with commas between them. -/
def commaSeparated (wss : List (List Word)) : List Word :=
  List.intercalate [.mark .comma] wss

/-- Lists of words, each with a line feed after it. -/
def lineWords (wss : List (List Word)) : List Word :=
  wss.flatMap (· ++ [.mark .newline])

/-- Lines in braces. -/
def blockWords (wss : List (List Word)) : List Word :=
  .mark .leftBrace :: lineWords wss ++ [.mark .rightBrace]

/-- The word `let`, if it is to be written. -/
def letWords (lets : Bool) : List Word :=
  if lets then [.mark .letWord] else []

mutual

/-- How a node is written. Whether the word `let` is written before bindings is left to choose. -/
def Node.words (lets : Bool) : Node → List Word
  | .number x => [.number x]
  | .string s => [.text s]
  | .identifier name => [.name name]
  | .binary op left right =>
    operandWords op.level left (left.words lets)
      ++ .mark op.kind :: operandWords (op.level + 1) right (right.words lets)
  | .unary op operand => .mark op.kind :: operandWords 3 operand (operand.words lets)
  | .call name arguments => .name name :: parenthesized (commaSeparated (allWords lets arguments))
  | .assign name value =>
    letWords lets ++ .name name :: .mark .assign :: value.words lets
  | .define name parameters body =>
    .mark .funcWord :: .name name
      :: parenthesized (commaSeparated (parameters.map fun p => [.name p]))
      ++ blockWords (allWords lets body)
  | .branch condition thenBody none =>
    .mark .ifWord :: parenthesized (condition.words lets)
      ++ blockWords (allWords lets thenBody)
  | .branch condition thenBody (some elseBody) =>
    .mark .ifWord :: parenthesized (condition.words lets)
      ++ blockWords (allWords lets thenBody)
      ++ .mark .elseWord :: blockWords (allWords lets elseBody)
  | .loop condition body =>
    .mark .whileWord :: parenthesized (condition.words lets) ++ blockWords (allWords lets body)
  | .ret none => [.mark .returnWord]
  | .ret (some value) => .mark .returnWord :: value.words lets
  | .print value => .mark .printWord :: parenthesized (value.words lets)

/-- How nodes are written, each by itself. -/
def allWords (lets : Bool) : List Node → List (List Word)
  | [] => []
  | node :: nodes => node.words lets :: allWords lets nodes

end

/-- How a program is written: its statements are lines. -/
def programWords (lets : Bool) (program : Program) : List Word :=
  lineWords (allWords lets program)

theorem allWords_eq_map (lets : Bool) (nodes : List Node) :
    allWords lets nodes = nodes.map (Node.words lets) := by
  induction nodes with
  | nil => rfl
  | cons node nodes ih => rw [allWords, ih, List.map_cons]

/-! ### The tokens of expressions -/

/-- A token that can begin an expression. -/
def TokenKind.beginsExpression : TokenKind → Bool
  | number | string | identifier | plus | minus | leftParen => true
  | _ => false

/-- A token that can stand in an expression. -/
def TokenKind.inExpression : TokenKind → Bool
  | number | string | identifier | plus | minus | star | slash | equal | notEqual | less | greater
  | leftParen | rightParen | comma => true
  | _ => false

theorem BinaryOp.inExpression_kind (op : BinaryOp) : op.kind.inExpression = true := by
  cases op <;> rfl

theorem UnaryOp.inExpression_kind (op : UnaryOp) : op.kind.inExpression = true := by
  cases op <;> rfl

theorem UnaryOp.beginsExpression_kind (op : UnaryOp) : op.kind.beginsExpression = true := by
  cases op <;> rfl

/-- Every word has a kind that stands in expressions. -/
def InExpression (ws : List Word) : Prop :=
  ∀ w ∈ ws, w.kind.inExpression = true

theorem inExpression_append {ws qs : List Word} :
    InExpression (ws ++ qs) ↔ InExpression ws ∧ InExpression qs :=
  List.forall_mem_append

theorem inExpression_cons {w : Word} {ws : List Word} :
    InExpression (w :: ws) ↔ w.kind.inExpression = true ∧ InExpression ws :=
  List.forall_mem_cons

theorem inExpression_nil : InExpression [] :=
  List.forall_mem_nil _

theorem InExpression.parenthesized {ws : List Word} (h : InExpression ws) :
    InExpression (parenthesized ws) := by
  rw [StackScript.parenthesized, inExpression_append, inExpression_cons, inExpression_cons]
  exact ⟨⟨rfl, h⟩, rfl, inExpression_nil⟩

theorem InExpression.operandWords {ws : List Word} (h : InExpression ws) (level : Nat)
    (node : Node) : InExpression (operandWords level node ws) := by
  unfold StackScript.operandWords
  split
  · exact h.parenthesized
  · exact h

theorem InExpression.commaSeparated : ∀ {wss : List (List Word)},
    (∀ ws ∈ wss, InExpression ws) → InExpression (commaSeparated wss)
  | [], _ => inExpression_nil
  | [ws], h => by
    rw [StackScript.commaSeparated, List.intercalate_singleton]
    exact h ws List.mem_cons_self
  | ws :: qs :: wss, h => by
    rw [StackScript.commaSeparated, List.intercalate_cons_cons, inExpression_append,
      inExpression_append, inExpression_cons]
    exact ⟨⟨h ws List.mem_cons_self, rfl, inExpression_nil⟩,
      InExpression.commaSeparated fun qs hqs => h qs (List.mem_cons_of_mem _ hqs)⟩

mutual

/-- An expression is made of tokens that stand in expressions. -/
theorem inExpression_words (lets : Bool) : ∀ node : Node, node.isExpression = true →
    InExpression (node.words lets)
  | .number x, _ => inExpression_cons.mpr ⟨rfl, inExpression_nil⟩
  | .string s, _ => inExpression_cons.mpr ⟨rfl, inExpression_nil⟩
  | .identifier name, _ => inExpression_cons.mpr ⟨rfl, inExpression_nil⟩
  | .binary op left right, h => by
    rw [Node.isExpression, Bool.and_eq_true] at h
    rw [Node.words, inExpression_append, inExpression_cons]
    exact ⟨(inExpression_words lets left h.1).operandWords _ _, op.inExpression_kind,
      (inExpression_words lets right h.2).operandWords _ _⟩
  | .unary op operand, h => by
    rw [Node.words, inExpression_cons]
    exact ⟨op.inExpression_kind, (inExpression_words lets operand h).operandWords _ _⟩
  | .call name arguments, h => by
    have harguments := InExpression.commaSeparated (inExpression_allWords lets arguments h)
    rw [Node.words, inExpression_cons]
    exact ⟨rfl, harguments.parenthesized⟩

theorem inExpression_allWords (lets : Bool) : ∀ nodes : List Node, areExpressions nodes = true →
    ∀ ws ∈ allWords lets nodes, InExpression ws
  | [], _ => List.forall_mem_nil _
  | node :: nodes, h => by
    rw [areExpressions, Bool.and_eq_true] at h
    rw [allWords, List.forall_mem_cons]
    exact ⟨inExpression_words lets node h.1, inExpression_allWords lets nodes h.2⟩

end

/-- There is a first word, and its kind is one of those. -/
def Begins (kinds : TokenKind → Prop) (ws : List Word) : Prop :=
  ∃ w rest, ws = w :: rest ∧ kinds w.kind

theorem Begins.mono {kinds kinds' : TokenKind → Prop} {ws : List Word} (h : Begins kinds ws)
    (hk : ∀ kind, kinds kind → kinds' kind) : Begins kinds' ws := by
  obtain ⟨w, rest, hw, hkind⟩ := h
  exact ⟨w, rest, hw, hk _ hkind⟩

theorem Begins.append {kinds : TokenKind → Prop} {ws : List Word} (h : Begins kinds ws)
    (qs : List Word) : Begins kinds (ws ++ qs) := by
  obtain ⟨w, rest, rfl, hkind⟩ := h
  exact ⟨w, rest ++ qs, rfl, hkind⟩

theorem Begins.operandWords {ws : List Word} (h : Begins (·.beginsExpression) ws) (level : Nat)
    (node : Node) : Begins (·.beginsExpression) (operandWords level node ws) := by
  unfold StackScript.operandWords
  split
  · exact ⟨_, _, rfl, rfl⟩
  · exact h

/-- An expression begins with such a token. -/
theorem beginsExpression_words (lets : Bool) : ∀ node : Node, node.isExpression = true →
    Begins (·.beginsExpression) (node.words lets)
  | .number x, _ => ⟨_, _, rfl, rfl⟩
  | .string s, _ => ⟨_, _, rfl, rfl⟩
  | .identifier name, _ => ⟨_, _, rfl, rfl⟩
  | .binary op left right, h => by
    rw [Node.isExpression, Bool.and_eq_true] at h
    exact ((beginsExpression_words lets left h.1).operandWords op.level left).append _
  | .unary op operand, _ => ⟨_, _, rfl, op.beginsExpression_kind⟩
  | .call name arguments, _ => ⟨_, _, rfl, rfl⟩

/-! ### The first tokens of statements -/

/-- A token that can begin a statement. -/
def TokenKind.beginsStatement : TokenKind → Bool
  | letWord | funcWord | ifWord | whileWord | returnWord | printWord => true
  | kind => kind.beginsExpression

theorem TokenKind.beginsStatement_of_beginsExpression {kind : TokenKind}
    (h : kind.beginsExpression = true) : kind.beginsStatement = true := by
  cases kind <;> first | rfl | exact nomatch h

/-- A statement begins with such a token. -/
theorem beginsStatement_words (lets : Bool) (node : Node) (h : node.isStatement = true) :
    Begins (·.beginsStatement) (node.words lets) := by
  cases node with
  | assign name value =>
    cases lets with
    | false => exact ⟨_, _, rfl, rfl⟩
    | true => exact ⟨_, _, rfl, rfl⟩
  | define name parameters body => exact ⟨_, _, rfl, rfl⟩
  | branch condition thenBody elseBody =>
    cases elseBody with
    | none => exact ⟨_, _, rfl, rfl⟩
    | some elseBody => exact ⟨_, _, rfl, rfl⟩
  | loop condition body => exact ⟨_, _, rfl, rfl⟩
  | ret value =>
    cases value with
    | none => exact ⟨_, _, rfl, rfl⟩
    | some value => exact ⟨_, _, rfl, rfl⟩
  | print value => exact ⟨_, _, rfl, rfl⟩
  | _ =>
    exact (beginsExpression_words lets _ h).mono
      fun _ => TokenKind.beginsStatement_of_beginsExpression

end StackScript
