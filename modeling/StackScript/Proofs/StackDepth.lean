import StackScript.Proofs.Draft
import StackScript.Proofs.ParsedShape

/-!
The operand stack: compiled code finds on it what it pops.

An expression that stands as a statement leaves its value behind, so that a place in the code can be
come to with stacks of different depth, and a loop can make the stack deeper in every round. What
each place has is a least depth. It depends on the nodes alone: a statement begins with none of its
own values, and each operand with those of the operands before it.

* `Instruction.pops`, `Instruction.pushes`, `Instruction.successors`: what an instruction does to
  the stack, and where control goes behind it;
* `Reaches`, `NeverUnderflows`: the places that control comes to with the depth of the stack there,
  and that each instruction finds what it pops;
* `Supported`, `level_le_of_reaches`: least depths that each instruction keeps to are kept to by
  all paths;
* `Node.levels`, `statementLevels`: the least depths for the code of a node, and of statements;
* `backs_expression`, `backs_guarded`, `backs_statements`: the code of expressions, of branches and
  loops, and of statements keeps to them;
* `areStatements_bodyAll`: the bodies of functions hold statements where the program does;
* `compile_neverUnderflows`: the code of a parsed program and of its functions.
-/

namespace StackScript

/-! ### Paths through code -/

namespace Instruction

/-- The number of values that an instruction takes from the stack. -/
def pops : Instruction → Nat
  | loadConst _ => 0
  | loadVar _ => 0
  | storeVar _ => 1
  | binary _ => 2
  | unary _ => 1
  | call _ arity => arity
  | ret => 1
  | jump _ => 0
  | jumpIfFalse _ => 1
  | print => 1

/-- The number of values that an instruction leaves on the stack instead. -/
def pushes : Instruction → Nat
  | loadConst _ => 1
  | loadVar _ => 1
  | binary _ => 1
  | unary _ => 1
  | call .. => 1
  | _ => 0

/-- The places that control can go to behind an instruction at a place. -/
def successors (position : Nat) : Instruction → List Nat
  | jump target => [target]
  | jumpIfFalse target => [position + 1, target]
  | ret => []
  | _ => [position + 1]

end Instruction

/-- A path through the code, from its beginning and the empty stack, comes to a place with so many
values on the stack. -/
inductive Reaches (code : List Instruction) : (position depth : Nat) → Prop where
  | start : Reaches code 0 0
  | step {position depth next : Nat} {i : Instruction} (h : Reaches code position depth)
      (hi : code[position]? = some i) (hnext : next ∈ i.successors position) :
      Reaches code next (depth - i.pops + i.pushes)

/-- On every path, each instruction finds at least as many values as it pops. -/
def NeverUnderflows (code : List Instruction) : Prop :=
  ∀ (position depth : Nat) (i : Instruction), Reaches code position depth →
    code[position]? = some i → i.pops ≤ depth

/-! ### Least depths -/

/-- An instruction at a place keeps to least depths: it finds what it pops, and wherever control
goes there is enough on the stack. -/
def Supported (level : Nat → Nat) (position : Nat) (i : Instruction) : Prop :=
  i.pops ≤ level position ∧
    ∀ next ∈ i.successors position, level next ≤ level position - i.pops + i.pushes

/-- Least depths that every instruction keeps to are kept to on all paths. -/
theorem level_le_of_reaches {code : List Instruction} {level : Nat → Nat} (hstart : level 0 = 0)
    (hcode : ∀ (position : Nat) (i : Instruction), code[position]? = some i →
      Supported level position i)
    {position depth : Nat} (h : Reaches code position depth) : level position ≤ depth := by
  induction h with
  | start => exact Nat.le_of_eq hstart
  | step _ hi hnext ih =>
    -- more on the stack before the instruction is as much more behind it
    have hstep := (hcode _ _ hi).2 _ hnext
    omega

theorem neverUnderflows_of_supported {code : List Instruction} (level : Nat → Nat)
    (hstart : level 0 = 0)
    (hcode : ∀ (position : Nat) (i : Instruction), code[position]? = some i →
      Supported level position i) : NeverUnderflows code :=
  fun _ _ _ h hi => Nat.le_trans (hcode _ _ hi).1 (level_le_of_reaches hstart hcode h)

mutual

/-- The least depths before the instructions of a node's code that begins with `n` values. -/
def Node.levels (n : Nat) : Node → List Nat
  | .number _ => [n]
  | .string _ => [n]
  | .identifier _ => [n]
  | .binary _ left right => left.levels n ++ right.levels (n + 1) ++ [n + 2]
  | .unary _ operand => operand.levels n ++ [n + 1]
  | .assign _ value => value.levels n ++ [n + 1]
  | .call _ arguments => argumentLevels n arguments ++ [n + arguments.length]
  | .define .. => []
  | .branch condition thenBody none =>
    condition.levels n ++ (n + 1) :: statementLevels n thenBody ++ [n]
  | .branch condition thenBody (some elseBody) =>
    condition.levels n ++ (n + 1) :: statementLevels n thenBody
      ++ n :: statementLevels n elseBody
  | .loop condition body => condition.levels n ++ (n + 1) :: statementLevels n body ++ [n]
  | .ret none => [n, n + 1]
  | .ret (some value) => value.levels n ++ [n + 1]
  | .print value => value.levels n ++ [n + 1]

/-- The least depths for arguments: each comes on top of those before it. -/
def argumentLevels (n : Nat) : List Node → List Nat
  | [] => []
  | node :: nodes => node.levels n ++ argumentLevels (n + 1) nodes

/-- The least depths for statements: what a statement leaves behind is not counted on. -/
def statementLevels (n : Nat) : List Node → List Nat
  | [] => []
  | node :: nodes => node.levels n ++ statementLevels n nodes

end

mutual

theorem length_levels (n base : Nat) : ∀ node : Node,
    (node.levels n).length = (draft base node).length
  | .number _ => rfl
  | .string _ => rfl
  | .identifier _ => rfl
  | .binary _ left right => by
    simp [Node.levels, draft, length_levels n base left,
      length_levels (n + 1) (base + (draft base left).length) right]
  | .unary _ operand => by simp [Node.levels, draft, length_levels n base operand]
  | .assign _ value => by simp [Node.levels, draft, length_levels n base value]
  | .call _ arguments => by simp [Node.levels, draft, length_argumentLevels n base arguments]
  | .define .. => rfl
  | .branch condition thenBody none => by
    simp [Node.levels, draft, length_levels n base condition,
      length_statementLevels n (base + (draft base condition).length + 1) thenBody]
  | .branch condition thenBody (some elseBody) => by
    simp [Node.levels, draft, length_levels n base condition,
      length_statementLevels n (base + (draft base condition).length + 1) thenBody,
      length_statementLevels n (base + (draft base condition).length + 1
        + (draftAll (base + (draft base condition).length + 1) thenBody).length + 1) elseBody]
  | .loop condition body => by
    simp [Node.levels, draft, length_levels n base condition,
      length_statementLevels n (base + (draft base condition).length + 1) body]
  | .ret none => rfl
  | .ret (some value) => by simp [Node.levels, draft, length_levels n base value]
  | .print value => by simp [Node.levels, draft, length_levels n base value]

theorem length_argumentLevels (n base : Nat) : ∀ nodes : List Node,
    (argumentLevels n nodes).length = (draftAll base nodes).length
  | [] => rfl
  | node :: nodes => by
    simp [argumentLevels, draftAll, length_levels n base node,
      length_argumentLevels (n + 1) (base + (draft base node).length) nodes]

theorem length_statementLevels (n base : Nat) : ∀ nodes : List Node,
    (statementLevels n nodes).length = (draftAll base nodes).length
  | [] => rfl
  | node :: nodes => by
    simp [statementLevels, draftAll, length_levels n base node,
      length_statementLevels n (base + (draft base node).length) nodes]

end

/-- An expression begins with the depth that it is given. -/
theorem exists_levels_eq_cons (n : Nat) : ∀ e : Node, e.isExpression = true →
    ∃ rest, e.levels n = n :: rest
  | .number _, _ => ⟨_, rfl⟩
  | .string _, _ => ⟨_, rfl⟩
  | .identifier _, _ => ⟨_, rfl⟩
  | .binary _ left right, h => by
    rw [Node.isExpression, Bool.and_eq_true] at h
    obtain ⟨rest, hrest⟩ := exists_levels_eq_cons n left h.1
    exact ⟨rest ++ right.levels (n + 1) ++ [n + 2], by rw [Node.levels, hrest]; rfl⟩
  | .unary _ operand, h => by
    obtain ⟨rest, hrest⟩ := exists_levels_eq_cons n operand h
    exact ⟨rest ++ [n + 1], by rw [Node.levels, hrest]; rfl⟩
  | .call _ [], _ => ⟨[], rfl⟩
  | .call _ (argument :: arguments), h => by
    rw [Node.isExpression, areExpressions, Bool.and_eq_true] at h
    obtain ⟨rest, hrest⟩ := exists_levels_eq_cons n argument h.1
    exact ⟨_, by rw [Node.levels, argumentLevels, hrest, List.cons_append, List.cons_append]⟩

/-! ### Drafts that keep to least depths -/

/-- An instruction that acts on the stack as a draft does. -/
def Draft.outline : Draft → Instruction
  | .literal _ => .loadConst 0
  | .plain i => i

/-- An instruction keeps to the least depths that its draft keeps to: which constant it loads does
not matter. -/
theorem Supported.of_stands {level : Nat → Nat} {position : Nat} {pool : ConstantPool} {d : Draft}
    {i : Instruction} (hd : Supported level position d.outline) (h : d.Stands pool i) :
    Supported level position i := by
  cases d with
  | literal c =>
    cases i with
    | loadConst k => exact hd
    | _ => exact False.elim h
  | plain j => exact h ▸ hd

/-- What holds of each item together with its place, where the items stand from a place on. -/
def Along {α : Type} (P : Nat → α → Prop) : Nat → List α → Prop
  | _, [] => True
  | position, x :: xs => P position x ∧ Along P (position + 1) xs

theorem along_append {α : Type} {P : Nat → α → Prop} (xs ys : List α) : ∀ position : Nat,
    Along P position (xs ++ ys)
      ↔ Along P position xs ∧ Along P (position + xs.length) ys := by
  induction xs with
  | nil => exact fun position => (true_and _).symm.to_iff
  | cons x xs ih =>
    intro position
    rw [List.cons_append, Along, Along, ih, and_assoc, List.length_cons, Nat.add_right_comm,
      Nat.add_assoc]

/-- The least depths from a place on. -/
def Assigns (level : Nat → Nat) : Nat → List Nat → Prop :=
  Along fun position n => level position = n

/-- The code of a draft that begins at a place keeps to least depths. -/
def Backs (level : Nat → Nat) : Nat → List Draft → Prop :=
  Along fun position d => Supported level position d.outline

/-- Least depths that are read from a list. -/
theorem assigns_getD (ns : List Nat) (last : Nat) :
    ∀ before : List Nat, Assigns (fun k => (before ++ ns)[k]?.getD last) before.length ns := by
  induction ns with
  | nil => exact fun before => trivial
  | cons n ns ih =>
    intro before
    have hrest := ih (before ++ [n])
    rw [List.append_assoc, List.length_append] at hrest
    exact ⟨by simp, hrest⟩

/-- Each instruction of the code is the one that stands for some draft at its place. -/
theorem Backs.supported {level : Nat → Nat} {pool : ConstantPool} {ds : List Draft}
    {code : List Instruction} (hcode : List.Forall₂ (Draft.Stands pool) ds code) :
    ∀ {base : Nat}, Backs level base ds → ∀ {k : Nat} {i : Instruction}, code[k]? = some i →
      Supported level (base + k) i := by
  induction hcode with
  | nil => exact fun _ _ _ hi => nomatch hi
  | cons hd _ ih =>
    intro base h k i hi
    cases k with
    | zero =>
      injection hi with hi
      exact hi ▸ h.1.of_stands hd
    | succ k =>
      rw [← Nat.succ_add_eq_add_succ]
      exact ih h.2 hi

section

variable {level : Nat → Nat}

/-- A last instruction that goes on to the place behind it. -/
theorem Backs.snoc {base m : Nat} (ns : List Nat) (ds : List Draft) {d : Draft}
    (hlength : ns.length = ds.length) (hlevel : Assigns level base (ns ++ [m]))
    (hexit : level (base + (ds ++ [d]).length) ≤ m - d.outline.pops + d.outline.pushes)
    (hds : Assigns level base ns → level (base + ds.length) = m → Backs level base ds)
    (hpops : d.outline.pops ≤ m)
    (hnext : ∀ next ∈ d.outline.successors (base + ds.length), next = base + ds.length + 1) :
    Backs level base (ds ++ [d]) := by
  obtain ⟨hns, hm, -⟩ := (along_append ns [m] base).mp hlevel
  rw [hlength] at hm
  refine (along_append ds [d] base).mpr ⟨hds hns hm, ⟨?_, ?_⟩, trivial⟩
  · rwa [hm]
  · intro next hmem
    rw [hnext next hmem, hm]
    rwa [List.length_append] at hexit

/-! ### Expressions -/

/-- An expression begins with its own depth. -/
theorem level_expression {n base : Nat} {e : Node} (h : e.isExpression = true)
    (hlevel : Assigns level base (e.levels n)) : level base = n := by
  obtain ⟨rest, hrest⟩ := exists_levels_eq_cons n e h
  rw [hrest] at hlevel
  exact hlevel.1

/-- Arguments begin with their own depth; without any, it is that of the place behind them. -/
theorem level_arguments {n base : Nat} {es : List Node} (h : areExpressions es = true)
    (hlevel : Assigns level base (argumentLevels n es))
    (hexit : level (base + (draftAll base es).length) ≤ n + es.length) : level base ≤ n := by
  cases es with
  | nil => exact hexit
  | cons e es =>
    rw [areExpressions, Bool.and_eq_true] at h
    obtain ⟨he, -⟩ := (along_append _ _ base).mp hlevel
    exact Nat.le_of_eq (level_expression h.1 he)

mutual

/-- An expression finds what it pops, and leaves one value. -/
theorem backs_expression (n base : Nat) : ∀ e : Node, e.isExpression = true →
    Assigns level base (e.levels n) → level (base + (draft base e).length) ≤ n + 1 →
    Backs level base (draft base e)
  | .number x, _, hlevel, hexit =>
    Backs.snoc [] [] rfl hlevel hexit (fun _ _ => trivial) (Nat.zero_le _)
      fun next h => List.mem_singleton.mp h
  | .string s, _, hlevel, hexit =>
    Backs.snoc [] [] rfl hlevel hexit (fun _ _ => trivial) (Nat.zero_le _)
      fun next h => List.mem_singleton.mp h
  | .identifier name, _, hlevel, hexit =>
    Backs.snoc [] [] rfl hlevel hexit (fun _ _ => trivial) (Nat.zero_le _)
      fun next h => List.mem_singleton.mp h
  | .binary op left right, h, hlevel, hexit => by
    rw [Node.isExpression, Bool.and_eq_true] at h
    refine Backs.snoc _ _ ?_ hlevel hexit (fun hlevel hexit => ?_) ?_ ?_
    · simp [length_levels n base left,
        length_levels (n + 1) (base + (draft base left).length) right]
    · obtain ⟨hl, hr⟩ := (along_append _ _ base).mp hlevel
      rw [length_levels n base left] at hr
      -- the right operand begins on top of the value of the left one
      have hmiddle := level_expression h.2 hr
      refine (along_append _ _ base).mpr ⟨backs_expression n base left h.1 hl (by omega), ?_⟩
      refine backs_expression (n + 1) _ right h.2 hr ?_
      rw [List.length_append, ← Nat.add_assoc] at hexit
      omega
    · exact Nat.le_add_left _ _
    · exact fun next h => List.mem_singleton.mp h
  | .unary op operand, h, hlevel, hexit => by
    refine Backs.snoc _ _ (length_levels n base operand) hlevel hexit (fun hlevel hexit => ?_) ?_ ?_
    · exact backs_expression n base operand h hlevel (Nat.le_of_eq hexit)
    · exact Nat.le_add_left _ _
    · exact fun next h => List.mem_singleton.mp h
  | .call name arguments, h, hlevel, hexit => by
    refine Backs.snoc _ _ (length_argumentLevels n base arguments) hlevel ?_
      (fun hlevel hexit => ?_) ?_ ?_
    · rw [draft] at hexit
      simpa [Draft.outline, Instruction.pops, Instruction.pushes] using hexit
    · exact backs_arguments n base arguments h hlevel (Nat.le_of_eq hexit)
    · exact Nat.le_add_left _ _
    · exact fun next h => List.mem_singleton.mp h

/-- Arguments find what they pop, and leave one value each. -/
theorem backs_arguments (n base : Nat) : ∀ es : List Node, areExpressions es = true →
    Assigns level base (argumentLevels n es) →
    level (base + (draftAll base es).length) ≤ n + es.length → Backs level base (draftAll base es)
  | [], _, _, _ => trivial
  | e :: es, h, hlevel, hexit => by
    rw [areExpressions, Bool.and_eq_true] at h
    obtain ⟨he, hes⟩ := (along_append _ _ base).mp hlevel
    rw [length_levels n base e] at hes
    rw [draftAll, List.length_append, List.length_cons, ← Nat.add_assoc] at hexit
    have hmiddle := level_arguments h.2 hes (by omega)
    refine (along_append _ _ base).mpr ⟨backs_expression n base e h.1 he hmiddle, ?_⟩
    exact backs_arguments (n + 1) _ es h.2 hes (by omega)

end

/-! ### Statements -/

/-- What begins with an expression begins with its depth. -/
theorem level_begin {n base : Nat} {e : Node} {rest : List Nat} (h : e.isExpression = true)
    (hlevel : Assigns level base (e.levels n ++ rest)) : level base ≤ n := by
  obtain ⟨he, -⟩ := (along_append _ _ base).mp hlevel
  exact Nat.le_of_eq (level_expression h he)

/-- A statement begins with its own depth; a definition has no code, and it is that of the place
behind it. -/
theorem level_statement {n base : Nat} : ∀ {s : Node}, s.isStatement = true →
    Assigns level base (s.levels n) → level (base + (draft base s).length) ≤ n → level base ≤ n
  | .number _, _, hlevel, _ => Nat.le_of_eq hlevel.1
  | .string _, _, hlevel, _ => Nat.le_of_eq hlevel.1
  | .identifier _, _, hlevel, _ => Nat.le_of_eq hlevel.1
  | .binary .., h, hlevel, _ => Nat.le_of_eq (level_expression h hlevel)
  | .unary .., h, hlevel, _ => Nat.le_of_eq (level_expression h hlevel)
  | .call .., h, hlevel, _ => Nat.le_of_eq (level_expression h hlevel)
  | .assign _ value, h, hlevel, _ => level_begin (e := value) h hlevel
  | .define .., _, _, hexit => hexit
  | .branch condition thenBody none, h, hlevel, _ => by
    rw [Node.isStatement, Bool.and_eq_true] at h
    rw [Node.levels, List.append_assoc] at hlevel
    exact level_begin h.1 hlevel
  | .branch condition thenBody (some elseBody), h, hlevel, _ => by
    rw [Node.isStatement, Bool.and_eq_true, Bool.and_eq_true] at h
    rw [Node.levels, List.append_assoc] at hlevel
    exact level_begin h.1.1 hlevel
  | .loop condition body, h, hlevel, _ => by
    rw [Node.isStatement, Bool.and_eq_true] at h
    rw [Node.levels, List.append_assoc] at hlevel
    exact level_begin h.1 hlevel
  | .ret none, _, hlevel, _ => Nat.le_of_eq hlevel.1
  | .ret (some value), h, hlevel, _ => level_begin (e := value) h hlevel
  | .print value, h, hlevel, _ => level_begin (e := value) h hlevel

theorem level_statements {n : Nat} (ss : List Node) : ∀ {base : Nat}, areStatements ss = true →
    Assigns level base (statementLevels n ss) →
    level (base + (draftAll base ss).length) ≤ n → level base ≤ n := by
  induction ss with
  | nil => exact fun _ _ hexit => hexit
  | cons s ss ih =>
    intro base h hlevel hexit
    rw [areStatements, Bool.and_eq_true] at h
    obtain ⟨hs, hss⟩ := (along_append _ _ base).mp hlevel
    rw [length_levels n base s] at hss
    rw [draftAll, List.length_append, ← Nat.add_assoc] at hexit
    exact level_statement h.1 hs (ih h.2 hss hexit)

/-- A value, and an instruction that pops it and goes on to the place behind it, or nowhere. -/
theorem backs_value {n base : Nat} {value : Node} {i : Instruction} (h : value.isExpression = true)
    (hlevel : Assigns level base (value.levels n ++ [n + 1]))
    (hexit : level (base + (draft base value ++ [Draft.plain i]).length) ≤ n) (hpops : i.pops = 1)
    (hnext : ∀ next ∈ i.successors (base + (draft base value).length),
      next = base + (draft base value).length + 1) :
    Backs level base (draft base value ++ [.plain i]) := by
  refine Backs.snoc _ _ (length_levels n base value) hlevel ?_ (fun hlevel hexit => ?_) ?_ hnext
  · simp only [Draft.outline, hpops]
    omega
  · exact backs_expression n base value h hlevel (Nat.le_of_eq hexit)
  · simp only [Draft.outline, hpops]
    omega

/-- A condition, a body that is skipped if it is false, and a jump behind the body, with what else
there is behind the jump. Control comes to both targets with the depth that the condition begins
with. -/
theorem backs_guarded {n base target : Nat} {condition : Node} {body : List Node} {rest : List Nat}
    {after : List Draft} (h : condition.isExpression = true) (hbody : areStatements body = true)
    (hlevel : Assigns level base
      (condition.levels n ++ (n + 1) :: statementLevels n body ++ n :: rest)) :
    let test := draft base condition
    let code := draftAll (base + test.length + 1) body
    let stop := base + test.length + 1 + code.length + 1
    let guarded := test ++ .plain (.jumpIfFalse stop) :: code ++ .plain (.jump target) :: after
    level (base + guarded.length) ≤ n →
    (level base ≤ n → level (stop + after.length) ≤ n → level target ≤ n) →
    (∀ start, Assigns level start (statementLevels n body) →
      level (start + (draftAll start body).length) ≤ n → Backs level start (draftAll start body)) →
    (Assigns level stop rest → level (stop + after.length) ≤ n →
      level stop ≤ n ∧ Backs level stop after) →
    Backs level base guarded := by
  intro test code stop guarded hexit htarget hcode hafter
  have hend : level (stop + after.length) ≤ n := by
    have hlength : guarded.length = test.length + (code.length + 1) + (after.length + 1) := by
      simp only [guarded, List.length_append, List.length_cons]
    rw [hlength] at hexit
    rwa [show stop + after.length = base + (test.length + (code.length + 1) + (after.length + 1)) by
      simp only [stop]; omega]
  rw [List.append_assoc] at hlevel
  have hstart := level_begin h hlevel
  obtain ⟨htest, hbranch, hlevel⟩ := (along_append _ _ base).mp hlevel
  rw [length_levels n base condition] at hbranch hlevel
  obtain ⟨hbodyLevel, hjump, hrest⟩ := (along_append _ _ _).mp hlevel
  rw [length_statementLevels n (base + test.length + 1) body] at hjump hrest
  obtain ⟨hstop, hafter⟩ := hafter hrest hend
  -- the jump behind the body has depth `n`, so the body begins with no more
  have hinside := level_statements body hbody hbodyLevel (Nat.le_of_eq hjump)
  rw [show guarded = test ++ _ from List.append_assoc ..]
  refine (along_append _ _ base).mpr ⟨?_, ⟨?_, ?_⟩, ?_⟩
  · exact backs_expression n base condition h htest (Nat.le_of_eq hbranch)
  · rw [hbranch]
    exact Nat.le_add_left _ _
  · intro next hnext
    rw [hbranch]
    rcases List.mem_pair.mp hnext with rfl | rfl
    · exact hinside
    · exact hstop
  · refine (along_append _ _ _).mpr ⟨hcode _ hbodyLevel (Nat.le_of_eq hjump), ⟨?_, ?_⟩, hafter⟩
    · exact Nat.zero_le _
    · intro next hnext
      rw [List.mem_singleton.mp hnext, hjump]
      exact htarget hstart hend

mutual

/-- A statement finds what it pops, and does not go below the depth that it begins with. -/
theorem backs_statement (n base : Nat) : ∀ s : Node, s.isStatement = true →
    Assigns level base (s.levels n) → level (base + (draft base s).length) ≤ n →
    Backs level base (draft base s)
  | .number x, h, hlevel, hexit => backs_expression n base _ h hlevel (Nat.le_succ_of_le hexit)
  | .string s, h, hlevel, hexit => backs_expression n base _ h hlevel (Nat.le_succ_of_le hexit)
  | .identifier s, h, hlevel, hexit => backs_expression n base _ h hlevel (Nat.le_succ_of_le hexit)
  | .binary .., h, hlevel, hexit => backs_expression n base _ h hlevel (Nat.le_succ_of_le hexit)
  | .unary .., h, hlevel, hexit => backs_expression n base _ h hlevel (Nat.le_succ_of_le hexit)
  | .call .., h, hlevel, hexit => backs_expression n base _ h hlevel (Nat.le_succ_of_le hexit)
  | .assign name value, h, hlevel, hexit =>
    backs_value h hlevel hexit rfl fun next h => List.mem_singleton.mp h
  | .define .., _, _, _ => trivial
  | .branch condition thenBody none, h, hlevel, hexit => by
    rw [Node.isStatement, Bool.and_eq_true] at h
    exact backs_guarded h.1 h.2 hlevel hexit (fun _ hend => hend)
      (fun start => backs_statements n start thenBody h.2) fun _ hend => ⟨hend, trivial⟩
  | .branch condition thenBody (some elseBody), h, hlevel, hexit => by
    rw [Node.isStatement, Bool.and_eq_true, Bool.and_eq_true] at h
    exact backs_guarded h.1.1 h.1.2 hlevel hexit (fun _ hend => hend)
      (fun start => backs_statements n start thenBody h.1.2)
      fun helse hend => ⟨level_statements elseBody h.2 helse hend,
        backs_statements n _ elseBody h.2 helse hend⟩
  | .loop condition body, h, hlevel, hexit => by
    rw [Node.isStatement, Bool.and_eq_true] at h
    exact backs_guarded h.1 h.2 hlevel hexit (fun hstart _ => hstart)
      (fun start => backs_statements n start body h.2) fun _ hend => ⟨hend, trivial⟩
  | .ret none, _, ⟨hn, hsucc, _⟩, hexit => by
    refine ⟨⟨Nat.zero_le _, ?_⟩, ⟨?_, fun next h => nomatch h⟩, trivial⟩
    · intro next h
      rw [List.mem_singleton.mp h, hsucc, hn]
      exact Nat.le_refl _
    · rw [hsucc]
      exact Nat.le_add_left _ _
  | .ret (some value), h, hlevel, hexit =>
    backs_value h hlevel hexit rfl fun next h => nomatch h
  | .print value, h, hlevel, hexit =>
    backs_value h hlevel hexit rfl fun next h => List.mem_singleton.mp h

theorem backs_statements (n base : Nat) : ∀ ss : List Node, areStatements ss = true →
    Assigns level base (statementLevels n ss) →
    level (base + (draftAll base ss).length) ≤ n → Backs level base (draftAll base ss)
  | [], _, _, _ => trivial
  | s :: ss, h, hlevel, hexit => by
    rw [areStatements, Bool.and_eq_true] at h
    obtain ⟨hs, hss⟩ := (along_append _ _ base).mp hlevel
    rw [length_levels n base s] at hss
    rw [draftAll, List.length_append, ← Nat.add_assoc] at hexit
    have hmiddle := level_statements ss h.2 hss hexit
    refine (along_append _ _ base).mpr ⟨backs_statement n base s h.1 hs hmiddle, ?_⟩
    exact backs_statements n _ ss h.2 hss hexit

end

end

/-! ### Function bodies -/

mutual

/-- Nothing is defined inside an expression. -/
theorem definitions_of_isExpression : ∀ e : Node, e.isExpression = true → e.definitions = []
  | .number _, _ => rfl
  | .string _, _ => rfl
  | .identifier _, _ => rfl
  | .binary _ left right, h => by
    rw [Node.isExpression, Bool.and_eq_true] at h
    rw [Node.definitions, definitions_of_isExpression left h.1,
      definitions_of_isExpression right h.2]
    rfl
  | .unary _ operand, h => definitions_of_isExpression operand h
  | .call _ arguments, h => definitionsAll_of_areExpressions arguments h

theorem definitionsAll_of_areExpressions : ∀ es : List Node, areExpressions es = true →
    definitionsAll es = []
  | [], _ => rfl
  | e :: es, h => by
    rw [areExpressions, Bool.and_eq_true] at h
    rw [definitionsAll, definitions_of_isExpression e h.1, definitionsAll_of_areExpressions es h.2]
    rfl

end

theorem not_mem_definitions {d : FunctionDef} {e : Node} (h : e.isExpression = true) :
    d ∉ e.definitions := by
  rw [definitions_of_isExpression e h]
  exact List.not_mem_nil

mutual

/-- The bodies that are defined inside a statement hold statements. -/
theorem areStatements_body {d : FunctionDef} : ∀ s : Node, s.isStatement = true →
    d ∈ s.definitions → areStatements d.body = true
  | .number _, h, hd => absurd hd (not_mem_definitions h)
  | .string _, h, hd => absurd hd (not_mem_definitions h)
  | .identifier _, h, hd => absurd hd (not_mem_definitions h)
  | .binary .., h, hd => absurd hd (not_mem_definitions h)
  | .unary .., h, hd => absurd hd (not_mem_definitions h)
  | .call .., h, hd => absurd hd (not_mem_definitions h)
  | .assign _ value, h, hd => absurd hd (not_mem_definitions (e := value) h)
  | .define _ _ body, h, hd => by
    rcases List.mem_cons.mp hd with rfl | hd
    · exact h
    · exact areStatements_bodyAll body h hd
  | .branch condition thenBody none, h, hd => by
    rw [Node.isStatement, Bool.and_eq_true] at h
    rcases List.mem_append.mp hd with hd | hd
    · exact absurd hd (not_mem_definitions h.1)
    · exact areStatements_bodyAll thenBody h.2 hd
  | .branch condition thenBody (some elseBody), h, hd => by
    rw [Node.isStatement, Bool.and_eq_true, Bool.and_eq_true] at h
    rw [Node.definitions, List.append_assoc, List.mem_append, List.mem_append] at hd
    rcases hd with hd | hd | hd
    · exact absurd hd (not_mem_definitions h.1.1)
    · exact areStatements_bodyAll thenBody h.1.2 hd
    · exact areStatements_bodyAll elseBody h.2 hd
  | .loop condition body, h, hd => by
    rw [Node.isStatement, Bool.and_eq_true] at h
    rcases List.mem_append.mp hd with hd | hd
    · exact absurd hd (not_mem_definitions h.1)
    · exact areStatements_bodyAll body h.2 hd
  | .ret none, _, hd => nomatch hd
  | .ret (some value), h, hd => absurd hd (not_mem_definitions (e := value) h)
  | .print value, h, hd => absurd hd (not_mem_definitions (e := value) h)

theorem areStatements_bodyAll {d : FunctionDef} : ∀ ss : List Node, areStatements ss = true →
    d ∈ definitionsAll ss → areStatements d.body = true
  | [], _, hd => nomatch hd
  | s :: ss, h, hd => by
    rw [areStatements, Bool.and_eq_true] at h
    rcases List.mem_append.mp hd with hd | hd
    · exact areStatements_body s h.1 hd
    · exact areStatements_bodyAll ss h.2 hd

end

/-! ### Compiled code -/

/-- The code of statements on their own finds what it pops. -/
theorem settle_neverUnderflows {nodes : List Node} (h : areStatements nodes = true) :
    NeverUnderflows (settle [] (draftAll 0 nodes)).1 := by
  let level : Nat → Nat := fun k => (statementLevels 0 nodes)[k]?.getD 0
  have hlevel : Assigns level 0 (statementLevels 0 nodes) := assigns_getD _ 0 []
  -- nothing is popped behind the code, so that nothing has to be on the stack there
  have hexit : level (0 + (draftAll 0 nodes).length) ≤ 0 := by
    simp [level, ← length_statementLevels 0 0 nodes]
  have hbacks := backs_statements 0 0 nodes h hlevel hexit
  refine neverUnderflows_of_supported level ?_ ?_
  · exact Nat.le_zero.mp (level_statements nodes h hlevel hexit)
  · intro position i hi
    have hsupported := hbacks.supported (stands_settle _ []) hi
    rwa [Nat.zero_add] at hsupported

/-- The code of a program that the parser returns, and the code of each function in it, finds what
it pops on every path. -/
theorem compile_neverUnderflows {ts : List Token} {program : Program} (h : parse ts = .ok program)
    (name : String) :
    NeverUnderflows (compile name program).code ∧
      ∀ f ∈ (compile name program).functions.entries, NeverUnderflows f.2.code := by
  have hprogram := areStatements_of_parse h
  constructor
  · rw [compile_eq]
    exact settle_neverUnderflows hprogram
  · intro f hf
    rw [functions_compile] at hf
    -- a function comes from a definition, and its body is compiled as a program is
    obtain ⟨b, hb, rfl⟩ := List.mem_map.mp hf
    obtain ⟨d, hd, rfl⟩ := exists_definition_of_body hb
    show NeverUnderflows (compileBody d.body).code
    rw [compileBody_eq]
    exact settle_neverUnderflows (areStatements_bodyAll program hprogram hd)

/-- The tokens of `while (x) { f("s", x); x  if (x) { x } else { } } func f(a) { return }`: each
round of the loop leaves values behind, and how many depends on the branch. -/
theorem compile_neverUnderflows_of_loop :
    let ts : List Token := [⟨.whileWord, "while", ⟨1, 1⟩⟩, ⟨.leftParen, "(", ⟨1, 7⟩⟩,
      ⟨.identifier, "x", ⟨1, 8⟩⟩, ⟨.rightParen, ")", ⟨1, 9⟩⟩, ⟨.leftBrace, "\x7b", ⟨1, 11⟩⟩,
      ⟨.identifier, "f", ⟨1, 13⟩⟩, ⟨.leftParen, "(", ⟨1, 14⟩⟩, ⟨.string, "s", ⟨1, 15⟩⟩,
      ⟨.comma, ",", ⟨1, 18⟩⟩, ⟨.identifier, "x", ⟨1, 20⟩⟩, ⟨.rightParen, ")", ⟨1, 21⟩⟩,
      ⟨.semicolon, ";", ⟨1, 22⟩⟩, ⟨.identifier, "x", ⟨1, 24⟩⟩, ⟨.newline, "\n", ⟨1, 25⟩⟩,
      ⟨.ifWord, "if", ⟨2, 1⟩⟩, ⟨.leftParen, "(", ⟨2, 4⟩⟩, ⟨.identifier, "x", ⟨2, 5⟩⟩,
      ⟨.rightParen, ")", ⟨2, 6⟩⟩, ⟨.leftBrace, "\x7b", ⟨2, 8⟩⟩, ⟨.identifier, "x", ⟨2, 10⟩⟩,
      ⟨.rightBrace, "\x7d", ⟨2, 12⟩⟩, ⟨.elseWord, "else", ⟨2, 14⟩⟩, ⟨.leftBrace, "\x7b", ⟨2, 19⟩⟩,
      ⟨.rightBrace, "\x7d", ⟨2, 21⟩⟩, ⟨.rightBrace, "\x7d", ⟨2, 23⟩⟩, ⟨.funcWord, "func", ⟨2, 25⟩⟩,
      ⟨.identifier, "f", ⟨2, 30⟩⟩, ⟨.leftParen, "(", ⟨2, 31⟩⟩, ⟨.identifier, "a", ⟨2, 32⟩⟩,
      ⟨.rightParen, ")", ⟨2, 33⟩⟩, ⟨.leftBrace, "\x7b", ⟨2, 35⟩⟩, ⟨.returnWord, "return", ⟨2, 37⟩⟩,
      ⟨.rightBrace, "\x7d", ⟨2, 44⟩⟩]
    let program : Program := [.loop (.identifier "x")
        [.call "f" [.string "s", .identifier "x"], .identifier "x",
          .branch (.identifier "x") [.identifier "x"] (some [])],
      .define "f" ["a"] [.ret none]]
    parse ts = .ok program ∧ NeverUnderflows (compile "m" program).code ∧
      ∀ f ∈ (compile "m" program).functions.entries, NeverUnderflows f.2.code := by
  intro ts program
  have h : parse ts = .ok program := rfl
  exact ⟨h, compile_neverUnderflows h "m"⟩

/-- The parser matters: no statement is a value in what it returns. -/
example : ¬NeverUnderflows (compile "m" [.print (.print (.identifier "x"))]).code := by
  intro h
  have hloaded : Reaches (compile "m" [.print (.print (.identifier "x"))]).code 1 1 :=
    .step .start (i := .loadVar "x") rfl (.head _)
  have hprinted := Reaches.step hloaded (i := .print) rfl (.head _)
  exact absurd (h 2 0 .print hprinted rfl) (by decide)

end StackScript
