import StackScript.Compiler
import StackScript.Proofs.ConstantPool
import StackScript.Proofs.Table

/-!
Code before its constants have places.

Emission does two things at once: it lays out instructions with their jump targets, and it puts the
literals that it meets into a pool. Here they are taken apart. A draft is code with the literals
themselves in it; it depends on the node and on the place where the code begins, and on nothing
else.

* `draft`, `draftAll`: the draft of a node, and of nodes one after the other;
* `settle`: the code of a draft over a pool, and the pool with its literals;
* `Node.definitions`, `definitionsAll`: the function definitions inside a node, each before those in
  its body;
* `emits_draft`, `emitsAll_draftAll`: emission settles the draft and inserts the definitions, each
  compiled on its own;
* `Draft.Stands`, `stands_settle`: what an instruction over a pool has in common with its draft.
-/

namespace StackScript

/-- An instruction whose constant has no place in a pool yet. -/
inductive Draft where
  | literal (c : Constant)
  | plain (i : Instruction)

/-- The code of a draft over a pool, and the pool with the literals of the draft. -/
def settle (pool : ConstantPool) : List Draft → List Instruction × ConstantPool
  | [] => ([], pool)
  | .literal c :: ds =>
    let (i, pool) := pool.place c
    let (code, pool) := settle pool ds
    (.loadConst i :: code, pool)
  | .plain i :: ds =>
    let (code, pool) := settle pool ds
    (i :: code, pool)

mutual

/-- The draft of a node whose code begins at `base`. -/
def draft (base : Nat) : Node → List Draft
  | .number x => [.literal (.number x)]
  | .string s => [.literal (.string s)]
  | .identifier name => [.plain (.loadVar name)]
  | .binary op left right =>
    let l := draft base left
    l ++ draft (base + l.length) right ++ [.plain (.binary op)]
  | .unary op operand => draft base operand ++ [.plain (.unary op)]
  | .assign name value => draft base value ++ [.plain (.storeVar name)]
  | .call name arguments =>
    draftAll base arguments ++ [.plain (.call name arguments.length)]
  | .define .. => []
  | .branch condition thenBody none =>
    let test := draft base condition
    let thenCode := draftAll (base + test.length + 1) thenBody
    let stop := base + test.length + 1 + thenCode.length + 1
    test ++ .plain (.jumpIfFalse stop) :: thenCode ++ [.plain (.jump stop)]
  | .branch condition thenBody (some elseBody) =>
    let test := draft base condition
    let thenCode := draftAll (base + test.length + 1) thenBody
    let elseStart := base + test.length + 1 + thenCode.length + 1
    let elseCode := draftAll elseStart elseBody
    test ++ .plain (.jumpIfFalse elseStart) :: thenCode
      ++ .plain (.jump (elseStart + elseCode.length)) :: elseCode
  | .loop condition body =>
    let test := draft base condition
    let code := draftAll (base + test.length + 1) body
    test ++ .plain (.jumpIfFalse (base + test.length + 1 + code.length + 1)) :: code
      ++ [.plain (.jump base)]
  | .ret none => [.literal .none, .plain .ret]
  | .ret (some value) => draft base value ++ [.plain .ret]
  | .print value => draft base value ++ [.plain .print]

/-- The draft of nodes one after the other whose code begins at `base`. -/
def draftAll (base : Nat) : List Node → List Draft
  | [] => []
  | node :: nodes =>
    let first := draft base node
    first ++ draftAll (base + first.length) nodes

end

mutual

/-- The function definitions inside a node, each before those in its body. -/
def Node.definitions : Node → List FunctionDef
  | .number _ => []
  | .string _ => []
  | .identifier _ => []
  | .binary _ left right => left.definitions ++ right.definitions
  | .unary _ operand => operand.definitions
  | .assign _ value => value.definitions
  | .call _ arguments => definitionsAll arguments
  | .define name parameters body => ⟨name, parameters, body⟩ :: definitionsAll body
  | .branch condition thenBody none => condition.definitions ++ definitionsAll thenBody
  | .branch condition thenBody (some elseBody) =>
    condition.definitions ++ definitionsAll thenBody ++ definitionsAll elseBody
  | .loop condition body => condition.definitions ++ definitionsAll body
  | .ret none => []
  | .ret (some value) => value.definitions
  | .print value => value.definitions

/-- The function definitions inside nodes, in order. -/
def definitionsAll : List Node → List FunctionDef
  | [] => []
  | node :: nodes => node.definitions ++ definitionsAll nodes

end

/-- A function body compiled on its own. -/
def compileBody (body : List Node) : CompiledFunction :=
  let (code, e) := emitAll 0 body {}
  ⟨code, e.constants⟩

/-- A definition compiled on its own, under its name. -/
def FunctionDef.compiled (d : FunctionDef) : String × CompiledFunction :=
  (d.name, compileBody d.body)

/-! ### Settling -/

theorem settle_append (ds es : List Draft) : ∀ pool : ConstantPool,
    settle pool (ds ++ es)
      = ((settle pool ds).1 ++ (settle (settle pool ds).2 es).1,
          (settle (settle pool ds).2 es).2) := by
  induction ds with
  | nil => exact fun pool => rfl
  | cons d ds ih =>
    intro pool
    cases d with
    | literal c => simp only [List.cons_append, settle, ih]
    | plain i => simp only [List.cons_append, settle, ih]

@[simp] theorem length_settle (ds : List Draft) : ∀ pool : ConstantPool,
    (settle pool ds).1.length = ds.length := by
  induction ds with
  | nil => exact fun pool => rfl
  | cons d ds ih =>
    intro pool
    cases d with
    | literal c => simp only [settle, List.length_cons, ih]
    | plain i => simp only [settle, List.length_cons, ih]

/-! ### Emission settles the draft -/

/-- An emission with the literals of a draft and the definitions that were met with it. -/
def Emission.grown (e : Emission) (ds : List Draft) (fs : List FunctionDef)
    (hoisted : List (String × String)) : Emission where
  constants := (settle e.constants ds).2
  functions := e.functions.insertAll (fs.map FunctionDef.compiled)
  hoisted := hoisted

/-- A computation emits the code of a draft and adds definitions. The log of what was moved out of
what is left open. -/
def Emits (emission : Emit (List Instruction)) (ds : List Draft) (fs : List FunctionDef) : Prop :=
  ∀ e : Emission, ∃ hoisted, emission e = ((settle e.constants ds).1, e.grown ds fs hoisted)

/-- One more instruction after some code. -/
theorem Emits.snoc {x : Emit (List Instruction)} {ds : List Draft} {fs : List FunctionDef}
    (hx : Emits x ds fs) (i : Instruction) :
    Emits (do let code ← x; return code ++ [i]) (ds ++ [.plain i]) fs := by
  intro e
  obtain ⟨h, hx⟩ := hx e
  refine ⟨h, ?_⟩
  simp [bind, StateT.bind, pure, StateT.pure, hx, settle_append, settle, Emission.grown]

/-- Code in two parts, of which the second knows the length of the first, put together to the code
of one draft. -/
theorem Emits.pair {x : Emit (List Instruction)}
    {y : List Instruction → Emit (List Instruction)} {ds all : List Draft}
    {fs gs : List FunctionDef} {join : List Instruction → List Instruction → List Instruction}
    (hx : Emits x ds fs) (es : List Draft)
    (hy : ∀ code, code.length = ds.length → Emits (y code) es gs)
    (hall : ∀ pool, settle pool all
      = (join (settle pool ds).1 (settle (settle pool ds).2 es).1,
          (settle (settle pool ds).2 es).2)) :
    Emits (do let first ← x; let second ← y first; return join first second) all (fs ++ gs) := by
  intro e
  obtain ⟨h₁, hx⟩ := hx e
  obtain ⟨h₂, hy⟩ := hy _ (length_settle ds e.constants)
    (e.grown ds fs h₁)
  refine ⟨h₂, ?_⟩
  simp only [bind, StateT.bind, pure, StateT.pure, hx, hy]
  simp only [Emission.grown, hall, List.map_append, Table.insertAll_append]

mutual

/-- Emission of a node settles its draft and inserts its definitions. -/
theorem emits_draft (base : Nat) : ∀ node : Node,
    Emits (emit base node) (draft base node) node.definitions
  | .number x => fun e => ⟨e.hoisted, rfl⟩
  | .string s => fun e => ⟨e.hoisted, rfl⟩
  | .identifier name => fun e => ⟨e.hoisted, rfl⟩
  | .binary op left right =>
    (emits_draft base left).pair (draft (base + (draft base left).length) right)
      (fun code h => by rw [h]; exact emits_draft _ right)
      (fun pool => by simp [draft, settle_append, settle])
  | .unary op operand => (emits_draft base operand).snoc _
  | .assign name value => (emits_draft base value).snoc _
  | .call name arguments => (emitsAll_draftAll base arguments).snoc _
  | .define name parameters body => by
    intro e
    obtain ⟨h, hbody⟩ := emitsAll_draftAll 0 body {}
    have hcompiled : compileBody body
        = ⟨(settle [] (draftAll 0 body)).1, (settle [] (draftAll 0 body)).2⟩ := by
      rw [compileBody, hbody]
      rfl
    -- the body has a table of its own, which is poured into the one around it
    have hpour := Table.insertAll_entries_ofPairs (e.functions.insert name (compileBody body))
      ((definitionsAll body).map FunctionDef.compiled)
    refine ⟨(emit base (.define name parameters body) e).2.hoisted, ?_⟩
    rw [emit, hbody]
    simp only [Emission.addFunction, Emission.grown, draft, settle, Node.definitions,
      List.map_cons, Table.insertAll_cons, FunctionDef.compiled]
    rw [← hpour, hcompiled]
    rfl
  | .branch condition thenBody none =>
    (emits_draft base condition).pair
      (draftAll (base + (draft base condition).length + 1) thenBody)
      (fun code h => by rw [h]; exact emitsAll_draftAll _ thenBody)
      (fun pool => by simp [draft, settle_append, settle])
  | .branch condition thenBody (some elseBody) => by
    -- three parts, each after the literals of those before it
    intro e
    obtain ⟨h₁, htest⟩ := emits_draft base condition e
    set e₁ := e.grown (draft base condition) condition.definitions h₁
    obtain ⟨h₂, hthen⟩ := emitsAll_draftAll (base + (draft base condition).length + 1) thenBody e₁
    set thenCode := draftAll (base + (draft base condition).length + 1) thenBody
    obtain ⟨h₃, helse⟩ := emitsAll_draftAll
      (base + (draft base condition).length + 1 + thenCode.length + 1) elseBody
      (e₁.grown thenCode (definitionsAll thenBody) h₂)
    refine ⟨h₃, ?_⟩
    simp only [emit, bind, StateT.bind, pure, StateT.pure, htest, length_settle, hthen, helse]
    simp [e₁, thenCode, draft, Node.definitions, Emission.grown, settle_append, settle,
      Table.insertAll_append]
  | .loop condition body =>
    (emits_draft base condition).pair (draftAll (base + (draft base condition).length + 1) body)
      (fun code h => by rw [h]; exact emitsAll_draftAll _ body)
      (fun pool => by simp [draft, settle_append, settle])
  | .ret none => fun e => ⟨e.hoisted, rfl⟩
  | .ret (some value) => (emits_draft base value).snoc _
  | .print value => (emits_draft base value).snoc _

/-- Emission of nodes one after the other settles their draft and inserts their definitions. -/
theorem emitsAll_draftAll (base : Nat) : ∀ nodes : List Node,
    Emits (emitAll base nodes) (draftAll base nodes) (definitionsAll nodes)
  | [] => fun e => ⟨e.hoisted, rfl⟩
  | node :: nodes =>
    (emits_draft base node).pair (draftAll (base + (draft base node).length) nodes)
      (fun code h => by rw [h]; exact emitsAll_draftAll _ nodes)
      (fun pool => by simp [draftAll, settle_append])

end

/-! ### Compiled code -/

theorem compileBody_eq (body : List Node) :
    compileBody body = ⟨(settle [] (draftAll 0 body)).1, (settle [] (draftAll 0 body)).2⟩ := by
  obtain ⟨h, hbody⟩ := emitsAll_draftAll 0 body {}
  rw [compileBody, hbody]
  rfl

theorem compile_eq (name : String) (program : Program) :
    compile name program
      = { name := name
          code := (settle [] (draftAll 0 program)).1
          constants := (settle [] (draftAll 0 program)).2
          functions := Table.ofPairs ((definitionsAll program).map FunctionDef.compiled) } := by
  obtain ⟨h, hprogram⟩ := emitsAll_draftAll 0 program {}
  rw [compile, compileWithNotices, hprogram]
  rfl

/-- The body that each defined name has in the end. -/
def bodies (program : Program) : Table (List Node) :=
  Table.ofPairs ((definitionsAll program).map fun d => (d.name, d.body))

theorem nodup_names_bodies (program : Program) : (bodies program).names.Nodup :=
  Table.nodup_names_insertAll _ List.nodup_nil

/-- A body in the table is that of a definition in the program. -/
theorem exists_definition_of_body {program : Program} {b : String × List Node}
    (h : b ∈ (bodies program).entries) :
    ∃ d ∈ definitionsAll program, b = (d.name, d.body) := by
  rcases Table.mem_entries_insertAll _ h with h | h
  · exact absurd h List.not_mem_nil
  · obtain ⟨d, hd, rfl⟩ := List.mem_map.mp h
    exact ⟨d, hd, rfl⟩

/-- The functions of a unit are the bodies, each compiled on its own. -/
theorem functions_compile (name : String) (program : Program) :
    (compile name program).functions = (bodies program).mapValues compileBody := by
  rw [compile_eq, bodies, Table.ofPairs, Table.ofPairs, Table.mapValues_insertAll, List.map_map]
  rfl

/-- A function of a unit is a definition in the program, compiled on its own. -/
theorem exists_definition_of_function {name : String} {program : Program}
    {f : String × CompiledFunction} (h : f ∈ (compile name program).functions.entries) :
    ∃ d ∈ definitionsAll program, f = d.compiled := by
  rw [functions_compile] at h
  obtain ⟨b, hb, rfl⟩ := List.mem_map.mp h
  obtain ⟨d, hd, rfl⟩ := exists_definition_of_body hb
  exact ⟨d, hd, rfl⟩

/-! ### Programs one after the other -/

theorem draftAll_append (p q : List Node) : ∀ base : Nat,
    draftAll base (p ++ q)
      = draftAll base p ++ draftAll (base + (draftAll base p).length) q := by
  induction p with
  | nil => exact fun base => rfl
  | cons node p ih =>
    intro base
    simp only [List.cons_append, draftAll, ih, List.append_assoc, List.length_append, Nat.add_assoc]

theorem definitionsAll_append (p q : List Node) :
    definitionsAll (p ++ q) = definitionsAll p ++ definitionsAll q := by
  induction p with
  | nil => rfl
  | cons node p ih => simp only [List.cons_append, definitionsAll, ih, List.append_assoc]

/-- Programs without a common function name put their tables one after the other. -/
theorem entries_bodies_append {p q : Program}
    (h : List.Disjoint (bodies p).names (bodies q).names) :
    (bodies (p ++ q)).entries = (bodies p).entries ++ (bodies q).entries := by
  -- the definitions of `q` put one by one, or gathered first: the table is the same
  have hpour : bodies (p ++ q) = (bodies p).insertAll (bodies q).entries := by
    rw [bodies, definitionsAll_append, List.map_append, Table.ofPairs, Table.insertAll_append]
    exact (Table.insertAll_entries_ofPairs _ _).symm
  rw [hpour, Table.entries_insertAll _ (nodup_names_bodies q)]
  intro b hb hmem
  exact h hmem (List.mem_map_of_mem hb)

/-! ### Drafts and the code that is made of them -/

/-- An instruction over a pool does what its draft says: it loads a constant like the literal, or it
is the instruction itself. -/
def Draft.Stands (pool : ConstantPool) : Draft → Instruction → Prop
  | .literal c, .loadConst i => pool.Holds i c
  | .literal _, _ => False
  | .plain i, j => i = j

theorem Draft.Stands.mono {pool more : ConstantPool} {d : Draft} {i : Instruction}
    (h : d.Stands pool i) (hp : pool <+: more) : d.Stands more i := by
  cases d with
  | literal c =>
    cases i with
    | loadConst k => exact ConstantPool.Holds.mono h hp
    | _ => exact h
  | plain j => exact h

theorem prefix_settle (ds : List Draft) : ∀ pool : ConstantPool, pool <+: (settle pool ds).2 := by
  induction ds with
  | nil => exact fun pool => List.prefix_rfl
  | cons d ds ih =>
    intro pool
    cases d with
    | literal c => exact (pool.prefix_place c).trans (ih _)
    | plain i => exact ih pool

/-- The code of a draft stands for it. -/
theorem stands_settle (ds : List Draft) : ∀ pool : ConstantPool,
    List.Forall₂ (Draft.Stands (settle pool ds).2) ds (settle pool ds).1 := by
  induction ds with
  | nil => exact fun pool => .nil
  | cons d ds ih =>
    intro pool
    cases d with
    | literal c => exact .cons ((pool.holds_place c).mono (prefix_settle ds _)) (ih _)
    | plain i => exact .cons rfl (ih pool)

/-- Each instruction of code that stands for a draft has a place in the draft. -/
theorem exists_draft_of_mem {pool : ConstantPool} {ds : List Draft} {code : List Instruction}
    (h : List.Forall₂ (Draft.Stands pool) ds code) {i : Instruction} (hi : i ∈ code) :
    ∃ d ∈ ds, d.Stands pool i := by
  induction h with
  | nil => exact absurd hi List.not_mem_nil
  | cons hd _ ih =>
    rcases List.mem_cons.mp hi with rfl | hi
    · exact ⟨_, List.mem_cons_self, hd⟩
    · obtain ⟨d, hmem, hstands⟩ := ih hi
      exact ⟨d, List.mem_cons_of_mem _ hmem, hstands⟩

/-! ### Moving a draft -/

/-- An instruction with its jump target moved. -/
def Instruction.shift (offset : Nat) : Instruction → Instruction
  | .jump t => .jump (t + offset)
  | .jumpIfFalse t => .jumpIfFalse (t + offset)
  | i => i

/-- A draft with its jump target moved. -/
def Draft.shift (offset : Nat) : Draft → Draft
  | .literal c => .literal c
  | .plain i => .plain (i.shift offset)

@[simp] theorem Draft.shift_zero (d : Draft) : d.shift 0 = d := by
  cases d with
  | literal c => rfl
  | plain i => cases i <;> rfl

mutual

/-- The code of a node depends on its place by the jump targets alone. -/
theorem draft_shift (offset base : Nat) : ∀ node : Node,
    draft (base + offset) node = (draft base node).map (Draft.shift offset)
  | .number x => rfl
  | .string s => rfl
  | .identifier name => rfl
  | .binary op left right => by
    have hr := draft_shift offset (base + (draft base left).length) right
    rw [show base + (draft base left).length + offset
      = base + offset + (draft base left).length by omega] at hr
    simp [draft, draft_shift offset base left, hr, Draft.shift, Instruction.shift]
  | .unary op operand => by
    simp [draft, draft_shift offset base operand, Draft.shift, Instruction.shift]
  | .assign name value => by
    simp [draft, draft_shift offset base value, Draft.shift, Instruction.shift]
  | .call name arguments => by
    simp [draft, draftAll_shift offset base arguments, Draft.shift, Instruction.shift]
  | .define name parameters body => rfl
  | .branch condition thenBody none => by
    have hthen := draftAll_shift offset (base + (draft base condition).length + 1) thenBody
    rw [show base + (draft base condition).length + 1 + offset
      = base + offset + (draft base condition).length + 1 by omega] at hthen
    simp [draft, draft_shift offset base condition, hthen, Draft.shift, Instruction.shift]
    omega
  | .branch condition thenBody (some elseBody) => by
    have hthen := draftAll_shift offset (base + (draft base condition).length + 1) thenBody
    rw [show base + (draft base condition).length + 1 + offset
      = base + offset + (draft base condition).length + 1 by omega] at hthen
    set thenCode := draftAll (base + (draft base condition).length + 1) thenBody with hcode
    have helse := draftAll_shift offset
      (base + (draft base condition).length + 1 + thenCode.length + 1) elseBody
    rw [show base + (draft base condition).length + 1 + thenCode.length + 1 + offset
      = base + offset + (draft base condition).length + 1 + thenCode.length + 1 by omega] at helse
    simp [draft, draft_shift offset base condition, hthen, helse, ← hcode, Draft.shift,
      Instruction.shift]
    omega
  | .loop condition body => by
    have hbody := draftAll_shift offset (base + (draft base condition).length + 1) body
    rw [show base + (draft base condition).length + 1 + offset
      = base + offset + (draft base condition).length + 1 by omega] at hbody
    simp [draft, draft_shift offset base condition, hbody, Draft.shift, Instruction.shift]
    omega
  | .ret none => rfl
  | .ret (some value) => by
    simp [draft, draft_shift offset base value, Draft.shift, Instruction.shift]
  | .print value => by
    simp [draft, draft_shift offset base value, Draft.shift, Instruction.shift]

theorem draftAll_shift (offset base : Nat) : ∀ nodes : List Node,
    draftAll (base + offset) nodes = (draftAll base nodes).map (Draft.shift offset)
  | [] => rfl
  | node :: nodes => by
    have hr := draftAll_shift offset (base + (draft base node).length) nodes
    rw [show base + (draft base node).length + offset
      = base + offset + (draft base node).length by omega] at hr
    simp [draftAll, draft_shift offset base node, hr]

end

/-- The code of one program behind that of another is moved by the length of that. -/
theorem draftAll_append_shift (p q : Program) :
    draftAll 0 (p ++ q)
      = draftAll 0 p ++ (draftAll 0 q).map (Draft.shift (draftAll 0 p).length) := by
  rw [draftAll_append, draftAll_shift]

/-- A draft without indices into a pool, whose jumps do not go past `stop`. -/
def Draft.Within (stop : Nat) : Draft → Prop
  | .plain (.loadConst _) => False
  | .plain (.jump t) => t ≤ stop
  | .plain (.jumpIfFalse t) => t ≤ stop
  | _ => True

theorem Draft.Within.mono {d : Draft} {stop stop' : Nat} (h : d.Within stop)
    (hs : stop ≤ stop') : d.Within stop' := by
  cases d with
  | literal c => trivial
  | plain i =>
    cases i with
    | jump t => exact Nat.le_trans h hs
    | jumpIfFalse t => exact Nat.le_trans h hs
    | loadConst k => exact h
    | _ => trivial

/-- All of a draft is within the code that ends at `stop`. -/
def AllWithin (stop : Nat) (ds : List Draft) : Prop :=
  ∀ d ∈ ds, d.Within stop

theorem AllWithin.mono {stop stop' : Nat} {ds : List Draft} (h : AllWithin stop ds)
    (hs : stop ≤ stop') : AllWithin stop' ds :=
  fun d hd => (h d hd).mono hs

theorem allWithin_append {stop : Nat} {ds es : List Draft} :
    AllWithin stop (ds ++ es) ↔ AllWithin stop ds ∧ AllWithin stop es :=
  List.forall_mem_append

theorem allWithin_cons {stop : Nat} {d : Draft} {ds : List Draft} :
    AllWithin stop (d :: ds) ↔ d.Within stop ∧ AllWithin stop ds :=
  List.forall_mem_cons

theorem allWithin_nil (stop : Nat) : AllWithin stop [] :=
  List.forall_mem_nil _

theorem AllWithin.snoc {base : Nat} {ds : List Draft} {d : Draft}
    (h : AllWithin (base + ds.length) ds) (hd : d.Within base) :
    AllWithin (base + (ds ++ [d]).length) (ds ++ [d]) := by
  rw [List.length_append, List.length_singleton, allWithin_append, allWithin_cons]
  exact ⟨h.mono (by omega), hd.mono (by omega), allWithin_nil _⟩

mutual

/-- The jumps of a node's code stay in it or go to its end. -/
theorem within_draft (base : Nat) : ∀ node : Node,
    AllWithin (base + (draft base node).length) (draft base node)
  | .number x => (allWithin_nil (base + 0)).snoc trivial
  | .string s => (allWithin_nil (base + 0)).snoc trivial
  | .identifier name => (allWithin_nil (base + 0)).snoc trivial
  | .binary op left right => by
    have hl := within_draft base left
    have hr := within_draft (base + (draft base left).length) right
    refine AllWithin.snoc ?_ trivial
    rw [List.length_append, allWithin_append]
    exact ⟨hl.mono (by omega), hr.mono (by omega)⟩
  | .unary op operand => (within_draft base operand).snoc trivial
  | .assign name value => (within_draft base value).snoc trivial
  | .call name arguments => (withinAll_draftAll base arguments).snoc trivial
  | .define name parameters body => allWithin_nil _
  | .branch condition thenBody none => by
    have htest := within_draft base condition
    have hthen := withinAll_draftAll (base + (draft base condition).length + 1) thenBody
    simp only [draft, allWithin_append, allWithin_cons, List.length_append, List.length_cons,
      List.length_nil]
    exact ⟨⟨htest.mono (by omega), by simp only [Draft.Within]; omega, hthen.mono (by omega)⟩,
      by simp only [Draft.Within]; omega, allWithin_nil _⟩
  | .branch condition thenBody (some elseBody) => by
    have htest := within_draft base condition
    have hthen := withinAll_draftAll (base + (draft base condition).length + 1) thenBody
    have helse := withinAll_draftAll (base + (draft base condition).length + 1
      + (draftAll (base + (draft base condition).length + 1) thenBody).length + 1) elseBody
    simp only [draft, allWithin_append, allWithin_cons, List.length_append, List.length_cons]
    exact ⟨⟨htest.mono (by omega), by simp only [Draft.Within]; omega, hthen.mono (by omega)⟩,
      by simp only [Draft.Within]; omega, helse.mono (by omega)⟩
  | .loop condition body => by
    have htest := within_draft base condition
    have hbody := withinAll_draftAll (base + (draft base condition).length + 1) body
    simp only [draft, allWithin_append, allWithin_cons, List.length_append, List.length_cons,
      List.length_nil]
    exact ⟨⟨htest.mono (by omega), by simp only [Draft.Within]; omega, hbody.mono (by omega)⟩,
      by simp only [Draft.Within]; omega, allWithin_nil _⟩
  | .ret none => ((allWithin_nil (base + 0)).snoc (d := .literal .none) trivial).snoc trivial
  | .ret (some value) => (within_draft base value).snoc trivial
  | .print value => (within_draft base value).snoc trivial

theorem withinAll_draftAll (base : Nat) : ∀ nodes : List Node,
    AllWithin (base + (draftAll base nodes).length) (draftAll base nodes)
  | [] => allWithin_nil _
  | node :: nodes => by
    have hf := within_draft base node
    have hr := withinAll_draftAll (base + (draft base node).length) nodes
    simp only [draftAll, allWithin_append, List.length_append]
    exact ⟨hf.mono (by omega), hr.mono (by omega)⟩

end

end StackScript
