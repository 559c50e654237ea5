import Mathlib
import StackScript.Proofs.Linking

/-!
Separate compilation: units compiled one by one and linked are the program compiled as a whole.

The two sides number constants differently, because linking merges the pools of functions between
those of units. Both stand for the same draft, though, and that is carried from unit to unit.

* `Node.numbers`, `numbersAll`: the number literals of a program;
* `BytecodeUnit.size`: the instructions of a unit, functions included;
* `SameCode`, `SameProgram`: equality of code once each constant stands in the place of its index;
* `Linking.Represents`: a linking state stands for a program;
* `addUnit_represents`, `addUnits_represents`: one more unit, and units one after the other;
* `separate_compilation`: the agreement of both ways of compiling.
-/

namespace StackScript

/-! ### Numbers in a program -/

mutual

/-- The number literals of a node, those of function bodies included. -/
def Node.numbers : Node → List Float
  | .number x => [x]
  | .string _ => []
  | .identifier _ => []
  | .binary _ left right => left.numbers ++ right.numbers
  | .unary _ operand => operand.numbers
  | .assign _ value => value.numbers
  | .call _ arguments => numbersAll arguments
  | .define _ _ body => numbersAll body
  | .branch condition thenBody none => condition.numbers ++ numbersAll thenBody
  | .branch condition thenBody (some elseBody) =>
    condition.numbers ++ numbersAll thenBody ++ numbersAll elseBody
  | .loop condition body => condition.numbers ++ numbersAll body
  | .ret none => []
  | .ret (some value) => value.numbers
  | .print value => value.numbers

/-- The number literals of nodes. -/
def numbersAll : List Node → List Float
  | [] => []
  | node :: nodes => node.numbers ++ numbersAll nodes

end

mutual

/-- A number that is drafted is a literal of the node. -/
theorem mem_numbers_of_draft {x : Float} (base : Nat) : ∀ node : Node,
    .literal (.number x) ∈ draft base node → x ∈ node.numbers
  | .number y => by simp [draft, Node.numbers]
  | .string s => by simp [draft]
  | .identifier name => by simp [draft]
  | .binary op left right => by
    simp only [draft, Node.numbers, List.mem_append, List.mem_singleton, reduceCtorEq, or_false]
    exact Or.imp (mem_numbers_of_draft base left) (mem_numbers_of_draft _ right)
  | .unary op operand => by
    simpa [draft, Node.numbers] using mem_numbers_of_draft base operand
  | .assign name value => by
    simpa [draft, Node.numbers] using mem_numbers_of_draft base value
  | .call name arguments => by
    simpa [draft, Node.numbers] using mem_numbersAll_of_draftAll base arguments
  | .define name parameters body => by simp [draft]
  | .branch condition thenBody none => by
    simp only [draft, Node.numbers, List.mem_append, List.mem_cons, List.not_mem_nil,
      reduceCtorEq, false_or, or_false]
    exact Or.imp (mem_numbers_of_draft base condition) (mem_numbersAll_of_draftAll _ thenBody)
  | .branch condition thenBody (some elseBody) => by
    simp only [draft, Node.numbers, List.mem_append, List.mem_cons, reduceCtorEq, false_or]
    exact Or.imp (Or.imp (mem_numbers_of_draft base condition)
      (mem_numbersAll_of_draftAll _ thenBody)) (mem_numbersAll_of_draftAll _ elseBody)
  | .loop condition body => by
    simp only [draft, Node.numbers, List.mem_append, List.mem_cons, List.not_mem_nil,
      reduceCtorEq, false_or, or_false]
    exact Or.imp (mem_numbers_of_draft base condition) (mem_numbersAll_of_draftAll _ body)
  | .ret none => by simp [draft]
  | .ret (some value) => by
    simpa [draft, Node.numbers] using mem_numbers_of_draft base value
  | .print value => by
    simpa [draft, Node.numbers] using mem_numbers_of_draft base value

theorem mem_numbersAll_of_draftAll {x : Float} (base : Nat) : ∀ nodes : List Node,
    .literal (.number x) ∈ draftAll base nodes → x ∈ numbersAll nodes
  | [] => by simp [draftAll]
  | node :: nodes => by
    simp only [draftAll, numbersAll, List.mem_append]
    exact Or.imp (mem_numbers_of_draft base node) (mem_numbersAll_of_draftAll _ nodes)

end

mutual

/-- The number literals of a body are literals of the node that defines it. -/
theorem mem_numbers_of_definition {x : Float} {d : FunctionDef} (hx : x ∈ numbersAll d.body) :
    ∀ node : Node, d ∈ node.definitions → x ∈ node.numbers
  | .number y => by simp [Node.definitions]
  | .string s => by simp [Node.definitions]
  | .identifier name => by simp [Node.definitions]
  | .binary op left right => by
    simp only [Node.definitions, Node.numbers, List.mem_append]
    exact Or.imp (mem_numbers_of_definition hx left) (mem_numbers_of_definition hx right)
  | .unary op operand => mem_numbers_of_definition hx operand
  | .assign name value => mem_numbers_of_definition hx value
  | .call name arguments => mem_numbersAll_of_definition hx arguments
  | .define name parameters body => by
    simp only [Node.definitions, Node.numbers, List.mem_cons]
    rintro (rfl | h)
    · exact hx
    · exact mem_numbersAll_of_definition hx body h
  | .branch condition thenBody none => by
    simp only [Node.definitions, Node.numbers, List.mem_append]
    exact Or.imp (mem_numbers_of_definition hx condition)
      (mem_numbersAll_of_definition hx thenBody)
  | .branch condition thenBody (some elseBody) => by
    simp only [Node.definitions, Node.numbers, List.mem_append]
    exact Or.imp (Or.imp (mem_numbers_of_definition hx condition)
      (mem_numbersAll_of_definition hx thenBody)) (mem_numbersAll_of_definition hx elseBody)
  | .loop condition body => by
    simp only [Node.definitions, Node.numbers, List.mem_append]
    exact Or.imp (mem_numbers_of_definition hx condition) (mem_numbersAll_of_definition hx body)
  | .ret none => by simp [Node.definitions]
  | .ret (some value) => mem_numbers_of_definition hx value
  | .print value => mem_numbers_of_definition hx value

theorem mem_numbersAll_of_definition {x : Float} {d : FunctionDef} (hx : x ∈ numbersAll d.body) :
    ∀ nodes : List Node, d ∈ definitionsAll nodes → x ∈ numbersAll nodes
  | [] => by simp [definitionsAll]
  | node :: nodes => by
    simp only [definitionsAll, numbersAll, List.mem_append]
    exact Or.imp (mem_numbers_of_definition hx node) (mem_numbersAll_of_definition hx nodes)

end

theorem numbersAll_append (p q : List Node) :
    numbersAll (p ++ q) = numbersAll p ++ numbersAll q := by
  induction p with
  | nil => rfl
  | cons node p ih => rw [List.cons_append, numbersAll, numbersAll, ih, List.append_assoc]

/-- The number literals of programs one after the other are those of the programs. -/
theorem mem_numbersAll_flatMap {x : Float} {units : List (String × Program)}
    (h : x ∈ numbersAll (units.flatMap (·.2))) : ∃ u ∈ units, x ∈ numbersAll u.2 := by
  induction units with
  | nil => simp [numbersAll] at h
  | cons u units ih =>
    rw [List.flatMap_cons, numbersAll_append, List.mem_append] at h
    rcases h with h | h
    · exact ⟨u, List.mem_cons_self, h⟩
    · obtain ⟨v, hv, hx⟩ := ih h
      exact ⟨v, List.mem_cons_of_mem _ hv, hx⟩

/-! ### Code without indices -/

/-- The number of instructions of a unit, functions included. -/
def BytecodeUnit.size (u : BytecodeUnit) : Nat :=
  u.code.length + (u.functions.entries.map fun f => f.2.code.length).sum

/-- Two instructions are the same once each loaded constant stands in the place of its index. -/
def Instruction.Same (pool pool' : ConstantPool) : Instruction → Instruction → Prop
  | .loadConst i, .loadConst j =>
    ∃ c d, pool[i]? = some c ∧ pool'[j]? = some d ∧ c.equals d = true
  | i, j => i = j

/-- Two streams are the same once each loaded constant stands in the place of its index. -/
def SameCode (pool : ConstantPool) (code : List Instruction) (pool' : ConstantPool)
    (code' : List Instruction) : Prop :=
  List.Forall₂ (Instruction.Same pool pool') code code'

/-- A linked program has the main code of a unit, and functions with the names and the code of those
of the unit, in the same order. -/
structure SameProgram (p : LinkedProgram) (u : BytecodeUnit) : Prop where
  code : SameCode p.constants p.code u.constants u.code
  functions : List.Forall₂
    (fun f g => f.1 = g.1 ∧ SameCode p.constants f.2 g.2.constants g.2.code)
    p.functions.entries u.functions.entries

/-- Two instructions that stand for one draft are the same, unless the draft is not a number. -/
theorem Draft.Stands.same {pool pool' : ConstantPool} {d : Draft} {i j : Instruction} {stop : Nat}
    (hi : d.Stands pool i) (hj : d.Stands pool' j) (hw : d.Within stop)
    (hd : ∀ x, d = .literal (.number x) → x.isNaN = false) : i.Same pool pool' j := by
  cases d with
  | literal c =>
    have hc : ¬c.IsNaN := by
      cases c with
      | number x => exact Bool.eq_false_iff.mp (hd x rfl)
      | _ => exact id
    cases i with
    | loadConst k =>
      cases j with
      | loadConst l =>
        obtain ⟨a, ha, hac⟩ := hi
        obtain ⟨b, hb, hbc⟩ := hj
        exact ⟨a, b, ha, hb, hac.equals hbc hc⟩
      | _ => exact absurd hj id
    | _ => exact absurd hi id
  | plain k =>
    obtain rfl : k = i := hi
    obtain rfl : k = j := hj
    cases k with
    | loadConst l => exact absurd hw id
    | _ => rfl

/-- Two streams that stand for the draft of some nodes are the same. -/
theorem sameCode_of_stands {pool pool' : ConstantPool} {nodes : List Node}
    {code code' : List Instruction}
    (hcode : List.Forall₂ (Draft.Stands pool) (draftAll 0 nodes) code)
    (hcode' : List.Forall₂ (Draft.Stands pool') (draftAll 0 nodes) code')
    (hnumbers : ∀ x ∈ numbersAll nodes, x.isNaN = false) : SameCode pool code pool' code' := by
  have hw := withinAll_draftAll 0 nodes
  have hd : ∀ d ∈ draftAll 0 nodes, ∀ x, d = .literal (.number x) → x.isNaN = false := by
    rintro d hd x rfl
    exact hnumbers x (mem_numbersAll_of_draftAll 0 nodes hd)
  generalize draftAll 0 nodes = ds at hcode hcode' hd hw
  generalize 0 + ds.length = stop at hw
  induction hcode generalizing code' with
  | nil =>
    cases hcode'
    exact .nil
  | cons hi _ ih =>
    cases hcode' with
    | cons hj hrest =>
      rw [allWithin_cons] at hw
      exact .cons (hi.same hj hw.1 (hd _ List.mem_cons_self))
        (ih hrest (fun d h => hd d (List.mem_cons_of_mem _ h)) hw.2)

/-! ### Linking states that stand for programs -/

/-- A function has the name of a body, and its code stands for the body. -/
def BodyStands (pool : ConstantPool) (b : String × List Node) (f : String × List Instruction) :
    Prop :=
  b.1 = f.1 ∧ List.Forall₂ (Draft.Stands pool) (draftAll 0 b.2) f.2

theorem BodyStands.mono {pool more : ConstantPool} {b : String × List Node}
    {f : String × List Instruction} (h : BodyStands pool b f) (hp : pool <+: more) :
    BodyStands more b f :=
  ⟨h.1, h.2.imp fun _ _ hd => hd.mono hp⟩

theorem names_of_bodiesStand {pool : ConstantPool} {bs : List (String × List Node)}
    {fs : List (String × List Instruction)} (h : List.Forall₂ (BodyStands pool) bs fs) :
    bs.map (·.1) = fs.map (·.1) := by
  induction h with
  | nil => rfl
  | cons hb _ ih => rw [List.map_cons, List.map_cons, hb.1, ih]

namespace Linking

/-- What has been linked stands for a program: the main code for its draft, and the functions for
its bodies, in order. -/
structure Represents (s : Linking) (program : Program) : Prop where
  code : List.Forall₂ (Draft.Stands s.pool) (draftAll 0 program) s.code
  functions : List.Forall₂ (BodyStands s.pool) (bodies program).entries s.functions.entries

theorem represents_nil : Represents {} [] :=
  ⟨.nil, .nil⟩

/-- A compiled body joins the table under a new name, and stands for itself there. -/
theorem addFunction_stands (rebase : Bool) (unit : String) (remap : List Nat)
    (b : String × List Node) (s : Linking) (hnew : b.1 ∉ s.functions.names)
    (hlength : (draftAll 0 b.2).length < Relocation.operandLimit) :
    ∃ s' code, addFunction ⟨rebase, true⟩ unit remap b.1 (compileBody b.2) s = .ok () s' ∧
      s.pool <+: s'.pool ∧ s'.code = s.code ∧
      s'.functions.entries = s.functions.entries ++ [(b.1, code)] ∧
      BodyStands s'.pool b (b.1, code) := by
  have hcontains : ¬s.functions.contains b.1 = true := fun h => hnew (Table.contains_iff.mp h)
  have hstands := stands_settle (draftAll 0 b.2) []
  have hwithin := withinAll_draftAll 0 b.2
  rw [Nat.zero_add] at hwithin
  obtain ⟨code, hcode, hmoved⟩ := Relocation.applyAll_stands
    (r := ⟨unit, b.1, (s.pool.merge (settle [] (draftAll 0 b.2)).2).1, 0⟩)
    (ConstantPool.holds_merge _ s.pool) hlength hstands hwithin
  rw [show Draft.shift 0 = id from funext Draft.shift_zero, List.map_id] at hmoved
  refine ⟨{ s with
      pool := (s.pool.merge (settle [] (draftAll 0 b.2)).2).2
      functions := s.functions.insert b.1 code }, code, ?_, ?_, rfl, ?_, rfl, hmoved⟩
  · rw [addFunction_eq, if_neg hcontains, compileBody_eq, functionConstants, if_pos rfl, hcode]
  · exact ConstantPool.prefix_merge _ _
  · exact Table.insertEntry_of_not_mem code hnew

/-- Compiled bodies with new names join the table one after the other, and stand for themselves. -/
theorem addFunctions_stands (rebase : Bool) (unit : String) (remap : List Nat)
    (bs : List (String × List Node)) :
    ∀ (done : List (String × List Node)) (s : Linking),
      List.Forall₂ (BodyStands s.pool) done s.functions.entries →
      ((done ++ bs).map (·.1)).Nodup →
      (∀ b ∈ bs, (draftAll 0 b.2).length < Relocation.operandLimit) →
      ∃ s', addFunctions ⟨rebase, true⟩ unit remap (bs.map fun b => (b.1, compileBody b.2)) s
          = .ok () s' ∧
        s.pool <+: s'.pool ∧ s'.code = s.code ∧
        List.Forall₂ (BodyStands s'.pool) (done ++ bs) s'.functions.entries := by
  induction bs with
  | nil =>
    intro done s hdone _ _
    exact ⟨s, rfl, List.prefix_rfl, rfl, by rwa [List.append_nil]⟩
  | cons b bs ih =>
    intro done s hdone hnodup hlength
    -- the table has the names of the bodies that are done
    have hnew : b.1 ∉ s.functions.names := by
      rw [Table.names, ← names_of_bodiesStand hdone]
      intro hmem
      rw [List.map_append, List.map_cons] at hnodup
      exact (List.nodup_append.mp hnodup).2.2 _ hmem _ List.mem_cons_self rfl
    obtain ⟨s₁, code, hadd, hpool₁, hcode₁, hentries, hb⟩ :=
      addFunction_stands rebase unit remap b s hnew (hlength b List.mem_cons_self)
    have hdone₁ : List.Forall₂ (BodyStands s₁.pool) (done ++ [b]) s₁.functions.entries := by
      rw [hentries]
      exact List.rel_append (hdone.imp fun _ _ h => h.mono hpool₁) (.cons hb .nil)
    obtain ⟨s₂, hrest, hpool₂, hcode₂, hall⟩ := ih (done ++ [b]) s₁ hdone₁
      (by rwa [List.append_assoc]) (fun c hc => hlength c (List.mem_cons_of_mem _ hc))
    refine ⟨s₂, ?_, hpool₁.trans hpool₂, hcode₂.trans hcode₁, ?_⟩
    · rw [List.map_cons, addFunctions_cons, hadd]
      exact hrest
    · rwa [List.append_assoc] at hall

end Linking

/-! ### Units one after the other -/

theorem length_code_compile (name : String) (program : Program) :
    (compile name program).code.length = (draftAll 0 program).length := by
  rw [compile_eq, length_settle]

theorem size_compile (name : String) (program : Program) :
    (compile name program).size
      = (draftAll 0 program).length
        + ((bodies program).entries.map fun b => (draftAll 0 b.2).length).sum := by
  rw [BytecodeUnit.size, length_code_compile, functions_compile, Table.mapValues, List.map_map]
  simp only [Function.comp_def, compileBody_eq, length_settle]

theorem names_functions_compile (name : String) (program : Program) :
    (compile name program).functions.names = (bodies program).names := by
  rw [functions_compile, Table.names_mapValues]

namespace Linking

/-- A unit behind what stands for a program: together they stand for the program and the unit's. -/
theorem addUnit_represents (isFirst : Bool) (name : String) {p q : Program} {s : Linking}
    (hs : s.Represents p) (hnames : List.Disjoint (bodies p).names (bodies q).names)
    (hlength : (draftAll 0 p).length + (compile name q).size < Relocation.operandLimit) :
    ∃ s', addUnit ⟨true, true⟩ isFirst (compile name q) s = .ok () s' ∧
      s'.Represents (p ++ q) := by
  rw [size_compile] at hlength
  have hplace : s.code.length = (draftAll 0 p).length := hs.code.length_eq.symm
  have hwithin := withinAll_draftAll 0 q
  rw [Nat.zero_add] at hwithin
  -- the main code, moved behind the code that is there
  obtain ⟨code, hcode, hmoved⟩ := Relocation.applyAll_stands
    (r := ⟨name, Relocation.mainStream, (s.pool.merge (settle [] (draftAll 0 q)).2).1,
      s.code.length⟩)
    (ConstantPool.holds_merge _ s.pool) (by dsimp only; omega) (stands_settle (draftAll 0 q) [])
    hwithin
  have hpool := ConstantPool.prefix_merge (settle [] (draftAll 0 q)).2 s.pool
  -- the functions, none of which is there already
  obtain ⟨s', hadd, hpool', hcode', hfunctions⟩ := addFunctions_stands true name
    (s.pool.merge (settle [] (draftAll 0 q)).2).1 (bodies q).entries (bodies p).entries
    { s with
      pool := (s.pool.merge (settle [] (draftAll 0 q)).2).2
      code := s.code ++ code
      notices := s.notices
        ++ jumpWarnings ⟨true, true⟩ isFirst (compile name q) s.code.length }
    (hs.functions.imp fun _ _ h => h.mono hpool)
    (by
      rw [List.map_append]
      exact (nodup_names_bodies p).append (nodup_names_bodies q) hnames)
    (by
      intro b hb
      have := List.le_sum_of_mem (List.mem_map_of_mem (f := fun b => (draftAll 0 b.2).length) hb)
      omega)
  have hunit : (compile name q).constants = (settle [] (draftAll 0 q)).2 := by rw [compile_eq]
  have hmain : (compile name q).code = (settle [] (draftAll 0 q)).1 := by rw [compile_eq]
  have htable : (compile name q).functions.entries
      = (bodies q).entries.map fun b => (b.1, compileBody b.2) := by
    rw [functions_compile, Table.mapValues]
  -- neither part moves the constants that are there
  refine ⟨{ s' with
      notices := s'.notices ++ [.linkedUnit name s.code.length (compile name q).code.length
        (compile name q).functions.size] }, ?_, ?_, ?_⟩
  · rw [addUnit_eq, hunit, htable, hmain, jumpOffset, if_pos rfl]
    rw [show (compile name q).name = name by rw [compile_eq]]
    simp only [hcode, hadd]
  · show List.Forall₂ (Draft.Stands s'.pool) (draftAll 0 (p ++ q)) s'.code
    rw [hcode', draftAll_append_shift, ← hplace]
    refine List.rel_append ?_ (hmoved.imp fun _ _ h => h.mono hpool')
    exact hs.code.imp fun _ _ h => h.mono (hpool.trans hpool')
  · rw [entries_bodies_append hnames]
    exact hfunctions

/-- Units behind what stands for a program, one after the other. -/
theorem addUnits_represents (units : List (String × Program)) :
    ∀ (isFirst : Bool) (p : Program) (s : Linking), s.Represents p →
      (∀ u ∈ units, List.Disjoint (bodies p).names (bodies u.2).names) →
      (units.Pairwise fun u v => List.Disjoint (bodies u.2).names (bodies v.2).names) →
      (draftAll 0 p).length + (units.map fun u => (compile u.1 u.2).size).sum
        < Relocation.operandLimit →
      ∃ s', addUnits ⟨true, true⟩ isFirst (units.map fun u => compile u.1 u.2) s = .ok () s' ∧
        s'.Represents (p ++ units.flatMap (·.2)) := by
  induction units with
  | nil =>
    intro isFirst p s hs _ _ _
    exact ⟨s, rfl, by rwa [List.flatMap_nil, List.append_nil]⟩
  | cons u units ih =>
    intro isFirst p s hs hdone hpairs hlength
    rw [List.map_cons, List.sum_cons] at hlength
    rw [List.pairwise_cons] at hpairs
    have hu := hdone u List.mem_cons_self
    obtain ⟨s₁, hadd, hs₁⟩ := addUnit_represents isFirst u.1 hs hu (by omega)
    have hnext : (draftAll 0 (p ++ u.2)).length
        ≤ (draftAll 0 p).length + (compile u.1 u.2).size := by
      rw [draftAll_append_shift, List.length_append, List.length_map, size_compile]
      omega
    obtain ⟨s₂, hrest, hs₂⟩ := ih false (p ++ u.2) s₁ hs₁
      (by
        intro v hv
        rw [Table.names, entries_bodies_append hu, List.map_append, List.disjoint_append_left]
        exact ⟨hdone v (List.mem_cons_of_mem _ hv), hpairs.1 v hv⟩)
      hpairs.2 (by omega)
    refine ⟨s₂, ?_, by rwa [List.flatMap_cons, ← List.append_assoc]⟩
    rw [List.map_cons, addUnits_cons, hadd]
    exact hrest

end Linking

/-! ### The agreement -/

/-- What stands for a program, once linked, is the program compiled as a whole. -/
theorem Linking.Represents.sameProgram {s : Linking} {program : Program}
    (hs : s.Represents program) (name : String)
    (hnumbers : ∀ x ∈ numbersAll program, x.isNaN = false) :
    SameProgram s.program (compile name program) := by
  constructor
  · rw [compile_eq]
    exact sameCode_of_stands hs.code (stands_settle (draftAll 0 program) []) hnumbers
  · rw [functions_compile, Table.mapValues]
    -- only the bodies of definitions of the program are met
    have hbodies : ∀ b ∈ (bodies program).entries, ∀ x ∈ numbersAll b.2, x.isNaN = false := by
      intro b hb x hx
      obtain ⟨d, hd, rfl⟩ := exists_definition_of_body hb
      exact hnumbers x (mem_numbersAll_of_definition hx program hd)
    have hfunctions := hs.functions
    show List.Forall₂ _ s.functions.entries _
    generalize (bodies program).entries = bs at hbodies hfunctions
    generalize s.functions.entries = fs at hfunctions
    induction hfunctions with
    | nil => exact .nil
    | @cons b f bs fs hb _ ih =>
      refine .cons ⟨hb.1.symm, ?_⟩ (ih fun c hc => hbodies c (List.mem_cons_of_mem _ hc))
      show SameCode s.pool f.2 (compileBody b.2).constants (compileBody b.2).code
      rw [compileBody_eq]
      exact sameCode_of_stands hb.2 (stands_settle (draftAll 0 b.2) [])
        (hbodies b List.mem_cons_self)

/-- Programs compiled one by one and then linked, with jumps moved and the constants of functions
merged, are their statements one after the other compiled as a whole. -/
theorem separate_compilation (name : String) (units : List (String × Program))
    (hnumbers : ∀ u ∈ units, ∀ x ∈ numbersAll u.2, x.isNaN = false)
    (hnames : units.Pairwise fun u v => List.Disjoint (compile u.1 u.2).functions.names
      (compile v.1 v.2).functions.names)
    (hlength : (units.map fun u => (compile u.1 u.2).size).sum < 2 ^ 64) :
    ∃ linked, (linkAll ⟨true, true⟩ (units.map fun u => compile u.1 u.2)).1 = .ok linked ∧
      SameProgram linked (compile name (units.flatMap (·.2))) := by
  simp only [names_functions_compile] at hnames
  -- linking begins with nothing, which stands for the empty program
  obtain ⟨s, hadd, hs⟩ := Linking.addUnits_represents units true [] {} Linking.represents_nil
    (fun u _ => List.disjoint_nil_left _) hnames (by rwa [draftAll, List.length_nil, Nat.zero_add])
  rw [List.nil_append] at hs
  have hclosed : ∀ u ∈ units.map fun u => compile u.1 u.2, u.exports = [] ∧ u.imports = [] := by
    intro u hu
    obtain ⟨v, _, rfl⟩ := List.mem_map.mp hu
    rw [compile_eq]
    exact ⟨rfl, rfl⟩
  refine ⟨s.program, ?_, hs.sameProgram name ?_⟩
  · rw [linkAll_of_closed _ _ (fun u hu => (hclosed u hu).1) (fun u hu => (hclosed u hu).2), hadd]
  · intro x hx
    obtain ⟨u, hu, hxu⟩ := mem_numbersAll_flatMap hx
    exact hnumbers u hu x hxu

/-- A unit with a loop and a function, behind one that has a branch, a function in it, and the same
literals. -/
theorem separate_compilation_of_two :
    ∃ linked, (linkAll ⟨true, true⟩
        [compile "a" [.branch (.identifier "x") [.define "f" ["y"] [.ret (some (.number 2))]]
            (some [.print (.string "no")])],
          compile "b" [.loop (.binary .lt (.identifier "x") (.number 2))
            [.assign "x" (.call "g" [.number 1])], .define "g" [] [.ret none]]]).1 = .ok linked ∧
      SameProgram linked (compile "ab"
        [.branch (.identifier "x") [.define "f" ["y"] [.ret (some (.number 2))]]
            (some [.print (.string "no")]),
          .loop (.binary .lt (.identifier "x") (.number 2))
            [.assign "x" (.call "g" [.number 1])], .define "g" [] [.ret none]]) :=
  separate_compilation "ab"
    [("a", [.branch (.identifier "x") [.define "f" ["y"] [.ret (some (.number 2))]]
        (some [.print (.string "no")])]),
      ("b", [.loop (.binary .lt (.identifier "x") (.number 2))
        [.assign "x" (.call "g" [.number 1])], .define "g" [] [.ret none]])]
    (by decide) (List.pairwise_pair.mpr (List.disjoint_left.mpr (by decide))) (by decide)

end StackScript
