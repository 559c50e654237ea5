import StackScript.Proofs.ExactPools

/-!
What a pool does to the texts of constants.

A constant that joins a pool gives way to an equal one that is there. For texts, for no value, and
for all numbers but two, what is equal is the same, and so is its text. The two are the zeros: they
are equal and have different texts, so that all zeros which join a pool are shown like the first of
them.

* `Constant.eq_of_equals`: equal constants are the same unless they are zeros;
* `ConstantPool.find?_merge`: the first constant of a kind in a pool is the first that has joined;
* `Constant.LoadedAs`: what is loaded for a constant that has joined a pool with others;
* `LiteralsShown`, `compile_literalsShown`: the loads of compiled code;
* `negative_zero_shown`: a literal whose text is not that of the constant which is loaded for it;
* `LoadsShown`, `loadsShown_of_linkAll`: the loads of linked code;
* `pooled_constants_shown`: both.
-/

namespace StackScript

open Float.Model (UnpackedFloat)

/-! ### Equal constants -/

theorem float_beq_zero {x : Float} {s : UnpackedFloat.Sign}
    (h : x.toModel.toBits.toBitVec = UnpackedFloat.packedZero .binary64 s) : (x == 0) = true := by
  have hunpack : x.toModel.unpack = .zero s :=
    (UnpackedFloat.unpack_eq_zero_iff_of_valid x.toModel.valid).mpr h
  rw [float_beq_iff]
  refine ⟨.zero .positive, ?_, rfl⟩
  rw [floatDatum, hunpack]

/-- Equal numbers are the same unless they are zeros. -/
theorem eq_or_zero_of_float_beq {x y : Float} (h : (x == y) = true) : x = y ∨ (x == 0) = true := by
  have hbits := (UnpackedFloat.unpack_beq_unpack_iff x.toModel.valid y.toModel.valid).mp h
  obtain ⟨-, -, hbits | ⟨hx, -⟩ | ⟨hx, -⟩⟩ := hbits
  · left
    rw [← Float.ofBits_toBits x, ← Float.ofBits_toBits y]
    exact congrArg (fun b => Float.ofBits ⟨b⟩) hbits
  · exact .inr (float_beq_zero hx)
  · exact .inr (float_beq_zero hx)

namespace Constant

/-- A constant is one of the two zeros. -/
def isZero : Constant → Bool
  | number x => x == 0
  | _ => false

theorem eq_of_equals {c d : Constant} (h : c.equals d = true) (hc : c.isZero = false) : c = d := by
  cases c with
  | number x =>
    cases d with
    | number y =>
      rcases eq_or_zero_of_float_beq h with rfl | hzero
      · rfl
      · exact absurd hzero (Bool.eq_false_iff.mp hc)
    | _ => cases h
  | string s =>
    cases d with
    | string t => rw [of_decide_eq_true h]
    | _ => cases h
  | none =>
    cases d with
    | none => rfl
    | _ => cases h

/-- The zeros are equal to each other. -/
theorem equals_of_isZero {c d : Constant} (hc : c.isZero = true) (hd : d.isZero = true) :
    c.equals d = true := by
  cases c with
  | number x =>
    cases d with
    | number y => exact float_beq_trans hc (float_beq_symm hd)
    | _ => cases hd
  | _ => cases hc

theorem isZero_of_equals {c d : Constant} (h : c.equals d = true) : d.isZero = c.isZero := by
  cases c with
  | number x =>
    cases d with
    | number y =>
      rw [isZero, isZero, Bool.eq_iff_iff]
      exact ⟨float_beq_trans h, float_beq_trans (float_beq_symm h)⟩
    | _ => cases h
  | _ => cases d <;> first | rfl | cases h

end Constant

/-! ### The first zero of a pool -/

namespace ConstantPool

/-- The first constant of a kind in a pool is the first one that has joined, if equal constants are
of one kind. -/
theorem find?_merge {p : Constant → Bool} (hp : ∀ {c d : Constant}, c.equals d = true → p d = p c)
    (cs : List Constant) :
    ∀ pool : ConstantPool, (pool.merge cs).2.find? p = (pool ++ cs).find? p := by
  induction cs with
  | nil =>
    intro pool
    rw [List.append_nil]
    rfl
  | cons c cs ih =>
    intro pool
    rw [merge_cons, ih]
    cases hfound : pool.findIdx? (·.equals c) with
    | none =>
      rw [place, hfound, List.append_assoc, List.singleton_append]
    | some i =>
      -- an entry of the pool is equal to the constant, so it is of the same kind
      obtain ⟨hi, heq, -⟩ := List.findIdx?_eq_some_iff_getElem.mp hfound
      rw [place, hfound, List.find?_append, List.find?_append, List.find?_cons]
      cases hc : p c with
      | false => rfl
      | true =>
        have hsome : (pool.find? p).isSome = true := by
          rw [List.find?_isSome]
          exact ⟨pool[i], List.getElem_mem hi, (hp heq).symm.trans hc⟩
        obtain ⟨e, he⟩ := Option.isSome_iff_exists.mp hsome
        rw [he, Option.some_or, Option.some_or]

/-- A zero in a pool without equal entries is the first one. -/
theorem Distinct.find?_isZero {pool : ConstantPool} (h : pool.Distinct) {index : Nat} {d : Constant}
    (hd : pool[index]? = some d) (hzero : d.isZero = true) :
    pool.find? Constant.isZero = some d := by
  cases hfind : pool.find? Constant.isZero with
  | none => exact absurd hzero (List.find?_eq_none.mp hfind d (List.mem_of_getElem? hd))
  | some e =>
    obtain ⟨k, hk⟩ := List.mem_iff_getElem?.mp (List.mem_of_find?_eq_some hfind)
    have hequal := Constant.equals_of_isZero (List.find?_some hfind) hzero
    obtain rfl := h.eq_of_equals hk hd hequal
    exact hk.symm.trans hd

end ConstantPool

/-! ### What is loaded for a constant -/

/-- What is loaded for a constant that has joined a pool with others: if it is a zero, the first one
of them, and otherwise a constant with the same text. -/
def Constant.LoadedAs (joined : List Constant) (c d : Constant) : Prop :=
  if c.isZero then joined.find? Constant.isZero = some d else d.shown = c.shown

/-- The constant at the index that a constant has in the pool is what is loaded for it. -/
theorem ConstantPool.Holds.loadedAs {joined : List Constant} {index : Nat} {c : Constant}
    (h : (ConstantPool.merge [] joined).2.Holds index c) :
    ∃ d, (ConstantPool.merge [] joined).2[index]? = some d ∧ c.LoadedAs joined d := by
  obtain ⟨d, hd, hlike⟩ := h
  refine ⟨d, hd, ?_⟩
  unfold Constant.LoadedAs
  split
  · next hzero =>
    have hdzero : d.isZero = true := by
      rcases hlike with rfl | hequal
      · exact hzero
      · rwa [← Constant.isZero_of_equals hequal]
    rw [← List.nil_append joined, ← find?_merge Constant.isZero_of_equals]
    exact (distinct_merge joined List.Pairwise.nil).find?_isZero hd hdzero
  · next hzero =>
    rcases hlike with rfl | hequal
    · rfl
    · rw [Constant.eq_of_equals (Constant.equals_symm hequal) (Bool.eq_false_iff.mpr hzero)]

/-! ### Compiled code -/

/-- The loads of code, one for each literal of the nodes, load what is loaded for the literal. -/
def LiteralsShown (nodes : List Node) (code : List Instruction) (pool : ConstantPool) : Prop :=
  List.Forall₂ (fun index c => ∃ d, pool[index]? = some d ∧ c.LoadedAs (literalsAll nodes) d)
    (loads code) (literalsAll nodes)

theorem ConstantPool.Locates.holds {pool : ConstantPool} {index : Nat} {c : Constant}
    (h : pool.Locates index c) : pool.Holds index c := by
  obtain ⟨d, hd, hequal | ⟨-, rfl⟩⟩ := h
  · exact ⟨d, hd, .inr hequal⟩
  · exact ⟨d, hd, .inl rfl⟩

theorem literalsShown_compileBody (body : List Node) :
    LiteralsShown body (compileBody body).code (compileBody body).constants := by
  obtain ⟨hloads, hpool⟩ := loads_settle_draftAll body
  rw [LiteralsShown, compileBody_eq, hloads, hpool]
  exact (ConstantPool.locates_merge (literalsAll body) []).imp fun _ _ h => h.holds.loadedAs

/-- The loads of a unit and of its functions load what is loaded for their literals. -/
theorem compile_literalsShown (name : String) (program : Program) :
    LiteralsShown program (compile name program).code (compile name program).constants ∧
      ∀ f ∈ (compile name program).functions.entries, ∃ d ∈ definitionsAll program,
        f = d.compiled ∧ LiteralsShown d.body f.2.code f.2.constants := by
  constructor
  · exact literalsShown_compileBody program
  · intro f hf
    obtain ⟨d, hd, rfl⟩ := exists_definition_of_function hf
    exact ⟨d, hd, rfl, literalsShown_compileBody d.body⟩

/-- The second literal of a program is a zero with a sign, and the constant that is loaded for it is
the first one, without. -/
theorem negative_zero_shown :
    let program : Program := [.number 0, .number (-0)]
    let u := compile "main" program
    literalsAll program = [.number 0, .number (-0)] ∧ loads u.code = [0, 0] ∧
      ¬List.Forall₂ (fun index c => ∃ d, u.constants[index]? = some d ∧ d.shown = c.shown)
        (loads u.code) (literalsAll program) := by
  intro program u
  have hliterals : literalsAll program = [.number 0, .number (-0)] := rfl
  have hloads : loads u.code = [0, 0] := rfl
  have hpool : u.constants = [.number 0] := rfl
  refine ⟨hliterals, hloads, ?_⟩
  rw [hliterals, hloads, hpool]
  rintro (_ | ⟨_, _ | ⟨⟨d, hd, hshown⟩, _⟩⟩)
  obtain rfl := Option.some.inj hd
  exact absurd hshown (by decide +kernel)

/-! ### Linked code -/

/-- A load is linked to a load of what is loaded for its constant, and no other instruction to a
load. -/
def Instruction.LoadShown (joined : List Constant) (own pool : ConstantPool) :
    Instruction → Instruction → Prop
  | .loadConst k, j => ∃ l c d, j = .loadConst l ∧ own[k]? = some c ∧ pool[l]? = some d ∧
      c.LoadedAs joined d
  | _, j => ∀ l, j ≠ .loadConst l

/-- The loads of linked code load what is loaded for the constants that the code has loaded. -/
def CodeShown (joined : List Constant) (own pool : ConstantPool) (code linked : List Instruction) :
    Prop :=
  List.Forall₂ (Instruction.LoadShown joined own pool) code linked

theorem MovedCode.codeShown {joined : List Constant} {own : ConstantPool} {offset : Nat}
    {code linked : List Instruction}
    (h : MovedCode own (ConstantPool.merge [] joined).2 offset code linked) :
    CodeShown joined own (ConstantPool.merge [] joined).2 code linked := by
  refine h.imp fun i j hij => ?_
  cases i with
  | loadConst k =>
    obtain ⟨c, l, hc, hj, hholds⟩ := hij
    obtain ⟨d, hd, hloaded⟩ := hholds.loadedAs
    exact ⟨l, c, d, hj, hc, hd, hloaded⟩
  | _ =>
    rw [hij]
    exact nofun

/-- The loads of a linked program load what is loaded for the constants of its units: those of main
code for the constants of a main pool, and those of functions for the constants of their pools. -/
structure LoadsShown (us : List BytecodeUnit) (joined : List Constant) (p : LinkedProgram) :
    Prop where
  code : ∃ segments, p.code = segments.flatten ∧ List.Forall₂
    (fun u segment => CodeShown joined u.2.constants p.constants u.2.code segment)
    (placedUnits 0 us) segments
  functions : List.Forall₂
    (fun f g => f.2.1 = g.1 ∧ CodeShown joined f.2.2.constants p.constants f.2.2.code g.2)
    (ownedFunctions us) p.functions.entries

theorem loadsShown_of_linkAll {rebase : Bool} {us : List BytecodeUnit} {linked : LinkedProgram}
    (h : (linkAll ⟨rebase, true⟩ us).1 = .ok linked) :
    LoadsShown us (mergedConstants ⟨rebase, true⟩ us) linked := by
  have hlinked := linkedFrom_of_linkAll h
  obtain ⟨segments, hcode, hsegments⟩ := hlinked.code
  have hfunctions := hlinked.functions
  have hpool := hlinked.constants
  rw [← ConstantPool.merge_nil] at hpool
  rw [hpool] at hsegments hfunctions
  refine ⟨⟨segments, hcode, ?_⟩, ?_⟩
  · rw [hpool]
    exact hsegments.imp fun u segment hmoved => hmoved.codeShown
  · rw [hpool]
    exact hfunctions.imp fun f g hmoved => ⟨hmoved.1, hmoved.2.codeShown⟩

/-- Neither the pools of compiled code nor the one of a linked program change the text of what is
loaded, except that every zero is shown like the first one that has joined its pool. -/
theorem pooled_constants_shown :
    (∀ (name : String) (program : Program),
      LiteralsShown program (compile name program).code (compile name program).constants ∧
        ∀ f ∈ (compile name program).functions.entries, ∃ d ∈ definitionsAll program,
          f = d.compiled ∧ LiteralsShown d.body f.2.code f.2.constants) ∧
      ∀ (rebase : Bool) (us : List BytecodeUnit) (linked : LinkedProgram),
        (linkAll ⟨rebase, true⟩ us).1 = .ok linked →
          LoadsShown us (mergedConstants ⟨rebase, true⟩ us) linked :=
  ⟨compile_literalsShown, fun _ _ _ h => loadsShown_of_linkAll h⟩

/-- The zero of the first unit comes before those of the second one and of its function. -/
theorem pooled_constants_shown_of_zeros :
    let us : List BytecodeUnit :=
      [{ name := "a", code := [.loadConst 0, .loadConst 1]
         constants := [.number (-0), .string "x"] },
        { name := "b", code := [.loadConst 0], constants := [.number 0]
          functions := ⟨[("f", ⟨[.loadConst 1, .loadConst 0], [.number 0, .string "x"]⟩)]⟩ }]
    let linked : LinkedProgram :=
      { constants := [.number (-0), .string "x"]
        code := [.loadConst 0, .loadConst 1, .loadConst 0]
        functions := ⟨[("f", [.loadConst 1, .loadConst 0])]⟩ }
    (linkAll ⟨true, true⟩ us).1 = .ok linked ∧
      LoadsShown us (mergedConstants ⟨true, true⟩ us) linked := by
  intro us linked
  have hlink : (linkAll ⟨true, true⟩ us).1 = .ok linked := rfl
  exact ⟨hlink, pooled_constants_shown.2 true us linked hlink⟩

end StackScript
