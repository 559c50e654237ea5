import StackScript.Proofs.Linking

/-!
What a linked program is made of.

Linking copies code. Loads get new indices, and the jumps of main code get new targets if that is
asked for; nothing else changes. The pools of the units join one pool one after the other, and what
is in that pool already is not moved when more joins it. That is so for units of any content,
whether a compiler has made them or not.

* `Instruction.Moved`: what linking makes of an instruction;
* `placedUnits`, `ownedFunctions`, `mergedConstants`: the units with the places of their code, their
  functions, and their constants, all in the order of linking;
* `ConstantPool.merge_nil`: a pool that constants have joined holds their first occurrences;
* `Linking.Extends`: what units add to a linking state, one after the other;
* `LinkedFrom`, `linkedFrom_of_linkAll`: a linked program is put together from its units.
-/

namespace StackScript

/-! ### Pools -/

namespace ConstantPool

theorem equals_comm (c d : Constant) : c.equals d = d.equals c :=
  Bool.eq_iff_iff.mpr ⟨Constant.equals_symm, Constant.equals_symm⟩

/-- Constants that join a pool are left out if they are equal to one that has come before. -/
theorem merge_eq_loop (cs : List Constant) : ∀ pool : ConstantPool,
    (pool.merge cs).2 = List.eraseDupsBy.loop Constant.equals cs pool.reverse := by
  induction cs with
  | nil => exact fun pool => pool.reverse_reverse.symm
  | cons c cs ih =>
    intro pool
    have hany : pool.reverse.any (c.equals ·) = (pool.findIdx? (·.equals c)).isSome := by
      rw [List.any_reverse, List.findIdx?_isSome]
      simp only [equals_comm c]
    rw [merge_cons, List.eraseDupsBy.loop, hany, place]
    cases pool.findIdx? (·.equals c) with
    | some i => exact ih pool
    | none =>
      have hnew := ih (pool ++ [c])
      rw [List.reverse_append] at hnew
      exact hnew

/-- A pool that constants have joined holds the first occurrence of each. -/
theorem merge_nil (cs : List Constant) :
    (merge [] cs).2 = List.eraseDupsBy Constant.equals cs :=
  merge_eq_loop cs []

/-- No two entries of a pool are equal. -/
def Distinct (pool : ConstantPool) : Prop :=
  pool.Pairwise fun c d => c.equals d = false

theorem distinct_place {pool : ConstantPool} (h : pool.Distinct) (c : Constant) :
    (pool.place c).2.Distinct := by
  unfold place
  split
  · exact h
  · next hnone =>
    refine List.pairwise_append.mpr ⟨h, List.pairwise_singleton _ _, fun d hd e he => ?_⟩
    rw [List.mem_singleton.mp he]
    exact List.findIdx?_eq_none_iff.mp hnone d hd

theorem distinct_merge (cs : List Constant) : ∀ {pool : ConstantPool}, pool.Distinct →
    (pool.merge cs).2.Distinct := by
  induction cs with
  | nil => exact fun h => h
  | cons c cs ih => exact fun h => ih (distinct_place h c)

end ConstantPool

/-! ### Instructions -/

/-- What linking makes of an instruction: a load still loads a constant like the one that it has
loaded, and any other instruction is kept but for its target. -/
def Instruction.Moved (own pool : ConstantPool) (offset : Nat) : Instruction → Instruction → Prop
  | .loadConst k, j => ∃ c l, own[k]? = some c ∧ j = .loadConst l ∧ pool.Holds l c
  | i, j => j = i.shift offset

theorem Instruction.Moved.mono {own pool more : ConstantPool} {offset : Nat} {i j : Instruction}
    (h : i.Moved own pool offset j) (hp : pool <+: more) : i.Moved own more offset j := by
  cases i with
  | loadConst k =>
    obtain ⟨c, l, hc, hj, hl⟩ := h
    exact ⟨c, l, hc, hj, hl.mono hp⟩
  | _ => exact h

/-- What linking makes of a stream. -/
def MovedCode (own pool : ConstantPool) (offset : Nat) (code moved : List Instruction) : Prop :=
  List.Forall₂ (Instruction.Moved own pool offset) code moved

theorem MovedCode.mono {own pool more : ConstantPool} {offset : Nat}
    {code moved : List Instruction} (h : MovedCode own pool offset code moved)
    (hp : pool <+: more) : MovedCode own more offset code moved :=
  h.imp fun _ _ hij => hij.mono hp

/-- Relocation with indices that cover a pool moves code. -/
theorem movedCode_of_applyAll {r : Relocation} {own pool : ConstantPool}
    (hcovers : Relocation.Covers r.remap own pool) (hlength : r.remap.length = own.length)
    {code moved : List Instruction} (h : r.applyAll code = .ok moved) :
    MovedCode own pool r.offset code moved := by
  refine (Relocation.applyAll_ok h).imp fun i j hij => ?_
  rcases Relocation.apply_ok hij with ⟨k, l, rfl, hl, rfl⟩ | ⟨hplain, rfl⟩
  · -- an index that is mapped is one of the pool
    have hk : k < own.length := hlength ▸ (List.getElem?_eq_some_iff.mp hl).1
    obtain ⟨l', hl', hholds⟩ := hcovers (List.getElem?_eq_getElem hk)
    obtain rfl : l = l' := Option.some_inj.mp (hl.symm.trans hl')
    exact ⟨own[k], l, List.getElem?_eq_getElem hk, rfl, hholds⟩
  · cases i with
    | loadConst k => exact absurd rfl (hplain k)
    | _ => rfl

/-! ### Units in the order of linking -/

/-- Units, each with the place where its code begins. -/
def placedUnits : (base : Nat) → List BytecodeUnit → List (Nat × BytecodeUnit)
  | _, [] => []
  | base, u :: us => (base, u) :: placedUnits (base + u.code.length) us

/-- The functions of units, each with its unit. -/
def ownedFunctions (us : List BytecodeUnit) : List (BytecodeUnit × String × CompiledFunction) :=
  us.flatMap fun u => u.functions.entries.map fun f => (u, f)

/-- The pool that a function of a unit takes its constants from. -/
def BytecodeUnit.poolOf (u : BytecodeUnit) (options : LinkOptions) (f : CompiledFunction) :
    ConstantPool :=
  if options.mergeFunctionConstants then f.constants else u.constants

/-- The constants of functions that join the common pool. -/
def functionPools (options : LinkOptions) (fs : List (String × CompiledFunction)) : List Constant :=
  if options.mergeFunctionConstants then fs.flatMap (·.2.constants) else []

/-- The constants of units in the order in which they join the common pool: for each unit those of
its main pool, and then those of its functions if they are merged. -/
def mergedConstants (options : LinkOptions) (us : List BytecodeUnit) : List Constant :=
  us.flatMap fun u => u.constants ++ functionPools options u.functions.entries

/-- What linking makes of a function of a unit. -/
def MovedFunction (options : LinkOptions) (pool : ConstantPool)
    (f : BytecodeUnit × String × CompiledFunction) (g : String × List Instruction) : Prop :=
  f.2.1 = g.1 ∧ MovedCode (f.1.poolOf options f.2.2) pool 0 f.2.2.code g.2

theorem MovedFunction.mono {options : LinkOptions} {pool more : ConstantPool}
    {f : BytecodeUnit × String × CompiledFunction} {g : String × List Instruction}
    (h : MovedFunction options pool f g) (hp : pool <+: more) : MovedFunction options more f g :=
  ⟨h.1, h.2.mono hp⟩

/-- What linking makes of the main code of a unit that begins at a place. -/
def MovedSegment (options : LinkOptions) (pool : ConstantPool) (u : Nat × BytecodeUnit)
    (segment : List Instruction) : Prop :=
  MovedCode u.2.constants pool (Linking.jumpOffset options u.1) u.2.code segment

namespace Linking

/-! ### What units add to a linking state -/

/-- Functions of one unit have joined the table, and their constants the pool. -/
structure AddsFunctions (options : LinkOptions) (u : BytecodeUnit)
    (fs : List (String × CompiledFunction)) (s s' : Linking) : Prop where
  code : s'.code = s.code
  pool : s'.pool = (s.pool.merge (functionPools options fs)).2
  functions : ∃ gs, s'.functions.entries = s.functions.entries ++ gs ∧
    List.Forall₂ (MovedFunction options s'.pool) (fs.map fun f => (u, f)) gs

/-- One function, whose unit has indices that cover its main pool. -/
theorem addFunction_adds {options : LinkOptions} {u : BytecodeUnit} {remap : List Nat}
    {f : String × CompiledFunction} {s s' : Linking}
    (hcovers : Relocation.Covers remap u.constants s.pool)
    (hlength : remap.length = u.constants.length)
    (h : addFunction options u.name remap f.1 f.2 s = .ok () s') :
    AddsFunctions options u [f] s s' := by
  obtain ⟨hnew, code, hcode, rfl⟩ := addFunction_ok h
  -- either way the indices cover the pool that the function takes its constants from
  have hpool : (functionConstants options s.pool remap f.2).2
        = (s.pool.merge (functionPools options [f])).2 ∧
      Relocation.Covers (functionConstants options s.pool remap f.2).1 (u.poolOf options f.2)
        (functionConstants options s.pool remap f.2).2 ∧
      (functionConstants options s.pool remap f.2).1.length = (u.poolOf options f.2).length := by
    unfold functionConstants functionPools BytecodeUnit.poolOf
    cases options.mergeFunctionConstants with
    | true =>
      rw [List.flatMap_singleton]
      exact ⟨rfl, ConstantPool.holds_merge _ _, ConstantPool.length_merge _ _⟩
    | false => exact ⟨rfl, hcovers, hlength⟩
  exact ⟨rfl, hpool.1, [(f.1, code)], Table.insertEntry_of_not_mem code hnew,
    .cons ⟨rfl, movedCode_of_applyAll hpool.2.1 hpool.2.2 hcode⟩ .nil⟩

theorem AddsFunctions.append {options : LinkOptions} {u : BytecodeUnit}
    {fs gs : List (String × CompiledFunction)} {s s₁ s' : Linking}
    (h : AddsFunctions options u fs s s₁) (h' : AddsFunctions options u gs s₁ s') :
    AddsFunctions options u (fs ++ gs) s s' := by
  have hpools : functionPools options (fs ++ gs)
      = functionPools options fs ++ functionPools options gs := by
    unfold functionPools
    split
    · exact List.flatMap_append
    · rfl
  refine ⟨h'.code.trans h.code, ?_, ?_⟩
  · rw [hpools, ConstantPool.merge_append, ← h.pool]
    exact h'.pool
  · obtain ⟨xs, hxs, hfs⟩ := h.functions
    obtain ⟨ys, hys, hgs⟩ := h'.functions
    have hprefix : s₁.pool <+: s'.pool := h'.pool ▸ ConstantPool.prefix_merge _ _
    refine ⟨xs ++ ys, by rw [hys, hxs, List.append_assoc], ?_⟩
    rw [List.map_append]
    exact List.rel_append
      (hfs.imp fun f g hfg => hfg.mono hprefix) hgs

theorem addFunctions_adds {options : LinkOptions} {u : BytecodeUnit} {remap : List Nat}
    (hlength : remap.length = u.constants.length) (fs : List (String × CompiledFunction)) :
    ∀ {s s' : Linking}, Relocation.Covers remap u.constants s.pool →
      addFunctions options u.name remap fs s = .ok () s' → AddsFunctions options u fs s s' := by
  induction fs with
  | nil =>
    intro s s' _ h
    injection h with _ hs
    subst hs
    have hnone : functionPools options [] = [] := by
      unfold functionPools
      split <;> rfl
    exact ⟨rfl, by rw [hnone]; rfl, [], (List.append_nil _).symm, .nil⟩
  | cons f fs ih =>
    intro s s' hcovers h
    rw [addFunctions_cons] at h
    split at h
    · exact nomatch h
    · next s₁ hadd =>
      have hone := addFunction_adds hcovers hlength hadd
      have hprefix : s.pool <+: s₁.pool := hone.pool ▸ ConstantPool.prefix_merge _ _
      -- what the function has added to the pool moves nothing
      have hcovers₁ : Relocation.Covers remap u.constants s₁.pool := by
        intro k c hk
        obtain ⟨i, hi, hholds⟩ := hcovers hk
        exact ⟨i, hi, hholds.mono hprefix⟩
      exact hone.append (ih hcovers₁ h)

/-- Units have been added: their code behind the code that was there, their functions behind the
functions, and their constants to the pool. -/
structure Extends (options : LinkOptions) (us : List BytecodeUnit) (s s' : Linking) : Prop where
  code : ∃ segments, s'.code = s.code ++ segments.flatten ∧
    List.Forall₂ (MovedSegment options s'.pool) (placedUnits s.code.length us) segments
  functions : ∃ gs, s'.functions.entries = s.functions.entries ++ gs ∧
    List.Forall₂ (MovedFunction options s'.pool) (ownedFunctions us) gs
  pool : s'.pool = (s.pool.merge (mergedConstants options us)).2

theorem addUnit_extends {options : LinkOptions} {isFirst : Bool} {u : BytecodeUnit}
    {s s' : Linking} (h : addUnit options isFirst u s = .ok () s') :
    Extends options [u] s s' := by
  obtain ⟨code, notices, s₁, hcode, hfunctions, hpool, hcode', htable⟩ := addUnit_ok h
  have hcovers : Relocation.Covers (s.pool.merge u.constants).1 u.constants
      (s.pool.merge u.constants).2 := ConstantPool.holds_merge _ _
  have hlength := ConstantPool.length_merge u.constants s.pool
  have hadds := addFunctions_adds hlength u.functions.entries hcovers hfunctions
  have hprefix : (s.pool.merge u.constants).2 <+: s'.pool := by
    rw [hpool, hadds.pool]
    exact ConstantPool.prefix_merge _ _
  have hmoved := movedCode_of_applyAll hcovers hlength hcode
  obtain ⟨gs, hgs, hmovedFunctions⟩ := hadds.functions
  refine ⟨⟨[code], ?_, .cons (hmoved.mono hprefix) .nil⟩,
    ⟨gs, by rw [htable, hgs], ?_⟩, ?_⟩
  · rw [hcode', hadds.code, List.flatten_singleton]
  · rw [ownedFunctions, List.flatMap_cons, List.flatMap_nil, List.append_nil, hpool]
    exact hmovedFunctions
  · rw [hpool, hadds.pool, mergedConstants, List.flatMap_cons, List.flatMap_nil, List.append_nil,
      ConstantPool.merge_append]

theorem Extends.cons {options : LinkOptions} {u : BytecodeUnit} {us : List BytecodeUnit}
    {s s₁ s' : Linking} (h : Extends options [u] s s₁) (h' : Extends options us s₁ s') :
    Extends options (u :: us) s s' := by
  have hprefix : s₁.pool <+: s'.pool := h'.pool ▸ ConstantPool.prefix_merge _ _
  obtain ⟨segments, hcode, hsegments⟩ := h.code
  obtain ⟨rest, hcode', hrest⟩ := h'.code
  obtain ⟨gs, hgs, hfunctions⟩ := h.functions
  obtain ⟨gs', hgs', hfunctions'⟩ := h'.functions
  refine ⟨⟨segments ++ rest, ?_, ?_⟩, ⟨gs ++ gs', ?_, ?_⟩, ?_⟩
  · rw [hcode', hcode, List.append_assoc, List.flatten_append]
  · -- the code of the other units begins where that of this one ends
    rcases hsegments with _ | ⟨hsegment, _ | _⟩
    rw [hcode, List.flatten_singleton, List.length_append, ← hsegment.length_eq] at hrest
    exact .cons (hsegment.mono hprefix) hrest
  · rw [hgs', hgs, List.append_assoc]
  · rw [ownedFunctions, ← List.singleton_append, List.flatMap_append]
    exact List.rel_append (hfunctions.imp fun f g hfg => hfg.mono hprefix) hfunctions'
  · have hconstants : mergedConstants options (u :: us)
        = mergedConstants options [u] ++ mergedConstants options us := by
      rw [mergedConstants, ← List.singleton_append, List.flatMap_append]
      rfl
    rw [hconstants, ConstantPool.merge_append, ← h.pool]
    exact h'.pool

theorem addUnits_extends {options : LinkOptions} (us : List BytecodeUnit) :
    ∀ {isFirst : Bool} {s s' : Linking}, addUnits options isFirst us s = .ok () s' →
      Extends options us s s' := by
  induction us with
  | nil =>
    intro isFirst s s' h
    injection h with _ hs
    subst hs
    exact ⟨⟨[], by simp, .nil⟩, ⟨[], (List.append_nil _).symm, .nil⟩, rfl⟩
  | cons u us ih =>
    intro isFirst s s' h
    rw [addUnits_cons] at h
    split at h
    · exact nomatch h
    · next s₁ hadd =>
      exact (addUnit_extends hadd).cons (ih h)

end Linking

/-! ### Linked programs -/

/-- A program is what linking makes of units. -/
structure LinkedFrom (options : LinkOptions) (us : List BytecodeUnit) (p : LinkedProgram) :
    Prop where
  /-- The code of the units stands one after the other, each in the place where it begins. -/
  code : ∃ segments, p.code = segments.flatten ∧
    List.Forall₂ (MovedSegment options p.constants) (placedUnits 0 us) segments
  /-- The functions are those of the units, in order; their jumps do not move. -/
  functions : List.Forall₂ (MovedFunction options p.constants) (ownedFunctions us)
    p.functions.entries
  /-- The pool has the first occurrences of the constants of the units. -/
  constants : p.constants = List.eraseDupsBy Constant.equals (mergedConstants options us)
  distinct : ConstantPool.Distinct p.constants

/-- Whatever units are linked and however, the program is made of them. -/
theorem linkedFrom_of_linkAll {options : LinkOptions} {us : List BytecodeUnit}
    {linked : LinkedProgram} (h : (linkAll options us).1 = .ok linked) :
    LinkedFrom options us linked := by
  obtain ⟨s, hadd, rfl⟩ := linkAll_ok h
  -- everything has been added to nothing
  have hextends := Linking.addUnits_extends us hadd
  obtain ⟨segments, hcode, hsegments⟩ := hextends.code
  obtain ⟨gs, hgs, hfunctions⟩ := hextends.functions
  have hpool : s.pool = (ConstantPool.merge [] (mergedConstants options us)).2 := hextends.pool
  refine ⟨⟨segments, hcode, hsegments⟩, ?_, ?_, ?_⟩
  · rw [show s.program.functions.entries = gs from hgs]
    exact hfunctions
  · rw [← ConstantPool.merge_nil]
    exact hpool
  · rw [show s.program.constants = _ from hpool]
    exact ConstantPool.distinct_merge _ .nil

/-- Two units that no compiler has made: one exports what the other imports, both have jumps, and
their functions load what their own pools hold. -/
theorem linkedFrom_of_linkAll_of_two :
    LinkedFrom ⟨true, true⟩
      [{ name := "a", code := [.jump 7, .loadConst 1, .loadConst 0]
         constants := [.number 0, .string "x", .string "x"]
         functions := ⟨[("f", ⟨[.loadConst 0, .jump 5], [.string "y"]⟩)]⟩
         exports := ["f"] },
        { name := "b", code := [.loadConst 0, .jumpIfFalse 1, .loadConst 1]
          constants := [.string "y", .number (-0)]
          functions := ⟨[("g", ⟨[.loadConst 1], [.none, .string "x"]⟩)]⟩
          imports := ["f"] }]
      { constants := [.number 0, .string "x", .string "y", .none]
        code := [.jump 7, .loadConst 1, .loadConst 0, .loadConst 2, .jumpIfFalse 4, .loadConst 0]
        functions := ⟨[("f", [.loadConst 2, .jump 5]), ("g", [.loadConst 1])]⟩ } :=
  linkedFrom_of_linkAll rfl

end StackScript
