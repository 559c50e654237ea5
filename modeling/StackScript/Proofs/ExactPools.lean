import Mathlib
import StackScript.Proofs.Draft
import StackScript.Proofs.LinkedProgram

/-!
The pool of compiled code is exact.

The literals of a stream are gathered from the syntax in the order in which the stream loads them,
without those of functions that are defined in it. Its pool is what is left of these literals when
later equal ones are taken out, and each load goes to the entry of its own literal.

* `Node.literals`, `literalsAll`: the literals that the code of a node loads, in order;
* `ConstantPool.Locates`: the index of a literal in a pool;
* `ConstantPool.locates_merge`, `ConstantPool.index_merge_eq_iff`, `ConstantPool.mem_indices_merge`:
  the indices of constants that join a pool;
* `loads`, `loads_settle`: the indices that code loads from are those of its literals;
* `ExactPool`, `compile_exactPool`: the pools of a unit and of its functions.
-/

namespace StackScript

/-! ### The literals of a stream -/

mutual

/-- The literals that the code of a node loads, in the order of its loads. A definition puts nothing
into the code around it, and a return without a value loads none. -/
def Node.literals : Node → List Constant
  | .number x => [.number x]
  | .string s => [.string s]
  | .identifier _ => []
  | .binary _ left right => left.literals ++ right.literals
  | .unary _ operand => operand.literals
  | .assign _ value => value.literals
  | .call _ arguments => literalsAll arguments
  | .define .. => []
  | .branch condition thenBody none => condition.literals ++ literalsAll thenBody
  | .branch condition thenBody (some elseBody) =>
    condition.literals ++ literalsAll thenBody ++ literalsAll elseBody
  | .loop condition body => condition.literals ++ literalsAll body
  | .ret none => [.none]
  | .ret (some value) => value.literals
  | .print value => value.literals

/-- The literals that the code of nodes loads, one after the other. -/
def literalsAll : List Node → List Constant
  | [] => []
  | node :: nodes => node.literals ++ literalsAll nodes

end

/-- The literal of a draft. -/
def Draft.literal? : Draft → Option Constant
  | .literal c => some c
  | .plain _ => none

mutual

/-- The literals of a draft are those of the node. -/
theorem literals_draft (base : Nat) : ∀ node : Node,
    (draft base node).filterMap Draft.literal? = node.literals
  | .number x => rfl
  | .string s => rfl
  | .identifier name => rfl
  | .binary op left right => by
    simp [draft, Node.literals, Draft.literal?, literals_draft base left, literals_draft _ right]
  | .unary op operand => by
    simp [draft, Node.literals, Draft.literal?, literals_draft base operand]
  | .assign name value => by
    simp [draft, Node.literals, Draft.literal?, literals_draft base value]
  | .call name arguments => by
    simp [draft, Node.literals, Draft.literal?, literalsAll_draftAll base arguments]
  | .define name parameters body => rfl
  | .branch condition thenBody none => by
    simp [draft, Node.literals, List.filterMap_cons, Draft.literal?,
      literals_draft base condition, literalsAll_draftAll _ thenBody]
  | .branch condition thenBody (some elseBody) => by
    simp [draft, Node.literals, List.filterMap_cons, Draft.literal?,
      literals_draft base condition, literalsAll_draftAll _ thenBody, literalsAll_draftAll _ elseBody]
  | .loop condition body => by
    simp [draft, Node.literals, List.filterMap_cons, Draft.literal?,
      literals_draft base condition, literalsAll_draftAll _ body]
  | .ret none => rfl
  | .ret (some value) => by
    simp [draft, Node.literals, Draft.literal?, literals_draft base value]
  | .print value => by
    simp [draft, Node.literals, Draft.literal?, literals_draft base value]

theorem literalsAll_draftAll (base : Nat) : ∀ nodes : List Node,
    (draftAll base nodes).filterMap Draft.literal? = literalsAll nodes
  | [] => rfl
  | node :: nodes => by
    simp [draftAll, literalsAll, literals_draft base node, literalsAll_draftAll _ nodes]

end

/-! ### Indices of constants that join a pool -/

namespace ConstantPool

/-- The index of a literal: the entry there is equal to it, or, if it is not a number and so equal to
nothing, it is the literal itself. -/
def Locates (pool : ConstantPool) (index : Nat) (c : Constant) : Prop :=
  ∃ d, pool[index]? = some d ∧ (d.equals c = true ∨ c.IsNaN ∧ d = c)

theorem Holds.locates {pool : ConstantPool} {index : Nat} {c : Constant} (h : pool.Holds index c) :
    pool.Locates index c := by
  obtain ⟨d, hd, rfl | hequal⟩ := h
  · by_cases hc : d.IsNaN
    · exact ⟨d, hd, .inr ⟨hc, rfl⟩⟩
    · exact ⟨d, hd, .inl (Constant.equals_self hc)⟩
  · exact ⟨d, hd, .inl hequal⟩

/-- A constant that is not a number is given the next index. -/
theorem place_of_isNaN {c : Constant} (hc : c.IsNaN) (pool : ConstantPool) :
    pool.place c = (pool.length, pool ++ [c]) := by
  have hnone : pool.findIdx? (·.equals c) = none := by
    rw [List.findIdx?_eq_none_iff]
    intro d _
    exact Bool.eq_false_iff.mpr fun h => Constant.not_isNaN_of_equals (Constant.equals_symm h) hc
  rw [place, hnone]

/-- A new index is that of the constant that joins. -/
theorem eq_place_of_new {pool : ConstantPool} {c : Constant} {k : Nat} (hle : pool.length ≤ k)
    (hlt : k < (pool.place c).2.length) : k = (pool.place c).1 := by
  unfold place at hlt ⊢
  split at hlt
  · exact absurd hlt (Nat.not_lt.mpr hle)
  · rw [List.length_append, List.length_singleton] at hlt
    exact Nat.le_antisymm (Nat.le_of_lt_succ hlt) hle

theorem Distinct.eq_of_equals {pool : ConstantPool} (h : pool.Distinct) {k l : Nat} {d e : Constant}
    (hd : pool[k]? = some d) (he : pool[l]? = some e) (hde : d.equals e = true) : k = l := by
  obtain ⟨hk, rfl⟩ := List.getElem?_eq_some_iff.mp hd
  obtain ⟨hl, rfl⟩ := List.getElem?_eq_some_iff.mp he
  have hdistinct := List.pairwise_iff_getElem.mp h
  rcases Nat.lt_trichotomy k l with hlt | heq | hgt
  · exact absurd hde (Bool.eq_false_iff.mp (hdistinct k l hk hl hlt))
  · exact heq
  · exact absurd (Constant.equals_symm hde) (Bool.eq_false_iff.mp (hdistinct l k hl hk hgt))

section Merge

variable {i j k l : Nat} {c d : Constant}

theorem locates_getElem? {cs : List Constant} {pool : ConstantPool} (hc : cs[i]? = some c)
    (hk : (pool.merge cs).1[i]? = some k) : (pool.merge cs).2.Locates k c := by
  obtain ⟨k', hk', hholds⟩ := holds_merge cs pool hc
  obtain rfl := Option.some.inj (hk.symm.trans hk')
  exact hholds.locates

/-- The indices of constants that join a pool locate them. -/
theorem locates_merge (cs : List Constant) (pool : ConstantPool) :
    List.Forall₂ (pool.merge cs).2.Locates (pool.merge cs).1 cs := by
  refine List.forall₂_iff_get.mpr ⟨length_merge cs pool, fun i hi hi' => ?_⟩
  exact locates_getElem? (List.getElem?_eq_getElem hi') (List.getElem?_eq_getElem hi)

/-- A constant that is not a number joins behind all that are in the pool. -/
theorem length_le_of_isNaN (cs : List Constant) : ∀ (pool : ConstantPool) {j : Nat},
    cs[j]? = some d → d.IsNaN → (pool.merge cs).1[j]? = some l → pool.length ≤ l := by
  induction cs with
  | nil =>
    intro pool j hd
    simp at hd
  | cons c cs ih =>
    intro pool j hd hnan hl
    rw [merge_cons] at hl
    cases j with
    | zero =>
      rw [List.getElem?_cons_zero, Option.some_inj] at hd hl
      subst hd
      rw [← hl, place_of_isNaN hnan]
    | succ j =>
      have hle := ih (pool.place c).2 hd hnan hl
      exact (prefix_place pool c).length_le.trans hle

/-- It is given an index above all that have been given before it. -/
theorem lt_of_isNaN (cs : List Constant) : ∀ (pool : ConstantPool) {i j : Nat}, i < j →
    cs[j]? = some d → d.IsNaN → (pool.merge cs).1[i]? = some k → (pool.merge cs).1[j]? = some l →
      k < l := by
  induction cs with
  | nil =>
    intro pool i j _ hd
    simp at hd
  | cons c cs ih =>
    intro pool i j hij hd hnan hk hl
    rw [merge_cons] at hk hl
    obtain ⟨j, rfl⟩ := Nat.exists_eq_add_one.mpr (Nat.zero_lt_of_lt hij)
    cases i with
    | zero =>
      have hle := length_le_of_isNaN cs (pool.place c).2 hd hnan hl
      rw [List.getElem?_cons_zero, Option.some_inj] at hk
      rw [← hk]
      exact Nat.lt_of_lt_of_le (lt_length_place pool c) hle
    | succ i => exact ih _ (Nat.lt_of_succ_lt_succ hij) hd hnan hk hl

/-- Constants are given one index if and only if they are equal; what is not a number has an index of
its own. -/
theorem index_merge_eq_iff (cs : List Constant) {pool : ConstantPool} (hpool : pool.Distinct)
    (hc : cs[i]? = some c) (hd : cs[j]? = some d) (hk : (pool.merge cs).1[i]? = some k)
    (hl : (pool.merge cs).1[j]? = some l) : k = l ↔ i = j ∨ c.equals d = true := by
  obtain ⟨e, he, hec⟩ := locates_getElem? hc hk
  obtain ⟨f, hf, hfd⟩ := locates_getElem? hd hl
  constructor
  · rintro rfl
    obtain rfl := Option.some.inj (he.symm.trans hf)
    rcases hec with hec | ⟨hnan, rfl⟩
    · rcases hfd with hed | ⟨hnan, rfl⟩
      · exact .inr (Constant.equals_trans (Constant.equals_symm hec) hed)
      · exact absurd hnan (Constant.not_isNaN_of_equals hec)
    · rcases hfd with hed | ⟨hnan', rfl⟩
      · exact absurd hnan (Constant.not_isNaN_of_equals hed)
      · -- of two that are not numbers the later one has the larger index
        rcases Nat.lt_trichotomy i j with hlt | heq | hgt
        · exact absurd (lt_of_isNaN cs pool hlt hd hnan hk hl) (Nat.lt_irrefl k)
        · exact .inl heq
        · exact absurd (lt_of_isNaN cs pool hgt hc hnan hl hk) (Nat.lt_irrefl k)
  · rintro (rfl | hcd)
    · exact Option.some.inj (hk.symm.trans hl)
    · have hc' := Constant.not_isNaN_of_equals hcd
      have hd' := Constant.not_isNaN_of_equals (Constant.equals_symm hcd)
      have hec := hec.resolve_right fun h => hc' h.1
      have hfd := hfd.resolve_right fun h => hd' h.1
      refine (distinct_merge cs hpool).eq_of_equals he hf ?_
      exact Constant.equals_trans (Constant.equals_trans hec hcd) (Constant.equals_symm hfd)

/-- Every new index is given to a constant. -/
theorem mem_indices_merge (cs : List Constant) : ∀ pool : ConstantPool,
    pool.length ≤ k → k < (pool.merge cs).2.length → k ∈ (pool.merge cs).1 := by
  induction cs with
  | nil =>
    intro pool hle hlt
    exact absurd hlt (Nat.not_lt.mpr hle)
  | cons c cs ih =>
    intro pool hle hlt
    rw [merge_cons] at hlt ⊢
    by_cases hk : k < (pool.place c).2.length
    · rw [eq_place_of_new hle hk]
      exact List.mem_cons_self
    · exact List.mem_cons_of_mem _ (ih _ (Nat.not_lt.mp hk) hlt)

end Merge

end ConstantPool

/-! ### Loads -/

/-- The index that an instruction loads from. -/
def Instruction.loaded? : Instruction → Option Nat
  | loadConst index => some index
  | _ => none

/-- The indices that code loads from, in order. -/
def loads (code : List Instruction) : List Nat :=
  code.filterMap Instruction.loaded?

theorem mem_loads {code : List Instruction} {k : Nat} : k ∈ loads code ↔ .loadConst k ∈ code := by
  rw [loads, List.mem_filterMap]
  constructor
  · rintro ⟨i, hi, hk⟩
    cases i with
    | loadConst index =>
      obtain rfl := Option.some.inj hk
      exact hi
    | _ => cases hk
  · intro h
    exact ⟨_, h, rfl⟩

/-- Settled code loads from the indices that its literals are given when they join the pool. -/
theorem loads_settle {stop : Nat} {ds : List Draft} (h : AllWithin stop ds) : ∀ pool : ConstantPool,
    (loads (settle pool ds).1, (settle pool ds).2) = pool.merge (ds.filterMap Draft.literal?) := by
  induction ds with
  | nil => exact fun pool => rfl
  | cons d ds ih =>
    intro pool
    rw [allWithin_cons] at h
    cases d with
    | literal c =>
      have hrest := ih h.2 (pool.place c).2
      show _ = pool.merge (c :: ds.filterMap Draft.literal?)
      rw [ConstantPool.merge_cons, ← hrest]
      rfl
    | plain i =>
      have hrest := ih h.2 pool
      cases i with
      | loadConst k => exact h.1.elim
      | _ => exact hrest

/-- The code of nodes loads from the indices that their literals are given in an empty pool. -/
theorem loads_settle_draftAll (nodes : List Node) :
    loads (settle [] (draftAll 0 nodes)).1 = (ConstantPool.merge [] (literalsAll nodes)).1 ∧
      (settle [] (draftAll 0 nodes)).2 = (ConstantPool.merge [] (literalsAll nodes)).2 := by
  have hsettle := loads_settle (withinAll_draftAll 0 nodes) []
  rw [literalsAll_draftAll] at hsettle
  exact Prod.ext_iff.mp hsettle

/-! ### Pools of compiled code -/

/-- A pool is exact for the code of nodes: it consists of the first occurrences of the literals in the
nodes, and the loads of the code, one for each literal, go to their entries. -/
structure ExactPool (nodes : List Node) (code : List Instruction) (pool : ConstantPool) : Prop where
  distinct : pool.Distinct
  first : pool = List.eraseDupsBy Constant.equals (literalsAll nodes)
  located : List.Forall₂ pool.Locates (loads code) (literalsAll nodes)
  /-- Only equal literals have one index, so that what is not a number has an entry of its own. -/
  shared : ∀ {i j k l : Nat} {c d : Constant}, (loads code)[i]? = some k → (loads code)[j]? = some l →
    (literalsAll nodes)[i]? = some c → (literalsAll nodes)[j]? = some d →
      (k = l ↔ i = j ∨ c.equals d = true)
  used : ∀ k < pool.length, .loadConst k ∈ code

theorem exactPool_settle (nodes : List Node) :
    ExactPool nodes (settle [] (draftAll 0 nodes)).1 (settle [] (draftAll 0 nodes)).2 := by
  obtain ⟨hloads, hpool⟩ := loads_settle_draftAll nodes
  rw [hpool]
  constructor
  · exact ConstantPool.distinct_merge _ List.Pairwise.nil
  · exact ConstantPool.merge_nil _
  · rw [hloads]
    exact ConstantPool.locates_merge _ _
  · intro i j k l c d hk hl hc hd
    rw [hloads] at hk hl
    exact ConstantPool.index_merge_eq_iff _ List.Pairwise.nil hc hd hk hl
  · intro k hk
    rw [← mem_loads, hloads]
    exact ConstantPool.mem_indices_merge _ [] (Nat.zero_le k) hk

/-- The pool of a unit is exact for its main code, and that of each function for the code of the
body. -/
theorem compile_exactPool (name : String) (program : Program) :
    let u := compile name program
    ExactPool program u.code u.constants ∧
      ∀ f ∈ u.functions.entries, ∃ d ∈ definitionsAll program,
        f.1 = d.name ∧ ExactPool d.body f.2.code f.2.constants := by
  intro u
  constructor
  · simp only [u, compile_eq]
    exact exactPool_settle program
  · intro f hf
    obtain ⟨d, hd, rfl⟩ := exists_definition_of_function hf
    refine ⟨d, hd, rfl, ?_⟩
    rw [FunctionDef.compiled, compileBody_eq]
    exact exactPool_settle d.body

end StackScript
