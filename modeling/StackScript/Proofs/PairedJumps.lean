import Mathlib.Data.List.Perm.Basic
import Mathlib.Data.Set.Function
import Mathlib.Order.Interval.Set.Basic
import StackScript.Proofs.RebasedLinking

/-!
The jumps of compiled code come in pairs.

A branch and a loop surround a body with two instructions: before it one that goes past it if the
condition is false, and at its end a jump. The first goes to the place right behind the second. Code
is thus made of blocks, like a text with brackets, and every fact about the pairs follows from this
form by induction on it.

* `Blocks`: code in blocks, with the places of the instructions around each body;
* `Blocks.bounds`, `Blocks.laminar`: pairs are within the code, and apart or one inside the other;
* `Blocks.branches`, `Blocks.jumps`: the pairs are all branches and all jumps of the code;
* `JumpsPaired`: what this says about code, by the places of its instructions;
* `InBlocks`, `inBlocks_draft`, `inBlocks_draftAll`: the code of a draft is in blocks;
* `jumpsPaired_compileBody`, `jumpsPaired_streams`: so is compiled code.
-/

namespace StackScript

/-! ### Code in blocks -/

/-- Code in blocks whose first instruction has the place `base`, with the places of the two
instructions around the body of each block, in the order in which the blocks begin. -/
inductive Blocks : (base : Nat) → List Instruction → List (Nat × Nat) → Prop where
  | nil {base : Nat} : Blocks base [] []
  | cons {base : Nat} {i : Instruction} {code : List Instruction} {ps : List (Nat × Nat)}
      (hi : i.isJump = false) (hcode : Blocks (base + 1) code ps) : Blocks base (i :: code) ps
  | block {base t : Nat} {body rest : List Instruction} {ps qs : List (Nat × Nat)}
      (hbody : Blocks (base + 1) body ps) (hrest : Blocks (base + 1 + body.length + 1) rest qs) :
      Blocks base (.jumpIfFalse (base + 1 + body.length + 1) :: body ++ .jump t :: rest)
        ((base, base + 1 + body.length) :: ps ++ qs)

/-- The second pair is behind the first one, or inside it. -/
def Precedes (p q : Nat × Nat) : Prop :=
  p.2 < q.1 ∨ p.1 < q.1 ∧ q.2 < p.2

/-- Two pairs are the same, apart, or one inside the other. -/
def Laminar (p q : Nat × Nat) : Prop :=
  p = q ∨ Precedes p q ∨ Precedes q p

instance : Std.Symm Laminar :=
  ⟨fun _ _ h => h.imp Eq.symm Or.symm⟩

/-- The place and the target of a branch. -/
def branch? : Instruction × Nat → Option (Nat × Nat)
  | (.jumpIfFalse t, k) => some (k, t)
  | _ => none

/-- The place of a jump. -/
def jump? : Instruction × Nat → Option Nat
  | (.jump _, k) => some k
  | _ => none

theorem branch?_eq_some_iff {i : Instruction} {l k t : Nat} :
    branch? (i, l) = some (k, t) ↔ i = .jumpIfFalse t ∧ l = k := by
  cases i <;> simp [branch?, and_comm]

theorem jump?_eq_some_iff {i : Instruction} {l k : Nat} :
    jump? (i, l) = some k ↔ (∃ t, i = .jump t) ∧ l = k := by
  cases i <;> simp [jump?]

namespace Blocks

variable {base : Nat} {code : List Instruction} {ps : List (Nat × Nat)}

theorem append (h : Blocks base code ps) {more : List Instruction} {qs : List (Nat × Nat)}
    (hmore : Blocks (base + code.length) more qs) : Blocks base (code ++ more) (ps ++ qs) := by
  induction h with
  | nil => exact hmore
  | cons hi _ ih =>
    refine .cons hi (ih ?_)
    rwa [List.length_cons, Nat.add_comm _ 1, ← Nat.add_assoc] at hmore
  | @block base t body rest ps qs' hbody _ _ ihrest =>
    rw [List.append_assoc, List.append_assoc, List.cons_append]
    refine .block hbody (ihrest ?_)
    have hlength : base + (.jumpIfFalse (base + 1 + body.length + 1) :: body
        ++ .jump t :: rest).length = base + 1 + body.length + 1 + rest.length := by
      simp only [List.length_append, List.length_cons]
      omega
    rwa [hlength] at hmore

/-- A pair is within the code, and its branch comes first. -/
theorem bounds (h : Blocks base code ps) :
    ∀ p ∈ ps, base ≤ p.1 ∧ p.1 < p.2 ∧ p.2 < base + code.length := by
  induction h with
  | nil => exact fun p hp => absurd hp List.not_mem_nil
  | cons _ _ ih =>
    intro p hp
    obtain ⟨hbase, hlt, hend⟩ := ih p hp
    rw [List.length_cons]
    omega
  | block _ _ ihbody ihrest =>
    intro p hp
    simp only [List.length_append, List.length_cons]
    rcases List.mem_append.mp hp with hp | hp
    · rcases List.mem_cons.mp hp with rfl | hp
      · omega
      · obtain ⟨hbase, hlt, hend⟩ := ihbody p hp
        omega
    · obtain ⟨hbase, hlt, hend⟩ := ihrest p hp
      omega

/-- Blocks begin in the order of their pairs. -/
theorem pairwise (h : Blocks base code ps) : ps.Pairwise Precedes := by
  induction h with
  | nil => exact .nil
  | cons _ _ ih => exact ih
  | block hbody hrest ihbody ihrest =>
    rw [List.cons_append, List.pairwise_cons, List.pairwise_append]
    refine ⟨?_, ihbody, ihrest, ?_⟩
    · intro q hq
      rcases List.mem_append.mp hq with hq | hq
      · obtain ⟨hbase, -, hend⟩ := hbody.bounds q hq
        exact .inr ⟨hbase, by omega⟩
      · obtain ⟨hbase, -, -⟩ := hrest.bounds q hq
        exact .inl (by omega)
    · intro p hp q hq
      obtain ⟨-, -, hend⟩ := hbody.bounds p hp
      obtain ⟨hbase, -, -⟩ := hrest.bounds q hq
      exact .inl (by omega)

/-- The branches of the code are the first places of the pairs, and each goes right behind the
second place of its pair. -/
theorem branches (h : Blocks base code ps) :
    (code.zipIdx base).filterMap branch? = ps.map fun p => (p.1, p.2 + 1) := by
  induction h with
  | nil => rfl
  | @cons base i code ps hi _ ih =>
    have hnone : branch? (i, base) = none := by
      cases i with
      | jumpIfFalse t => exact absurd hi Bool.noConfusion
      | _ => rfl
    rw [List.zipIdx_cons, List.filterMap_cons_none hnone, ih]
  | @block base t body rest ps qs _ _ ihbody ihrest =>
    simp only [List.cons_append, List.zipIdx_cons, List.zipIdx_append, List.filterMap_cons,
      List.filterMap_append, branch?, ihbody, ihrest, List.map_cons, List.map_append]

/-- The jumps of the code are the second places of the pairs. -/
theorem jumps (h : Blocks base code ps) :
    ((code.zipIdx base).filterMap jump?).Perm (ps.map Prod.snd) := by
  induction h with
  | nil => exact .refl _
  | @cons base i code ps hi _ ih =>
    have hnone : jump? (i, base) = none := by
      cases i with
      | jump t => exact absurd hi Bool.noConfusion
      | _ => rfl
    rwa [List.zipIdx_cons, List.filterMap_cons_none hnone]
  | @block base t body rest ps qs _ _ ihbody ihrest =>
    simp only [List.cons_append, List.zipIdx_cons, List.zipIdx_append, List.filterMap_cons,
      List.filterMap_append, jump?, List.map_cons, List.map_append]
    -- the jump of the block stands between those of the body and those behind the block
    exact List.perm_middle.trans ((ihbody.append ihrest).cons _)

end Blocks

/-! ### The jumps of code, by their places -/

/-- The places of branches. -/
def branchPlaces (code : List Instruction) : Set Nat :=
  {k | ∃ t, code[k]? = some (.jumpIfFalse t)}

/-- The places of jumps. -/
def jumpPlaces (code : List Instruction) : Set Nat :=
  {k | ∃ t, code[k]? = some (.jump t)}

/-- The place before the one that a branch goes to. -/
def partner (code : List Instruction) (k : Nat) : Nat :=
  match code[k]? with
  | some (.jumpIfFalse t) => t - 1
  | _ => k

/-- The places from a branch to its partner. -/
def span (code : List Instruction) (k : Nat) : Set Nat :=
  Set.Icc k (partner code k)

/-- Branches and jumps stay in the code and come in pairs, which are apart or one in the other. -/
structure JumpsPaired (code : List Instruction) : Prop where
  target_le : ∀ t, .jump t ∈ code ∨ .jumpIfFalse t ∈ code → t ≤ code.length
  /-- A branch goes forward, right behind a jump. -/
  forward : ∀ k t, code[k]? = some (.jumpIfFalse t) →
    ∃ j s, t = j + 1 ∧ k < j ∧ code[j]? = some (.jump s)
  bijOn : Set.BijOn (partner code) (branchPlaces code) (jumpPlaces code)
  nested : ∀ k ∈ branchPlaces code, ∀ l ∈ branchPlaces code,
    span code k ⊆ span code l ∨ span code l ⊆ span code k ∨ Disjoint (span code k) (span code l)

namespace Blocks

variable {code : List Instruction} {ps : List (Nat × Nat)}

theorem getElem?_branch_iff (h : Blocks 0 code ps) {k t : Nat} :
    code[k]? = some (.jumpIfFalse t) ↔ ∃ p ∈ ps, p.1 = k ∧ p.2 + 1 = t := by
  have hmem : (k, t) ∈ code.zipIdx.filterMap branch? ↔ code[k]? = some (.jumpIfFalse t) := by
    simp [List.mk_mem_zipIdx_iff_getElem?, branch?_eq_some_iff]
  rw [← hmem, h.branches, List.mem_map]
  simp only [Prod.mk.injEq]

theorem getElem?_jump_iff (h : Blocks 0 code ps) {k : Nat} :
    (∃ t, code[k]? = some (.jump t)) ↔ ∃ p ∈ ps, p.2 = k := by
  have hmem : k ∈ code.zipIdx.filterMap jump? ↔ ∃ t, code[k]? = some (.jump t) := by
    simp [List.mk_mem_zipIdx_iff_getElem?, jump?_eq_some_iff]
  rw [← hmem, h.jumps.mem_iff, List.mem_map]

theorem mem_branchPlaces_iff (h : Blocks 0 code ps) {k : Nat} :
    k ∈ branchPlaces code ↔ ∃ p ∈ ps, p.1 = k := by
  refine ⟨?_, ?_⟩
  · rintro ⟨t, hk⟩
    obtain ⟨p, hp, hfst, -⟩ := h.getElem?_branch_iff.mp hk
    exact ⟨p, hp, hfst⟩
  · rintro ⟨p, hp, rfl⟩
    exact ⟨p.2 + 1, h.getElem?_branch_iff.mpr ⟨p, hp, rfl, rfl⟩⟩

theorem partner_eq (h : Blocks 0 code ps) {p : Nat × Nat} (hp : p ∈ ps) :
    partner code p.1 = p.2 := by
  rw [partner, h.getElem?_branch_iff.mpr ⟨p, hp, rfl, rfl⟩]
  rfl

theorem laminar (h : Blocks 0 code ps) {p q : Nat × Nat} (hp : p ∈ ps) (hq : q ∈ ps) :
    Laminar p q :=
  List.Pairwise.forall_of_forall (fun _ _ => .inl rfl) (h.pairwise.imp fun h => .inr (.inl h)) hp hq

theorem bijOn_partner (h : Blocks 0 code ps) :
    Set.BijOn (partner code) (branchPlaces code) (jumpPlaces code) := by
  refine ⟨?_, ?_, ?_⟩
  · intro k hk
    obtain ⟨p, hp, rfl⟩ := h.mem_branchPlaces_iff.mp hk
    rw [h.partner_eq hp]
    exact h.getElem?_jump_iff.mpr ⟨p, hp, rfl⟩
  · intro k hk l hl heq
    obtain ⟨p, hp, rfl⟩ := h.mem_branchPlaces_iff.mp hk
    obtain ⟨q, hq, rfl⟩ := h.mem_branchPlaces_iff.mp hl
    rw [h.partner_eq hp, h.partner_eq hq] at heq
    obtain ⟨-, hp', -⟩ := h.bounds p hp
    obtain ⟨-, hq', -⟩ := h.bounds q hq
    rcases h.laminar hp hq with rfl | (hlt | ⟨-, hlt⟩) | (hlt | ⟨-, hlt⟩)
    · rfl
    all_goals omega
  · intro j hj
    obtain ⟨p, hp, rfl⟩ := h.getElem?_jump_iff.mp hj
    exact ⟨p.1, h.mem_branchPlaces_iff.mpr ⟨p, hp, rfl⟩, h.partner_eq hp⟩

theorem nested (h : Blocks 0 code ps) : ∀ k ∈ branchPlaces code, ∀ l ∈ branchPlaces code,
    span code k ⊆ span code l ∨ span code l ⊆ span code k
      ∨ Disjoint (span code k) (span code l) := by
  intro k hk l hl
  obtain ⟨p, hp, rfl⟩ := h.mem_branchPlaces_iff.mp hk
  obtain ⟨q, hq, rfl⟩ := h.mem_branchPlaces_iff.mp hl
  rw [span, span, h.partner_eq hp, h.partner_eq hq]
  have hdisjoint : ∀ {p q : Nat × Nat}, p.2 < q.1 →
      Disjoint (Set.Icc p.1 p.2) (Set.Icc q.1 q.2) := fun hlt =>
    Set.disjoint_left.mpr fun x hx hx' => absurd hlt (Nat.not_lt.mpr (hx'.1.trans hx.2))
  rcases h.laminar hp hq with rfl | (hlt | ⟨hfst, hsnd⟩) | (hlt | ⟨hfst, hsnd⟩)
  · exact .inl subset_rfl
  · exact .inr (.inr (hdisjoint hlt))
  · exact .inr (.inl (Set.Icc_subset_Icc hfst.le hsnd.le))
  · exact .inr (.inr (hdisjoint hlt).symm)
  · exact .inl (Set.Icc_subset_Icc hfst.le hsnd.le)

end Blocks

/-! ### Drafts -/

/-- The code of a draft is in blocks, over every pool. -/
def InBlocks (base : Nat) (ds : List Draft) : Prop :=
  ∀ pool, ∃ ps, Blocks base (settle pool ds).1 ps

theorem inBlocks_nil (base : Nat) : InBlocks base [] :=
  fun _ => ⟨[], .nil⟩

theorem inBlocks_literal (base : Nat) (c : Constant) : InBlocks base [.literal c] :=
  fun _ => ⟨[], .cons rfl .nil⟩

theorem inBlocks_plain (base : Nat) {i : Instruction} (hi : i.isJump = false) :
    InBlocks base [.plain i] :=
  fun _ => ⟨[], .cons hi .nil⟩

namespace InBlocks

variable {base : Nat} {ds es : List Draft}

theorem append (hds : InBlocks base ds) (hes : InBlocks (base + ds.length) es) :
    InBlocks base (ds ++ es) := by
  intro pool
  obtain ⟨ps, hps⟩ := hds pool
  obtain ⟨qs, hqs⟩ := hes (settle pool ds).2
  rw [settle_append]
  refine ⟨ps ++ qs, hps.append ?_⟩
  rwa [length_settle]

theorem snoc (hds : InBlocks base ds) {i : Instruction} (hi : i.isJump = false) :
    InBlocks base (ds ++ [.plain i]) :=
  hds.append (inBlocks_plain _ hi)

/-- A condition, a body that is skipped if it is false, and what there is behind the body. -/
theorem guarded {test body after : List Draft} (htest : InBlocks base test)
    (hbody : InBlocks (base + test.length + 1) body)
    (hafter : InBlocks (base + test.length + 1 + body.length + 1) after) (target : Nat) :
    InBlocks base (test ++ .plain (.jumpIfFalse (base + test.length + 1 + body.length + 1)) :: body
      ++ .plain (.jump target) :: after) := by
  rw [List.append_assoc]
  refine htest.append fun pool => ?_
  obtain ⟨ps, hps⟩ := hbody pool
  obtain ⟨qs, hqs⟩ := hafter (settle pool body).2
  have hblock := Blocks.block (t := target) hps (by rwa [length_settle])
  rw [length_settle] at hblock
  refine ⟨(base + test.length, base + test.length + 1 + body.length) :: ps ++ qs, ?_⟩
  simpa only [List.cons_append, settle, settle_append] using hblock

end InBlocks

mutual

/-- The code of a node is in blocks. -/
theorem inBlocks_draft (base : Nat) : ∀ node : Node, InBlocks base (draft base node)
  | .number _ => inBlocks_literal base _
  | .string _ => inBlocks_literal base _
  | .identifier _ => inBlocks_plain base rfl
  | .binary _ left right =>
    ((inBlocks_draft base left).append (inBlocks_draft _ right)).snoc rfl
  | .unary _ operand => (inBlocks_draft base operand).snoc rfl
  | .assign _ value => (inBlocks_draft base value).snoc rfl
  | .call _ arguments => (inBlocks_draftAll base arguments).snoc rfl
  | .define .. => inBlocks_nil base
  | .branch condition thenBody none =>
    (inBlocks_draft base condition).guarded (inBlocks_draftAll _ thenBody) (inBlocks_nil _) _
  | .branch condition thenBody (some elseBody) =>
    (inBlocks_draft base condition).guarded (inBlocks_draftAll _ thenBody)
      (inBlocks_draftAll _ elseBody) _
  | .loop condition body =>
    (inBlocks_draft base condition).guarded (inBlocks_draftAll _ body) (inBlocks_nil _) _
  | .ret none => (inBlocks_literal base _).snoc rfl
  | .ret (some value) => (inBlocks_draft base value).snoc rfl
  | .print value => (inBlocks_draft base value).snoc rfl

/-- The code of nodes one after the other is in blocks. -/
theorem inBlocks_draftAll (base : Nat) : ∀ nodes : List Node, InBlocks base (draftAll base nodes)
  | [] => inBlocks_nil base
  | node :: nodes => (inBlocks_draft base node).append (inBlocks_draftAll _ nodes)

end

/-! ### Compiled code -/

/-- The jumps of a body compiled on its own are paired. -/
theorem jumpsPaired_compileBody (body : List Node) : JumpsPaired (compileBody body).code := by
  obtain ⟨ps, hps⟩ := inBlocks_draftAll 0 body []
  have hcode : (compileBody body).code = (settle [] (draftAll 0 body)).1 := by
    rw [compileBody_eq]
  rw [← hcode] at hps
  refine ⟨?_, ?_, hps.bijOn_partner, hps.nested⟩
  · intro t ht
    rw [hcode, length_settle]
    rcases ht with ht | ht
    · exact target_le_compileBody ht (.inl rfl)
    · exact target_le_compileBody ht (.inr rfl)
  · intro k t hk
    obtain ⟨p, hp, rfl, rfl⟩ := hps.getElem?_branch_iff.mp hk
    obtain ⟨s, hs⟩ := hps.getElem?_jump_iff.mpr ⟨p, hp, rfl⟩
    exact ⟨p.2, s, rfl, (hps.bounds p hp).2.1, hs⟩

/-- The jumps of a unit are paired, in its main code and in each of its functions. -/
theorem jumpsPaired_streams (name : String) (program : Program) :
    ∀ code ∈ (compile name program).streams, JumpsPaired code := by
  intro code hcode
  rcases List.mem_cons.mp hcode with rfl | hcode
  · exact jumpsPaired_compileBody program
  · obtain ⟨f, hf, rfl⟩ := List.mem_map.mp hcode
    obtain ⟨d, -, rfl⟩ := exists_definition_of_function hf
    exact jumpsPaired_compileBody d.body

end StackScript
