import StackScript.Proofs.Linking

/-!
The warning about jumps that do not move.

Units are linked twice, the second time with their jumps moved. Where the first linking gives no
warning, the second one comes to the same result: the unit in front is not moved, and the others
have no jumps. A unit is moved by the length of the code before it, which may be nothing. The
warning is given then as well, with a zero, so it is the warnings without a zero that tell whether
two programs that have been linked differ.

* `Relocation.applyAll_of_unmoved`, `Relocation.moved_eq_iff`: relocation by an offset changes code
  iff the offset is not zero and there are jumps;
* `Linking.addFunctions_frame`: functions are added whatever code and notices there are;
* `Linking.Astray`: jumps have been left where they do not belong;
* `Linking.Parallel`, `Linking.Together`: two linkings that have come as far, and how they come out;
* `Linking.addUnit_together`, `Linking.addUnits_together`: one unit, and all of them;
* `linkAll_unmoved`: what the warnings of one linking say about the other.
-/

namespace StackScript

/-! ### Relocation by an offset -/

namespace Relocation

/-- The relocation that leaves jumps where they are. -/
def still (r : Relocation) : Relocation :=
  { r with offset := 0 }

/-- A jump has its target moved. -/
theorem eq_shift_of_apply {r : Relocation} {i j : Instruction} (hi : i.isJump = true)
    (h : r.apply i = .ok j) : j = i.shift r.offset := by
  rcases apply_ok h with ⟨k, l, rfl, -, -⟩ | ⟨-, hj⟩
  · exact absurd hi Bool.noConfusion
  · exact hj

/-- How far a jump has been moved can be seen from its target. -/
theorem shift_inj {i : Instruction} (hi : i.isJump = true) {m n : Nat} (h : i.shift m = i.shift n) :
    m = n := by
  cases i with
  | jump t => exact Nat.add_left_cancel (Instruction.jump.inj h)
  | jumpIfFalse t => exact Nat.add_left_cancel (Instruction.jumpIfFalse.inj h)
  | _ => exact absurd hi Bool.noConfusion

/-- Code without jumps does not care where it begins. -/
theorem applyAll_of_unmoved {r : Relocation} {code : List Instruction}
    (h : r.offset = 0 ∨ code.any Instruction.isJump = false) :
    r.applyAll code = r.still.applyAll code := by
  rcases h with h | h
  · rw [still, ← h]
  · induction code with
    | nil => rfl
    | cons i is ih =>
      rw [List.any_cons, Bool.or_eq_false_iff] at h
      have hi : r.apply i = r.still.apply i := by
        cases i with
        | jump t => exact absurd h.1 Bool.noConfusion
        | jumpIfFalse t => exact absurd h.1 Bool.noConfusion
        | _ => rfl
      rw [applyAll_cons, applyAll_cons, hi, ih h.2]

/-- Code that comes out the same wherever it begins has no jumps. -/
theorem unmoved_of_applyAll {r : Relocation} {code moved : List Instruction}
    (h : r.applyAll code = .ok moved) (hstill : r.still.applyAll code = .ok moved) :
    r.offset = 0 ∨ code.any Instruction.isJump = false := by
  rw [or_iff_not_imp_right, Bool.not_eq_false, List.any_eq_true]
  rintro ⟨i, hi, hjump⟩
  -- one instruction takes the place of the jump in both
  obtain ⟨k, hk, rfl⟩ := List.getElem_of_mem hi
  have hmoved := (applyAll_ok h).get hk ((applyAll_ok h).length_eq ▸ hk)
  have hkept := (applyAll_ok hstill).get hk ((applyAll_ok h).length_eq ▸ hk)
  simp only [List.get_eq_getElem] at hmoved hkept
  rw [eq_shift_of_apply hjump hkept] at hmoved
  exact (shift_inj hjump (eq_shift_of_apply hjump hmoved)).symm

/-- Code comes out the same with and without an offset iff the offset does not move it. -/
theorem moved_eq_iff {r : Relocation} {code moved kept : List Instruction}
    (hmoved : r.applyAll code = .ok moved) (hkept : r.still.applyAll code = .ok kept) :
    moved = kept ↔ r.offset = 0 ∨ code.any Instruction.isJump = false := by
  constructor
  · rintro rfl
    exact unmoved_of_applyAll hmoved hkept
  · intro hunmoved
    rw [applyAll_of_unmoved hunmoved] at hmoved
    exact Except.ok.inj (hmoved.symm.trans hkept)

end Relocation

namespace Linking

/-! ### Functions -/

/-- Functions are added whatever code and notices there are, and leave these as they are. -/
theorem addFunctions_frame (options : LinkOptions) (unit : String) (remap : List Nat)
    (fs : List (String × CompiledFunction)) (code : List Instruction) (notices : List Notice) :
    ∀ s : Linking, addFunctions options unit remap fs { s with code := code, notices := notices }
      = match addFunctions options unit remap fs s with
        | .ok () s' => .ok () { s' with code := code, notices := notices }
        | .error e s' => .error e { s' with code := code, notices := notices } := by
  induction fs with
  | nil => intro s; rfl
  | cons f fs ih =>
    intro s
    rw [addFunctions_cons, addFunctions_cons, addFunction_eq, addFunction_eq]
    by_cases hname : s.functions.contains f.1 = true
    · rw [if_pos hname, if_pos hname]
    · rw [if_neg hname, if_neg hname]
      cases hcode : Relocation.applyAll
        ⟨unit, f.1, (functionConstants options s.pool remap f.2).1, 0⟩ f.2.code with
      | error e => rfl
      | ok moved =>
        exact ih { s with
          pool := (functionConstants options s.pool remap f.2).2
          functions := s.functions.insert f.1 moved }

/-- The jumps of functions are not moved under any options. -/
theorem addFunctions_rebase (rebase merge : Bool) (unit : String) (remap : List Nat)
    (fs : List (String × CompiledFunction)) :
    addFunctions ⟨rebase, merge⟩ unit remap fs = addFunctions ⟨false, merge⟩ unit remap fs := by
  induction fs with
  | nil => rfl
  | cons f fs ih =>
    rw [addFunctions, addFunctions, ih]
    rfl

theorem stateAfter_addFunctions (options : LinkOptions) (unit : String) (remap : List Nat)
    (fs : List (String × CompiledFunction)) (s : Linking) :
    (stateAfter (addFunctions options unit remap fs s)).code = s.code ∧
      (stateAfter (addFunctions options unit remap fs s)).notices = s.notices := by
  have hframe := addFunctions_frame options unit remap fs s.code s.notices s
  rw [hframe]
  cases addFunctions options unit remap fs s <;> exact ⟨rfl, rfl⟩

/-! ### Warnings -/

/-- A unit has been linked behind other code with its jumps left as they were. -/
def Astray (notices : List Notice) : Prop :=
  ∃ unit offset, offset ≠ 0 ∧ .jumpsNotRebased unit offset ∈ notices

theorem astray_append {ns ms : List Notice} : Astray (ns ++ ms) ↔ Astray ns ∨ Astray ms := by
  simp only [Astray, List.mem_append, and_or_left, exists_or]

/-- The jumps of a unit go astray if it has any, and there is code before it. -/
theorem astray_jumpWarnings {merge isFirst : Bool} {u : BytecodeUnit} {base : Nat}
    (hfirst : isFirst = true → base = 0) :
    Astray (jumpWarnings ⟨false, merge⟩ isFirst u base) ↔
      ¬(base = 0 ∨ u.code.any Instruction.isJump = false) := by
  unfold jumpWarnings Astray
  cases isFirst with
  | true => simp [hfirst rfl]
  | false =>
    cases u.code.any Instruction.isJump with
    | false => simp
    | true => simp

theorem astray_addUnit (options : LinkOptions) (isFirst : Bool) (u : BytecodeUnit) (s : Linking) :
    Astray (stateAfter (addUnit options isFirst u s)).notices ↔
      Astray s.notices ∨ Astray (jumpWarnings options isFirst u s.code.length) := by
  rw [← astray_append, addUnit_eq]
  cases Relocation.applyAll _ u.code with
  | error e => exact Iff.rfl
  | ok code =>
    have hnotices := (stateAfter_addFunctions options u.name (s.pool.merge u.constants).1
      u.functions.entries { s with
        pool := (s.pool.merge u.constants).2
        code := s.code ++ code
        notices := s.notices ++ jumpWarnings options isFirst u s.code.length }).2
    simp only
    cases hadd : addFunctions options u.name (s.pool.merge u.constants).1 u.functions.entries
      { s with
        pool := (s.pool.merge u.constants).2
        code := s.code ++ code
        notices := s.notices ++ jumpWarnings options isFirst u s.code.length } with
    | error e s' =>
      rw [hadd] at hnotices
      exact iff_of_eq (congrArg Astray hnotices)
    | ok _ s' =>
      rw [hadd] at hnotices
      have hlinked : ¬Astray [.linkedUnit u.name s.code.length u.code.length u.functions.size] := by
        simp [Astray]
      exact (astray_append.trans (or_iff_left hlinked)).trans (iff_of_eq (congrArg Astray hnotices))

theorem astray_addUnits (options : LinkOptions) (us : List BytecodeUnit) :
    ∀ (isFirst : Bool) (s : Linking), Astray s.notices →
      Astray (stateAfter (addUnits options isFirst us s)).notices := by
  induction us with
  | nil => exact fun _ _ h => h
  | cons u us ih =>
    intro isFirst s h
    have hunit := (astray_addUnit options isFirst u s).mpr (.inl h)
    rw [addUnits_cons]
    cases hadd : addUnit options isFirst u s with
    | error e s' =>
      rw [hadd] at hunit
      exact hunit
    | ok _ s' =>
      rw [hadd] at hunit
      exact ih false s' hunit

/-! ### Two linkings at a time -/

/-- Two linkings that have come as far, of which only the second has moved jumps. -/
structure Parallel (s t : Linking) : Prop where
  pool : t.pool = s.pool
  functions : t.functions = s.functions
  length : t.code.length = s.code.length
  code : t.code = s.code ↔ ¬Astray s.notices

/-- How two linkings come out of which only the second moves jumps: with one error, if any, unless
the first one has left jumps astray. -/
structure Together (x y : EStateM.Result LinkError Linking Unit) : Prop where
  parallel : ∀ s t, x = .ok () s → y = .ok () t → Parallel s t
  error : ¬Astray (stateAfter x).notices → error? y = error? x

variable {merge isFirst : Bool} {s t : Linking} {u : BytecodeUnit}

/-- Functions that are added to both come out the same. -/
theorem Parallel.addFunctions (h : Parallel s t) (unit : String) (remap : List Nat)
    (fs : List (String × CompiledFunction)) (pool : ConstantPool) (code : List Instruction)
    (notices : List Notice) {code' : List Instruction} {notices' : List Notice} :
    Linking.addFunctions ⟨true, merge⟩ unit remap fs
        { t with pool := pool, code := code', notices := notices' }
      = match Linking.addFunctions ⟨false, merge⟩ unit remap fs
          { s with pool := pool, code := code, notices := notices } with
        | .ok () s' => .ok () { s' with code := code', notices := notices' }
        | .error e s' => .error e { s' with code := code', notices := notices' } := by
  rw [addFunctions_rebase, h.functions]
  exact addFunctions_frame ⟨false, merge⟩ unit remap fs code' notices'
    { s with pool := pool, code := code, notices := notices }

/-- A unit that is added to both is moved by the second one iff the first one warns of it. -/
theorem Parallel.addUnit (h : Parallel s t) (hfirst : isFirst = true → s.code.length = 0)
    {s' t' : Linking} (hs : addUnit ⟨false, merge⟩ isFirst u s = .ok () s')
    (ht : addUnit ⟨true, merge⟩ isFirst u t = .ok () t') : Parallel s' t' := by
  have hastray := astray_addUnit ⟨false, merge⟩ isFirst u s
  rw [hs, stateAfter, astray_jumpWarnings hfirst] at hastray
  obtain ⟨kept, ns, s₁, hkept, hs₁, hspool, hscode, hsfunctions⟩ := addUnit_ok hs
  obtain ⟨moved, ms, t₁, hmoved, ht₁, htpool, htcode, htfunctions⟩ := addUnit_ok ht
  rw [h.pool, h.length] at hmoved
  -- the functions have been added to states that differ in code and notices alone
  rw [h.pool, h.addFunctions _ _ _ _ (s.code ++ kept) ns, hs₁] at ht₁
  injection ht₁ with _ ht₁
  have hcode : s₁.code = s.code ++ kept := by
    have hstate := congrArg (fun x => (stateAfter x).code) hs₁
    rwa [(stateAfter_addFunctions _ _ _ _ _).1, eq_comm] at hstate
  have hlength : moved.length = kept.length :=
    (Relocation.applyAll_ok hmoved).length_eq.symm.trans (Relocation.applyAll_ok hkept).length_eq
  have hsame : moved = kept ↔ s.code.length = 0 ∨ u.code.any Instruction.isJump = false :=
    Relocation.moved_eq_iff hmoved hkept
  refine ⟨?_, ?_, ?_, ?_⟩
  · rw [htpool, hspool, ← ht₁]
  · rw [htfunctions, hsfunctions, ← ht₁]
  · rw [htcode, hscode, ← ht₁, hcode, List.length_append, List.length_append, h.length, hlength]
  · rw [hastray, htcode, hscode, ← ht₁, hcode, not_or, not_not, ← hsame, ← h.code]
    -- the code of the unit begins at the same place in both
    constructor
    · intro heq
      exact List.append_inj heq h.length
    · rintro ⟨heq, rfl⟩
      rw [heq]

theorem Parallel.error?_addUnit (h : Parallel s t)
    (hunmoved : s.code.length = 0 ∨ u.code.any Instruction.isJump = false) :
    error? (Linking.addUnit ⟨true, merge⟩ isFirst u t)
      = error? (Linking.addUnit ⟨false, merge⟩ isFirst u s) := by
  have hstill : Relocation.still ⟨u.name, Relocation.mainStream, (s.pool.merge u.constants).1,
      jumpOffset ⟨true, merge⟩ s.code.length⟩ = ⟨u.name, Relocation.mainStream,
        (s.pool.merge u.constants).1, jumpOffset ⟨false, merge⟩ s.code.length⟩ := rfl
  rw [addUnit_eq, addUnit_eq, h.pool, h.length, Relocation.applyAll_of_unmoved hunmoved, hstill]
  cases Relocation.applyAll _ u.code with
  | error e => rfl
  | ok code =>
    simp only
    rw [h.addFunctions _ _ _ _ (s.code ++ code)
      (s.notices ++ jumpWarnings ⟨false, merge⟩ isFirst u s.code.length)]
    cases Linking.addFunctions _ u.name _ u.functions.entries _ <;> rfl

theorem addUnit_together (h : Parallel s t) (hfirst : isFirst = true → s.code.length = 0) :
    Together (Linking.addUnit ⟨false, merge⟩ isFirst u s)
      (Linking.addUnit ⟨true, merge⟩ isFirst u t) := by
  refine ⟨fun s' t' hs ht => h.addUnit hfirst hs ht, ?_⟩
  intro hastray
  refine h.error?_addUnit ?_
  rw [astray_addUnit, astray_jumpWarnings hfirst, not_or, not_not] at hastray
  exact hastray.2

/-- Units that are added to both come out the same, unless the first one has left jumps astray. -/
theorem addUnits_together (merge : Bool) (us : List BytecodeUnit) :
    ∀ (isFirst : Bool) {s t : Linking}, Parallel s t → (isFirst = true → s.code.length = 0) →
      Together (addUnits ⟨false, merge⟩ isFirst us s) (addUnits ⟨true, merge⟩ isFirst us t) := by
  induction us with
  | nil =>
    intro isFirst s t h _
    refine ⟨?_, fun _ => rfl⟩
    intro s' t' hs ht
    injection hs with _ hs
    injection ht with _ ht
    rwa [← hs, ← ht]
  | cons u us ih =>
    intro isFirst s t h hfirst
    have hunit : Together (addUnit ⟨false, merge⟩ isFirst u s)
        (addUnit ⟨true, merge⟩ isFirst u t) := addUnit_together h hfirst
    obtain ⟨hparallel, herror⟩ := hunit
    rw [addUnits_cons, addUnits_cons]
    cases hs : addUnit ⟨false, merge⟩ isFirst u s with
    | error e s' =>
      rw [hs] at herror
      refine ⟨nofun, fun hastray => ?_⟩
      cases ht : addUnit ⟨true, merge⟩ isFirst u t with
      | error e' t' =>
        rw [ht] at herror
        exact herror hastray
      | ok _ t' =>
        rw [ht] at herror
        exact nomatch herror hastray
    | ok _ s' =>
      cases ht : addUnit ⟨true, merge⟩ isFirst u t with
      | error e t' =>
        -- the second linking has failed alone, so that the first one has left jumps astray
        rw [hs, ht] at herror
        have hastray : Astray s'.notices := not_not.mp fun h => nomatch herror h
        exact ⟨nofun, fun h => absurd (astray_addUnits _ us false s' hastray) h⟩
      | ok _ t' => exact ih false (hparallel s' t' hs ht) nofun

/-- Programs that have been linked side by side are the same unless jumps have been left astray. -/
theorem Parallel.program_eq_iff (h : Parallel s t) : s.program = t.program ↔ ¬Astray s.notices := by
  rw [← h.code, program, program, h.pool, h.functions, LinkedProgram.mk.injEq]
  simp only [true_and, and_true, eq_comm]

theorem notices_outcome (x : EStateM.Result LinkError Linking Unit) :
    (outcome x).2 = (stateAfter x).notices := by
  cases x <;> rfl

theorem Together.outcome_eq {x y : EStateM.Result LinkError Linking Unit} (h : Together x y)
    (hastray : ¬Astray (outcome x).2) : (outcome y).1 = (outcome x).1 := by
  have herror := h.error (notices_outcome x ▸ hastray)
  cases x with
  | error e s =>
    cases y with
    | error e' t => exact congrArg Except.error (Option.some.inj herror)
    | ok _ t => exact nomatch herror
  | ok _ s =>
    cases y with
    | error e t => exact nomatch herror
    | ok _ t => exact congrArg Except.ok ((h.parallel s t rfl rfl).program_eq_iff.mpr hastray).symm

theorem Together.program_ne_iff {x y : EStateM.Result LinkError Linking Unit} (h : Together x y)
    {p q : LinkedProgram} (hp : (outcome x).1 = .ok p) (hq : (outcome y).1 = .ok q) :
    p ≠ q ↔ Astray (outcome x).2 := by
  cases x with
  | error e s => exact nomatch hp
  | ok _ s =>
    cases y with
    | error e t => exact nomatch hq
    | ok _ t =>
      obtain rfl := Except.ok.inj hp
      obtain rfl := Except.ok.inj hq
      exact (not_congr (h.parallel s t rfl rfl).program_eq_iff).trans not_not

end Linking

/-! ### All units -/

/-- Where linking without moving jumps gives no warning, linking with moved jumps comes to the same
result. Where both succeed, the programs differ iff a warning was about a unit behind other code. -/
theorem linkAll_unmoved (merge : Bool) (us : List BytecodeUnit) :
    ((∀ unit offset, .jumpsNotRebased unit offset ∉ (linkAll ⟨false, merge⟩ us).2) →
        (linkAll ⟨true, merge⟩ us).1 = (linkAll ⟨false, merge⟩ us).1) ∧
      ∀ p q, (linkAll ⟨false, merge⟩ us).1 = .ok p → (linkAll ⟨true, merge⟩ us).1 = .ok q →
        (p ≠ q ↔ ∃ unit offset, offset ≠ 0 ∧
          .jumpsNotRebased unit offset ∈ (linkAll ⟨false, merge⟩ us).2) := by
  rcases linkAll_cases us with ⟨e, h⟩ | h
  · rw [h, h]
    exact ⟨fun _ => rfl, nofun⟩
  · have hstart : Linking.Parallel {} {} := ⟨rfl, rfl, rfl, by simp [Linking.Astray]⟩
    have htogether := Linking.addUnits_together merge us true hstart fun _ => rfl
    rw [h, h]
    constructor
    · intro hnone
      exact htogether.outcome_eq fun ⟨unit, offset, _, hmem⟩ => hnone unit offset hmem
    · intro p q hp hq
      exact htogether.program_ne_iff hp hq

/-- A unit with a jump behind another one, where it goes astray, and in front of it. -/
theorem linkAll_unmoved_of_two :
    let us : List BytecodeUnit :=
      [{ name := "a", code := [.print] }, { name := "b", code := [.jump 0] }]
    let p : LinkedProgram := { code := [.print, .jump 0] }
    let q : LinkedProgram := { code := [.print, .jump 1] }
    ((linkAll ⟨false, true⟩ us).1 = .ok p ∧ (linkAll ⟨true, true⟩ us).1 = .ok q ∧ p ≠ q ∧
      ∃ unit offset, offset ≠ 0 ∧
        .jumpsNotRebased unit offset ∈ (linkAll ⟨false, true⟩ us).2) ∧
      (∀ unit offset, .jumpsNotRebased unit offset ∉ (linkAll ⟨false, true⟩ us.reverse).2) ∧
      (linkAll ⟨true, true⟩ us.reverse).1 = (linkAll ⟨false, true⟩ us.reverse).1 := by
  intro us p q
  have hne : p ≠ q := by simp [p, q]
  have hnotices : (linkAll ⟨false, true⟩ us.reverse).2
      = [.linkedUnit "b" 0 1 0, .linkedUnit "a" 1 1 0] := rfl
  have hnone : ∀ unit offset,
      .jumpsNotRebased unit offset ∉ (linkAll ⟨false, true⟩ us.reverse).2 := by
    rw [hnotices]
    simp
  exact ⟨⟨rfl, rfl, hne, ((linkAll_unmoved true us).2 p q rfl rfl).mp hne⟩, hnone,
    (linkAll_unmoved true us.reverse).1 hnone⟩

end StackScript
