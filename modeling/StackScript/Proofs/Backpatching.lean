import StackScript.Proofs.PairedJumps

/-!
Emission with jump targets that are filled in later.

Emission computes the targets of jumps from the lengths of the parts of code. An assembler that only
ever appends to the code does not know these lengths when it comes to a jump. It puts a jump with a
placeholder there, remembers the place, and writes the target into it when it has come to it. This
fails if there is no jump at the remembered place. It never fails, and what comes out is what
emission computes.

* `placeholder`: the target of a jump that is not known yet;
* `Assembly`, `Assemble`: code with what is gathered besides, and steps that may fail;
* `patch`: a target is written into a jump;
* `assemble`, `assembleAll`: nodes are put behind the code there is;
* `assembles_emit`, `assembles_emitAll`: whatever stands in the code before, this puts the emission
  behind it;
* `assembleUnit`, `assembleUnit_eq`: a program is assembled to the unit that it compiles to;
* `assembleUnit_paired`: its jumps are paired, and none of them has the placeholder.
-/

namespace StackScript

/-- The target of a jump that is not known yet: the largest machine word. -/
def placeholder : Nat :=
  2 ^ 64 - 1

/-- The code so far, and what has been gathered besides. -/
structure Assembly where
  code : List Instruction := []
  gathered : Emission := {}

/-- A step of an assembler. It fails if there is no jump where one was left. -/
abbrev Assemble (α : Type) := StateT Assembly Option α

/-- A jump with another target. -/
def Instruction.retarget? (target : Nat) : Instruction → Option Instruction
  | .jump _ => some (.jump target)
  | .jumpIfFalse _ => some (.jumpIfFalse target)
  | _ => none

namespace Assemble

/-- An instruction is put behind the code. -/
def append (i : Instruction) : Assemble Unit :=
  modify fun a => { a with code := a.code ++ [i] }

/-- The load of a constant is put behind the code. -/
def appendConstant (c : Constant) : Assemble Unit := fun a =>
  let (i, constants) := a.gathered.constants.place c
  some ((), ⟨a.code ++ [.loadConst i], { a.gathered with constants := constants }⟩)

/-- The place behind the code. -/
def here : Assemble Nat := do
  return (← get).code.length

/-- A branch with an open target is put behind the code; the result is its place. -/
def openBranch : Assemble Nat := do
  let place ← here
  append (.jumpIfFalse placeholder)
  return place

/-- A jump with an open target is put behind the code; the result is its place. -/
def openJump : Assemble Nat := do
  let place ← here
  append (.jump placeholder)
  return place

/-- The target of the jump at a place is filled in. This fails if there is no jump. -/
def patch (place target : Nat) : Assemble Unit := fun a => do
  let i ← a.code[place]?
  let patched ← i.retarget? target
  return ((), { a with code := a.code.set place patched })

end Assemble

open Assemble

mutual

/-- A node is put behind the code. -/
def assemble : Node → Assemble Unit
  | .number x => appendConstant (.number x)
  | .string s => appendConstant (.string s)
  | .identifier name => append (.loadVar name)
  | .binary op left right => do
    assemble left
    assemble right
    append (.binary op)
  | .unary op operand => do
    assemble operand
    append (.unary op)
  | .assign name value => do
    assemble value
    append (.storeVar name)
  | .call name arguments => do
    assembleAll arguments
    append (.call name arguments.length)
  | .define name _ body => fun a => do
    let ((), inner) ← assembleAll body {}
    return ((), { a with gathered := a.gathered.addFunction name inner.code inner.gathered })
  | .branch condition thenBody none => do
    assemble condition
    let toElse ← openBranch
    assembleAll thenBody
    let toEnd ← openJump
    patch toElse (← here)
    patch toEnd (← here)
  | .branch condition thenBody (some elseBody) => do
    assemble condition
    let toElse ← openBranch
    assembleAll thenBody
    let toEnd ← openJump
    patch toElse (← here)
    assembleAll elseBody
    patch toEnd (← here)
  | .loop condition body => do
    let start ← here
    assemble condition
    let toEnd ← openBranch
    assembleAll body
    append (.jump start)
    patch toEnd (← here)
  | .ret none => do
    appendConstant .none
    append .ret
  | .ret (some value) => do
    assemble value
    append .ret
  | .print value => do
    assemble value
    append .print

/-- Nodes are put behind the code, one after the other. -/
def assembleAll : List Node → Assemble Unit
  | [] => return ()
  | node :: nodes => do
    assemble node
    assembleAll nodes

end

/-- The unit of a program, if no jump is missing where one was left. -/
def assembleUnit (name : String) (program : Program) : Option BytecodeUnit := do
  let ((), a) ← assembleAll program {}
  return {
    name
    code := a.code
    constants := a.gathered.constants
    functions := a.gathered.functions }

/-! ### Steps -/

namespace Assemble

variable {α β : Type}

/-- Behind a step with a result, what follows goes on with it. -/
theorem bind_of_eq {x : Assemble α} {a b : Assembly} {r : α} (h : x a = some (r, b))
    (f : α → Assemble β) : (x >>= f) a = f r b := by
  change (x a).bind (fun p => f p.1 p.2) = f r b
  rw [h]
  rfl

theorem pure_eq (r : α) (a : Assembly) : (pure r : Assemble α) a = some (r, a) :=
  rfl

theorem append_eq (i : Instruction) (a : Assembly) :
    append i a = some ((), ⟨a.code ++ [i], a.gathered⟩) :=
  rfl

theorem here_eq (a : Assembly) : here a = some (a.code.length, a) :=
  rfl

theorem openJump_eq (a : Assembly) : openJump a
    = some (a.code.length, ⟨a.code ++ [.jump placeholder], a.gathered⟩) :=
  rfl

/-- A jump gets its target, wherever it stands; the code around it stays. -/
theorem patch_of_eq {a : Assembly} {place target : Nat} {before after : List Instruction}
    {i patched : Instruction} (hcode : a.code = before ++ i :: after)
    (hplace : place = before.length) (hi : i.retarget? target = some patched) :
    patch place target a = some ((), { a with code := before ++ patched :: after }) := by
  have hget : a.code[place]? = some i := by
    rw [hcode, hplace, List.getElem?_append_right (Nat.le_refl _), Nat.sub_self]
    rfl
  have hset : a.code.set place patched = before ++ patched :: after := by
    rw [hcode, hplace, List.set_append_right _ _ (Nat.le_refl _), Nat.sub_self]
    rfl
  simp only [patch, hget, hi, hset, Option.bind_eq_bind, Option.bind_some]
  rfl

end Assemble

/-- A step puts the code of an emission that begins behind the code there is. -/
def Assembles (x : Assemble Unit) (emission : Nat → Emit (List Instruction)) : Prop :=
  ∀ (a : Assembly) (code : List Instruction) (e : Emission),
    emission a.code.length a.gathered = (code, e) → x a = some ((), ⟨a.code ++ code, e⟩)

theorem assembles_nothing : Assembles (pure ()) fun _ => return [] := by
  intro a code e h
  obtain ⟨rfl, rfl⟩ := Prod.mk.inj h
  rw [pure_eq, List.append_nil]

theorem assembles_constant (c : Constant) :
    Assembles (appendConstant c) fun _ => loadConstant c := by
  intro a code e h
  obtain ⟨rfl, rfl⟩ := Prod.mk.inj h
  rfl

namespace Assembles

variable {x y z : Assemble Unit} {first second third : Nat → Emit (List Instruction)}

/-- One more instruction after some code. -/
theorem snoc (hx : Assembles x first) (i : Instruction) :
    Assembles (do x; append i) fun base => do let code ← first base; return code ++ [i] := by
  intro a code e h
  cases hcode : first a.code.length a.gathered with
  | mk code₁ e₁ =>
    simp only [bind, StateT.bind, hcode, pure, StateT.pure] at h
    obtain ⟨rfl, rfl⟩ := Prod.mk.inj h
    rw [Assemble.bind_of_eq (hx a code₁ e₁ hcode), ← List.append_assoc]
    rfl

/-- Code in two parts. -/
theorem seq (hx : Assembles x first) (hy : Assembles y second) :
    Assembles (do x; y) fun base => do
      let l ← first base
      let r ← second (base + l.length)
      return l ++ r := by
  intro a code e h
  cases hl : first a.code.length a.gathered with
  | mk l e₁ =>
  cases hr : second (a.code.length + l.length) e₁ with
  | mk r e₂ =>
    simp only [bind, StateT.bind, hl, hr, pure, StateT.pure] at h
    obtain ⟨rfl, rfl⟩ := Prod.mk.inj h
    rw [Assemble.bind_of_eq (hx a l e₁ hl), hy ⟨a.code ++ l, e₁⟩ r e₂ (by rwa [List.length_append]),
      List.append_assoc]

/-- A body between an open branch and a jump. When the jump is there, the branch still stands at the
place that was remembered, and it gets the place behind the jump. -/
theorem guarded {γ β : Type} (hy : Assembles y second) {close : Assemble γ}
    {result : Assembly → γ} {target : Nat}
    (hclose : ∀ b, close b = some (result b, ⟨b.code ++ [.jump target], b.gathered⟩))
    (next : γ → Assemble β) {b : Assembly} {body : List Instruction} {e : Emission}
    (hbody : second (b.code.length + 1) b.gathered = (body, e)) :
    (do let place ← openBranch; y; let r ← close; patch place (← here); next r) b
      = next (result ⟨b.code ++ .jumpIfFalse placeholder :: body, e⟩)
          ⟨b.code ++ .jumpIfFalse (b.code.length + 1 + body.length + 1) :: body ++ [.jump target],
            e⟩ := by
  have hopen : openBranch b
      = some (b.code.length, ⟨b.code ++ [.jumpIfFalse placeholder], b.gathered⟩) := rfl
  have hy := hy ⟨b.code ++ [.jumpIfFalse placeholder], b.gathered⟩ body e
    (by rwa [List.length_append])
  rw [List.append_assoc _ [_], List.singleton_append] at hy
  -- the place of the branch is the length of the code before it, whatever has come behind
  have hpatch : ∀ stop, patch b.code.length stop
        ⟨b.code ++ .jumpIfFalse placeholder :: body ++ [.jump target], e⟩
      = some ((), ⟨b.code ++ .jumpIfFalse stop :: body ++ [.jump target], e⟩) := by
    intro stop
    rw [List.append_assoc, List.append_assoc]
    exact patch_of_eq rfl rfl rfl
  have hhere : here ⟨b.code ++ .jumpIfFalse placeholder :: body ++ [.jump target], e⟩
      = some (b.code.length + 1 + body.length + 1,
          ⟨b.code ++ .jumpIfFalse placeholder :: body ++ [.jump target], e⟩) := by
    rw [here_eq]
    simp only [List.length_append, List.length_cons, List.length_nil]
    congr 2
    omega
  rw [bind_of_eq hopen, bind_of_eq hy, bind_of_eq (hclose _), bind_of_eq hhere,
    bind_of_eq (hpatch _)]

/-- A condition, a body, and what there is instead if the condition is false. -/
theorem branch (hx : Assembles x first) (hy : Assembles y second) (hz : Assembles z third) :
    Assembles
      (do x
          let toElse ← openBranch
          y
          let toEnd ← openJump
          patch toElse (← here)
          z
          patch toEnd (← here))
      fun base => do
        let test ← first base
        let thenCode ← second (base + test.length + 1)
        let elseStart := base + test.length + 1 + thenCode.length + 1
        let elseCode ← third elseStart
        return test ++ .jumpIfFalse elseStart :: thenCode
          ++ .jump (elseStart + elseCode.length) :: elseCode := by
  intro a code e h
  cases htest : first a.code.length a.gathered with
  | mk test e₁ =>
  cases hthen : second (a.code.length + test.length + 1) e₁ with
  | mk thenCode e₂ =>
  cases helse : third (a.code.length + test.length + 1 + thenCode.length + 1) e₂ with
  | mk elseCode e₃ =>
    simp only [bind, StateT.bind, htest, hthen, helse, pure, StateT.pure] at h
    obtain ⟨rfl, rfl⟩ := Prod.mk.inj h
    rw [← List.length_append] at hthen helse
    set start := (a.code ++ test).length + 1 + thenCode.length + 1 with hstart
    set before := a.code ++ test ++ .jumpIfFalse start :: thenCode with hbefore
    have hplace : (a.code ++ test ++ .jumpIfFalse placeholder :: thenCode).length
        = before.length := by
      simp only [hbefore, List.length_append, List.length_cons]
    have hlength : (before ++ [Instruction.jump placeholder]).length = start := by
      simp only [hbefore, hstart, List.length_append, List.length_cons, List.length_nil]
      omega
    -- the jump at the end of the first body stays open while the second one is put behind it
    have hz := hz ⟨before ++ [.jump placeholder], e₂⟩ elseCode e₃ (by rwa [hlength])
    have hend : here ⟨before ++ [.jump placeholder] ++ elseCode, e₃⟩
        = some (start + elseCode.length, ⟨before ++ [.jump placeholder] ++ elseCode, e₃⟩) := by
      rw [here_eq, List.length_append, hlength]
    have hpatch : patch before.length (start + elseCode.length)
          ⟨before ++ [.jump placeholder] ++ elseCode, e₃⟩
        = some ((), ⟨before ++ .jump (start + elseCode.length) :: elseCode, e₃⟩) :=
      patch_of_eq (List.append_assoc ..) rfl rfl
    rw [bind_of_eq (hx a test e₁ htest), hy.guarded openJump_eq _ (b := ⟨a.code ++ test, e₁⟩) hthen,
      hplace, bind_of_eq hz, bind_of_eq hend, hpatch]
    simp only [hbefore, hstart, List.length_append, List.append_assoc, List.cons_append]

/-- A condition and a body, and a jump back to the condition. -/
theorem loop (hx : Assembles x first) (hy : Assembles y second) :
    Assembles
      (do let start ← here
          x
          let toEnd ← openBranch
          y
          append (.jump start)
          patch toEnd (← here))
      fun base => do
        let test ← first base
        let code ← second (base + test.length + 1)
        return test ++ .jumpIfFalse (base + test.length + 1 + code.length + 1) :: code
          ++ [.jump base] := by
  intro a code e h
  cases htest : first a.code.length a.gathered with
  | mk test e₁ =>
  cases hbody : second (a.code.length + test.length + 1) e₁ with
  | mk body e₂ =>
    simp only [bind, StateT.bind, htest, hbody, pure, StateT.pure] at h
    obtain ⟨rfl, rfl⟩ := Prod.mk.inj h
    rw [← List.length_append] at hbody ⊢
    have hguarded := hy.guarded (append_eq (.jump a.code.length)) pure
      (b := ⟨a.code ++ test, e₁⟩) hbody
    rw [bind_of_eq (here_eq a), bind_of_eq (hx a test e₁ htest)]
    simp only [bind_pure_unit] at hguarded
    rw [hguarded, pure_eq, List.append_assoc, List.append_assoc, List.append_assoc]

end Assembles

mutual

/-- Assembling a node puts its emission behind the code there is. -/
theorem assembles_emit : ∀ node : Node, Assembles (assemble node) fun base => emit base node
  | .number _ => assembles_constant _
  | .string _ => assembles_constant _
  | .identifier _ => by
    intro a code e h
    obtain ⟨rfl, rfl⟩ := Prod.mk.inj h
    rfl
  | .binary op left right => by
    have h := ((assembles_emit left).seq (assembles_emit right)).snoc (.binary op)
    rwa [bind_assoc] at h
  | .unary op operand => (assembles_emit operand).snoc _
  | .assign name value => (assembles_emit value).snoc _
  | .call name arguments => (assemblesAll_emitAll arguments).snoc _
  | .define name parameters body => by
    intro a code e (h : emit a.code.length (.define name parameters body) a.gathered = _)
    cases hbody : emitAll 0 body {} with
    | mk inner e₁ =>
      rw [emit, hbody] at h
      obtain ⟨rfl, rfl⟩ := Prod.mk.inj h
      have hinner := assemblesAll_emitAll body {} inner e₁ hbody
      simp only [assemble, hinner, Option.bind_eq_bind, Option.bind_some, List.append_nil]
      rfl
  | .branch condition thenBody none => by
    have h := (assembles_emit condition).branch (assemblesAll_emitAll thenBody) assembles_nothing
    simp only [pure_bind, List.length_nil, Nat.add_zero] at h
    exact h
  | .branch condition thenBody (some elseBody) =>
    (assembles_emit condition).branch (assemblesAll_emitAll thenBody)
      (assemblesAll_emitAll elseBody)
  | .loop condition body => (assembles_emit condition).loop (assemblesAll_emitAll body)
  | .ret none => (assembles_constant _).snoc _
  | .ret (some value) => (assembles_emit value).snoc _
  | .print value => (assembles_emit value).snoc _

theorem assemblesAll_emitAll : ∀ nodes : List Node,
    Assembles (assembleAll nodes) fun base => emitAll base nodes
  | [] => assembles_nothing
  | node :: nodes => (assembles_emit node).seq (assemblesAll_emitAll nodes)

end

/-! ### Units -/

/-- A program is assembled to the unit that it compiles to. No step fails: where a target is filled
in, there is the jump that was left open. -/
theorem assembleUnit_eq (name : String) (program : Program) :
    assembleUnit name program = some (compile name program) := by
  have h := assemblesAll_emitAll program {} _ _ rfl
  rw [assembleUnit, h]
  rfl

/-- Assembling a program comes to an end, with the unit that it compiles to. The jumps of its code
are paired, and if the code is short enough for machine words, no target has been left open. -/
theorem assembleUnit_paired (name : String) (program : Program)
    (hshort : ∀ code ∈ (compile name program).streams, code.length < placeholder) :
    assembleUnit name program = some (compile name program) ∧
      ∀ code ∈ (compile name program).streams,
        JumpsPaired code ∧ .jump placeholder ∉ code ∧ .jumpIfFalse placeholder ∉ code := by
  refine ⟨assembleUnit_eq name program, ?_⟩
  intro code hcode
  have hpaired := jumpsPaired_streams name program code hcode
  have hlt := hshort code hcode
  refine ⟨hpaired, ?_, ?_⟩
  · intro hmem
    exact absurd (hpaired.target_le _ (.inl hmem)) (Nat.not_le.mpr hlt)
  · intro hmem
    exact absurd (hpaired.target_le _ (.inr hmem)) (Nat.not_le.mpr hlt)

/-- A function with a branch behind its return, and a branch inside a loop. -/
theorem assembleUnit_paired_of_nested :
    let program : Program :=
      [.define "f" [] [.ret none, .branch (.identifier "x") [.print (.string "a")] none],
        .loop (.identifier "go")
          [.branch (.identifier "y") [.ret (some (.string "b"))]
            (some [.loop (.identifier "z") [.call "f" []]])]]
    (∀ code ∈ (compile "unit" program).streams, code.length < placeholder) ∧
      assembleUnit "unit" program = some (compile "unit" program) ∧
      ∀ code ∈ (compile "unit" program).streams,
        JumpsPaired code ∧ .jump placeholder ∉ code ∧ .jumpIfFalse placeholder ∉ code := by
  intro program
  have hshort : ∀ code ∈ (compile "unit" program).streams, code.length < placeholder := by
    decide +kernel
  exact ⟨hshort, assembleUnit_paired "unit" program hshort⟩

end StackScript
