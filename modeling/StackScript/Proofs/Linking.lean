import StackScript.Linker
import StackScript.Proofs.Computation
import StackScript.Proofs.ConstantPool
import StackScript.Proofs.Draft
import StackScript.Proofs.Table

/-!
What the steps of linking do.

* `Linking.addFunction_eq`, `Linking.addFunctions_cons`, `Linking.addUnit_eq`: each step as a
  function of the state before it, under all options;
* `Linking.addFunction_ok`, `Linking.addUnit_ok`: what there was where they succeed;
* `linkAll_cases`, `linkAll_ok`: linking fails before it begins, or adds all units;
* `linkAll_of_closed`, `linkAll_compiled`: units that export and import nothing, among them all
  compiled ones, are linked as they come;
* `Relocation.apply_ok`, `Relocation.apply_error`, `Relocation.applyAll_ok`,
  `Relocation.applyAll_error`: what relocation makes of an instruction and of code, or what was
  wrong with it;
* `Relocation.Covers`: a remap that takes every constant of a pool to one like it;
* `Relocation.applyAll_stands`: relocation succeeds on the code of a draft whose jumps stay below
  the limit of operands, and its result stands for the moved draft.
-/

namespace StackScript

namespace Linking

/-! ### The steps as functions -/

theorem lift_apply {α : Type} (r : Except LinkError α) (s : Linking) :
    lift r s = match r with
      | .ok a => .ok a s
      | .error e => .error e s := by
  cases r <;> rfl

/-- The indices that take the place of a function's constants, and the pool with them. -/
def functionConstants (options : LinkOptions) (pool : ConstantPool) (remap : List Nat)
    (f : CompiledFunction) : List Nat × ConstantPool :=
  if options.mergeFunctionConstants then pool.merge f.constants else (remap, pool)

/-- Adding a function: its name is checked, its constants join the pool if that is asked for, and
its code joins the table. -/
theorem addFunction_eq (options : LinkOptions) (unit : String) (remap : List Nat) (name : String)
    (f : CompiledFunction) (s : Linking) :
    addFunction options unit remap name f s
      = if s.functions.contains name then .error (.duplicateFunction name) s
        else
          match Relocation.applyAll
            ⟨unit, name, (functionConstants options s.pool remap f).1, 0⟩ f.code with
          | .error e =>
            .error e { s with pool := (functionConstants options s.pool remap f).2 }
          | .ok code =>
            .ok () { s with
              pool := (functionConstants options s.pool remap f).2
              functions := s.functions.insert name code } := by
  unfold addFunction functionConstants
  simp only [bind_apply, get_apply]
  split
  · simp only [bind_apply, throw_apply]
  · split
    · simp only [bind_apply, mergeConstants, lift_apply, modify_apply]
      cases Relocation.applyAll _ f.code <;> rfl
    · simp only [bind_apply, pure_apply, lift_apply, modify_apply]
      cases Relocation.applyAll _ f.code <;> rfl

theorem addFunctions_cons (options : LinkOptions) (unit : String) (remap : List Nat)
    (e : String × CompiledFunction) (rest : List (String × CompiledFunction)) (s : Linking) :
    addFunctions options unit remap (e :: rest) s
      = match addFunction options unit remap e.1 e.2 s with
        | .error err s' => .error err s'
        | .ok () s' => addFunctions options unit remap rest s' := by
  rw [addFunctions, bind_apply]
  cases addFunction options unit remap e.1 e.2 s <;> rfl

/-- The warning about a unit with jumps behind others, if its jumps are not moved. -/
def jumpWarnings (options : LinkOptions) (isFirst : Bool) (u : BytecodeUnit) (base : Nat) :
    List Notice :=
  if !isFirst && u.code.any Instruction.isJump && !options.rebaseJumps then
    [.jumpsNotRebased u.name base]
  else []

theorem warnOfJumps_eq (options : LinkOptions) (isFirst : Bool) (u : BytecodeUnit) (base : Nat)
    (s : Linking) :
    warnOfJumps options isFirst u base s
      = .ok () { s with notices := s.notices ++ jumpWarnings options isFirst u base } := by
  unfold warnOfJumps jumpWarnings
  split
  · rfl
  · rw [List.append_nil]
    rfl

/-- By how much the jumps of a unit move whose code begins at `base`. -/
def jumpOffset (options : LinkOptions) (base : Nat) : Nat :=
  if options.rebaseJumps then base else 0

/-- Adding a unit: its constants join the pool, then its code is appended, then its functions join
the table. -/
theorem addUnit_eq (options : LinkOptions) (isFirst : Bool) (u : BytecodeUnit) (s : Linking) :
    addUnit options isFirst u s
      = match Relocation.applyAll ⟨u.name, Relocation.mainStream, (s.pool.merge u.constants).1,
          jumpOffset options s.code.length⟩ u.code with
        | .error e => .error e { s with
            pool := (s.pool.merge u.constants).2
            notices := s.notices ++ jumpWarnings options isFirst u s.code.length }
        | .ok code =>
          match addFunctions options u.name (s.pool.merge u.constants).1 u.functions.entries
            { s with
              pool := (s.pool.merge u.constants).2
              code := s.code ++ code
              notices := s.notices ++ jumpWarnings options isFirst u s.code.length } with
          | .error e s' => .error e s'
          | .ok () s' => .ok () { s' with
              notices := s'.notices
                ++ [.linkedUnit u.name s.code.length u.code.length u.functions.size] } := by
  unfold addUnit
  simp only [bind_apply, get_apply, mergeConstants, warnOfJumps_eq, lift_apply, modify_apply,
    jumpOffset]
  cases Relocation.applyAll _ u.code with
  | error e => rfl
  | ok code =>
    simp only
    cases addFunctions options u.name _ u.functions.entries _ <;> rfl

theorem addUnits_cons (options : LinkOptions) (isFirst : Bool) (u : BytecodeUnit)
    (us : List BytecodeUnit) (s : Linking) :
    addUnits options isFirst (u :: us) s
      = match addUnit options isFirst u s with
        | .error e s' => .error e s'
        | .ok () s' => addUnits options false us s' := by
  rw [addUnits, bind_apply]
  cases addUnit options isFirst u s <;> rfl

end Linking

namespace Linking

/-! ### Steps that succeed -/

/-- A function that is added was not there, and its code has been relocated. -/
theorem addFunction_ok {options : LinkOptions} {unit : String} {remap : List Nat} {name : String}
    {f : CompiledFunction} {s s' : Linking}
    (h : addFunction options unit remap name f s = .ok () s') :
    name ∉ s.functions.names ∧
      ∃ code, Relocation.applyAll ⟨unit, name, (functionConstants options s.pool remap f).1, 0⟩
          f.code = .ok code ∧
        s' = { s with
          pool := (functionConstants options s.pool remap f).2
          functions := s.functions.insert name code } := by
  rw [addFunction_eq] at h
  by_cases hcontains : s.functions.contains name = true
  · rw [if_pos hcontains] at h
    exact nomatch h
  · rw [if_neg hcontains] at h
    cases hcode : Relocation.applyAll
        ⟨unit, name, (functionConstants options s.pool remap f).1, 0⟩ f.code with
    | error e =>
      rw [hcode] at h
      exact nomatch h
    | ok code =>
      rw [hcode] at h
      injection h with _ hs
      exact ⟨fun hmem => hcontains (Table.contains_iff.mpr hmem), code, rfl, hs.symm⟩

/-- A unit that is added has had its code relocated and its functions added. -/
theorem addUnit_ok {options : LinkOptions} {isFirst : Bool} {u : BytecodeUnit} {s s' : Linking}
    (h : addUnit options isFirst u s = .ok () s') :
    ∃ code notices s₁, Relocation.applyAll ⟨u.name, Relocation.mainStream,
        (s.pool.merge u.constants).1, jumpOffset options s.code.length⟩ u.code = .ok code ∧
      addFunctions options u.name (s.pool.merge u.constants).1 u.functions.entries
        { s with
          pool := (s.pool.merge u.constants).2
          code := s.code ++ code
          notices := notices } = .ok () s₁ ∧
      s'.pool = s₁.pool ∧ s'.code = s₁.code ∧ s'.functions = s₁.functions := by
  rw [addUnit_eq] at h
  cases hcode : Relocation.applyAll ⟨u.name, Relocation.mainStream,
      (s.pool.merge u.constants).1, jumpOffset options s.code.length⟩ u.code with
  | error e =>
    rw [hcode] at h
    exact nomatch h
  | ok code =>
    rw [hcode] at h
    simp only at h
    split at h
    · exact nomatch h
    · next s₁ hfunctions =>
      injection h with _ hs
      subst hs
      exact ⟨code, _, s₁, rfl, hfunctions, rfl, rfl, rfl⟩

end Linking

/-- Registering keeps the units in order. -/
theorem units_of_addAll {us : List BytecodeUnit} : ∀ {l l' : Linker}, l.addAll us = .ok l' →
    l'.units = l.units ++ us := by
  induction us with
  | nil =>
    intro l l' h
    rw [← Except.ok.inj h, List.append_nil]
  | cons u us ih =>
    intro l l' h
    rw [Linker.addAll, List.foldlM_cons, Linker.add] at h
    split at h
    · exact nomatch h
    · rw [ih h, List.append_assoc]
      rfl

/-- The program of a linking that has come to its end, and its notices. -/
def Linking.outcome : EStateM.Result LinkError Linking Unit →
    Except LinkError LinkedProgram × List Notice
  | .ok _ s => (.ok s.program, s.notices)
  | .error e s => (.error e, s.notices)

/-- Units that are registered, and whose imports are found, are linked in order; otherwise linking
has the same error under all options. -/
theorem linkAll_cases (us : List BytecodeUnit) :
    (∃ e, ∀ options, linkAll options us = (.error e, [])) ∨
      ∀ options, linkAll options us = Linking.outcome (Linking.addUnits options true us {}) := by
  cases hadd : Linker.addAll {} us with
  | error e => exact .inl ⟨e, fun options => by rw [linkAll, hadd]⟩
  | ok l =>
    have hunits : l.units = us := units_of_addAll hadd
    cases hresolve : l.resolveImports with
    | error e =>
      refine .inl ⟨e, fun options => ?_⟩
      rw [linkAll, hadd]
      simp only [Linker.link, hresolve]
    | ok _ =>
      refine .inr fun options => ?_
      rw [linkAll, hadd]
      simp only [Linker.link, hresolve, hunits]
      cases Linking.addUnits options true us {} <;> rfl

/-- What has been linked comes from a state in which all units have been added. -/
theorem linkAll_ok {options : LinkOptions} {us : List BytecodeUnit} {linked : LinkedProgram}
    (h : (linkAll options us).1 = .ok linked) :
    ∃ s, Linking.addUnits options true us {} = .ok () s ∧ linked = s.program := by
  rcases linkAll_cases us with ⟨e, hall⟩ | hall
  · rw [hall] at h
    exact nomatch h
  · rw [hall] at h
    cases hadd : Linking.addUnits options true us {} with
    | error e s =>
      rw [hadd] at h
      exact nomatch h
    | ok _ s =>
      rw [hadd] at h
      exact ⟨s, rfl, (Except.ok.inj h).symm⟩

/-! ### Units that export and import nothing -/

theorem addAll_of_no_exports (us : List BytecodeUnit) (h : ∀ u ∈ us, u.exports = []) :
    ∀ l : Linker, l.addAll us = .ok { l with units := l.units ++ us } := by
  induction us with
  | nil =>
    intro l
    rw [List.append_nil]
    rfl
  | cons u us ih =>
    intro l
    have hu : l.add u = .ok { l with units := l.units ++ [u] } := by
      rw [Linker.add, h u List.mem_cons_self]
      rfl
    have hus := ih (fun v hv => h v (List.mem_cons_of_mem _ hv))
      { l with units := l.units ++ [u] }
    rw [List.append_assoc] at hus
    rw [Linker.addAll, List.foldlM_cons, hu]
    exact hus

theorem resolveImports_of_no_imports (l : Linker) (h : ∀ u ∈ l.units, u.imports = []) :
    l.resolveImports = .ok () := by
  have hnone : l.units.findSome? l.firstUndefined = none := by
    rw [List.findSome?_eq_none_iff]
    intro u hu
    rw [Linker.firstUndefined, h u hu]
    rfl
  rw [Linker.resolveImports, hnone]

/-- Units that export and import nothing are linked as they come. -/
theorem linkAll_of_closed (options : LinkOptions) (us : List BytecodeUnit)
    (hexports : ∀ u ∈ us, u.exports = []) (himports : ∀ u ∈ us, u.imports = []) :
    linkAll options us
      = match Linking.addUnits options true us {} with
        | .ok () s => (.ok s.program, s.notices)
        | .error e s => (.error e, s.notices) := by
  have hresolve : ({ units := us } : Linker).resolveImports = .ok () :=
    resolveImports_of_no_imports _ himports
  rw [linkAll, addAll_of_no_exports us hexports]
  show Linker.link options { units := us } = _
  unfold Linker.link
  split
  · next e he => exact absurd (hresolve.symm.trans he) nofun
  · rfl

/-- Compiled units export and import nothing. -/
theorem linkAll_compiled (options : LinkOptions) (units : List (String × Program)) :
    linkAll options (units.map fun u => compile u.1 u.2)
      = match Linking.addUnits options true (units.map fun u => compile u.1 u.2) {} with
        | .ok () s => (.ok s.program, s.notices)
        | .error e s => (.error e, s.notices) := by
  have hclosed : ∀ u ∈ units.map fun u => compile u.1 u.2, u.exports = [] ∧ u.imports = [] := by
    intro u hu
    obtain ⟨v, _, rfl⟩ := List.mem_map.mp hu
    rw [compile_eq]
    exact ⟨rfl, rfl⟩
  exact linkAll_of_closed options _ (fun u hu => (hclosed u hu).1) fun u hu => (hclosed u hu).2

/-! ### What relocation does, and when it fails -/

namespace Relocation

/-- An instruction is not relocated only if it loads a constant that the pool does not have, or if
its target gets too large. -/
theorem apply_error {r : Relocation} {i : Instruction} {e : LinkError} (h : r.apply i = .error e) :
    (∃ k, i = .loadConst k ∧ r.remap.length ≤ k ∧ e = .constantOutOfRange r.unit r.stream k) ∨
      ∃ t, (i = .jump t ∨ i = .jumpIfFalse t) ∧ operandLimit ≤ t + r.offset ∧
        e = .jumpOutOfRange r.unit r.stream t r.offset := by
  have htarget : ∀ {f : Nat → Instruction} {t : Nat}, f <$> r.target t = .error e →
      operandLimit ≤ t + r.offset ∧ e = .jumpOutOfRange r.unit r.stream t r.offset := by
    intro f t ht
    by_cases hlt : t + r.offset < operandLimit
    · rw [target, if_pos hlt] at ht
      exact nomatch ht
    · rw [target, if_neg hlt] at ht
      exact ⟨Nat.le_of_not_lt hlt, (Except.error.inj ht).symm⟩
  cases i with
  | loadConst k =>
    rw [apply, constant] at h
    cases hk : r.remap[k]? with
    | some j =>
      rw [hk] at h
      exact nomatch h
    | none =>
      rw [hk] at h
      exact Or.inl ⟨k, rfl, List.getElem?_eq_none_iff.mp hk, (Except.error.inj h).symm⟩
  | jump t => exact Or.inr ⟨t, Or.inl rfl, htarget h⟩
  | jumpIfFalse t => exact Or.inr ⟨t, Or.inr rfl, htarget h⟩
  | _ => exact nomatch h

/-- A stream is relocated instruction by instruction. -/
theorem applyAll_cons (r : Relocation) (i : Instruction) (is : List Instruction) :
    r.applyAll (i :: is)
      = match r.apply i with
        | .error e => .error e
        | .ok j =>
          match r.applyAll is with
          | .error e => .error e
          | .ok js => .ok (j :: js) := by
  rw [applyAll]
  cases r.apply i with
  | error e => rfl
  | ok j => cases r.applyAll is <;> rfl

/-- A load that is relocated loads the constant at the new index, and every other instruction has
its target moved, if it has one. -/
theorem apply_ok {r : Relocation} {i j : Instruction} (h : r.apply i = .ok j) :
    (∃ k l, i = .loadConst k ∧ r.remap[k]? = some l ∧ j = .loadConst l) ∨
      (∀ k, i ≠ .loadConst k) ∧ j = i.shift r.offset := by
  have htarget : ∀ {f : Nat → Instruction} {t : Nat}, f <$> r.target t = .ok j →
      j = f (t + r.offset) := by
    intro f t ht
    by_cases hlt : t + r.offset < operandLimit
    · rw [target, if_pos hlt] at ht
      exact (Except.ok.inj ht).symm
    · rw [target, if_neg hlt] at ht
      exact nomatch ht
  cases i with
  | loadConst k =>
    rw [apply, constant] at h
    cases hk : r.remap[k]? with
    | some l =>
      rw [hk] at h
      exact Or.inl ⟨k, l, rfl, hk, (Except.ok.inj h).symm⟩
    | none =>
      rw [hk] at h
      exact nomatch h
  | jump t => exact Or.inr ⟨nofun, htarget h⟩
  | jumpIfFalse t => exact Or.inr ⟨nofun, htarget h⟩
  | _ => exact Or.inr ⟨nofun, (Except.ok.inj h).symm⟩

/-- A stream that is relocated has each of its instructions relocated. -/
theorem applyAll_ok {r : Relocation} {code : List Instruction} :
    ∀ {moved : List Instruction}, r.applyAll code = .ok moved →
      List.Forall₂ (fun i j => r.apply i = .ok j) code moved := by
  induction code with
  | nil =>
    intro moved h
    rw [← Except.ok.inj h]
    exact .nil
  | cons i is ih =>
    intro moved h
    rw [applyAll_cons] at h
    cases hi : r.apply i with
    | error e =>
      rw [hi] at h
      exact nomatch h
    | ok j =>
      rw [hi] at h
      cases his : r.applyAll is with
      | error e =>
        rw [his] at h
        exact nomatch h
      | ok js =>
        rw [his] at h
        rw [← Except.ok.inj h]
        exact .cons hi (ih his)

/-- The error of a stream is that of one of its instructions. -/
theorem applyAll_error {r : Relocation} {code : List Instruction} {e : LinkError}
    (h : r.applyAll code = .error e) : ∃ i ∈ code, r.apply i = .error e := by
  induction code with
  | nil => exact nomatch h
  | cons i is ih =>
    rw [applyAll_cons] at h
    cases hi : r.apply i with
    | error e' =>
      rw [hi] at h
      obtain rfl := Except.error.inj h
      exact ⟨i, List.mem_cons_self, hi⟩
    | ok j =>
      rw [hi] at h
      cases his : r.applyAll is with
      | ok js =>
        rw [his] at h
        exact nomatch h
      | error e' =>
        rw [his] at h ih
        obtain ⟨k, hk, he⟩ := ih h
        exact ⟨k, List.mem_cons_of_mem _ hk, he⟩

/-! ### Relocation of the code of a draft -/

/-- Every constant of one pool has an index in the other where one like it stands. -/
def Covers (remap : List Nat) (old new : ConstantPool) : Prop :=
  ∀ {k : Nat} {c : Constant}, old[k]? = some c →
    ∃ i, remap[k]? = some i ∧ ConstantPool.Holds new i c

/-- An instruction that neither loads a constant nor jumps past `stop` is moved. -/
theorem apply_plain {r : Relocation} {stop : Nat} (hstop : stop + r.offset < operandLimit)
    {i : Instruction} (hw : (Draft.plain i).Within stop) :
    r.apply i = .ok (i.shift r.offset) := by
  have htarget : ∀ t, t ≤ stop → r.target t = .ok (t + r.offset) := by
    intro t ht
    rw [target, if_pos (by omega)]
  cases i with
  | loadConst k => exact absurd hw id
  | jump t =>
    rw [apply, htarget t hw]
    rfl
  | jumpIfFalse t =>
    rw [apply, htarget t hw]
    rfl
  | _ => rfl

theorem apply_stands {r : Relocation} {old new : ConstantPool} (hr : Covers r.remap old new)
    {stop : Nat} (hstop : stop + r.offset < operandLimit) {d : Draft} {i : Instruction}
    (hd : d.Stands old i) (hw : d.Within stop) :
    ∃ j, r.apply i = .ok j ∧ (d.shift r.offset).Stands new j := by
  cases d with
  | literal c =>
    cases i with
    | loadConst k =>
      obtain ⟨b, hb, hbc⟩ := hd
      obtain ⟨i, hi, a, ha, hab⟩ := hr hb
      refine ⟨.loadConst i, ?_, a, ha, hab.trans hbc⟩
      rw [apply, constant, hi]
      rfl
    | _ => exact absurd hd id
  | plain j =>
    obtain rfl : j = i := hd
    exact ⟨_, apply_plain hstop hw, rfl⟩

/-- Relocation of the code of a draft succeeds and stands for the moved draft. -/
theorem applyAll_stands {r : Relocation} {old new : ConstantPool} (hr : Covers r.remap old new)
    {stop : Nat} (hstop : stop + r.offset < operandLimit) {ds : List Draft}
    {code : List Instruction} (hds : List.Forall₂ (Draft.Stands old) ds code)
    (hw : AllWithin stop ds) :
    ∃ moved, r.applyAll code = .ok moved ∧
      List.Forall₂ (Draft.Stands new) (ds.map (Draft.shift r.offset)) moved := by
  induction hds with
  | nil => exact ⟨[], rfl, .nil⟩
  | cons hd _ ih =>
    rw [allWithin_cons] at hw
    obtain ⟨j, hj, hjs⟩ := apply_stands hr hstop hd hw.1
    obtain ⟨moved, hmoved, hstands⟩ := ih hw.2
    exact ⟨j :: moved, by rw [applyAll_cons, hj, hmoved], .cons hjs hstands⟩

end Relocation

end StackScript
