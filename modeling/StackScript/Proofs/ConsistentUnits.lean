import Mathlib
import StackScript.Proofs.LinkedProgram

/-!
Which units fit together, and what is found first where they do not.

Linking looks at one thing after the other and stops at the first that is wrong: at all exports, then
at all imports, and then unit by unit at the main code and at the functions. What is wrong with units
is listed here in that order, also behind the first fault, without a linker.

* `exportFaults`, `importFaults`, `unitFaults`: what is wrong with the symbols, and with the code;
* `linkFaults`: all of it, in the order of linking;
* `Consistent`: nothing is wrong, said of each part;
* `failure?_addAll`, `failure?_resolveImports`, `error?_addUnits`: each stage of linking stops at the
  first of its faults;
* `linkAll_consistent`: units can be linked iff they are consistent, and otherwise the error is the
  first of their faults.
-/

namespace StackScript

/-! ### Faults -/

/-- Exports, each with the name of its unit, that have been exported before. -/
def exportFaults (before : List (String × String)) : List (String × String) → List LinkError
  | [] => []
  | (unit, symbol) :: rest =>
    ((before.find? (·.2 = symbol)).map fun first =>
        LinkError.duplicateSymbol symbol first.1 unit).toList
      ++ exportFaults (before ++ [(unit, symbol)]) rest

/-- The exports of a unit. -/
def BytecodeUnit.offers (u : BytecodeUnit) : List (String × String) :=
  u.exports.map fun symbol => (u.name, symbol)

/-- Imports that none of the units exports. -/
def importFaults (us : List BytecodeUnit) : List LinkError :=
  us.flatMap fun u => (u.imports.filter (· ∉ us.flatMap (·.exports))).map fun symbol =>
    .undefinedSymbol symbol u.name

/-- What is wrong with an instruction whose constants are in a pool and whose jumps move. -/
def Instruction.fault? (unit stream : String) (pool : ConstantPool) (offset : Nat) :
    Instruction → Option LinkError
  | loadConst i => if i < pool.length then none else some (.constantOutOfRange unit stream i)
  | jump t => if t + offset < 2 ^ 64 then none else some (.jumpOutOfRange unit stream t offset)
  | jumpIfFalse t =>
    if t + offset < 2 ^ 64 then none else some (.jumpOutOfRange unit stream t offset)
  | _ => none

/-- What is wrong with the functions of a unit, where some names are taken: first with the name of
each, then with its instructions. -/
def functionFaults (options : LinkOptions) (u : BytecodeUnit) (taken : List String) :
    List (String × CompiledFunction) → List LinkError
  | [] => []
  | f :: fs =>
    (if f.1 ∈ taken then [.duplicateFunction f.1] else [])
      ++ f.2.code.filterMap (Instruction.fault? u.name f.1 (u.poolOf options f.2) 0)
      ++ functionFaults options u (taken ++ [f.1]) fs

/-- What is wrong with units whose code begins at `base`: with the main code of each, then with its
functions. -/
def unitFaults (options : LinkOptions) (base : Nat) (taken : List String) :
    List BytecodeUnit → List LinkError
  | [] => []
  | u :: us =>
    u.code.filterMap (Instruction.fault? u.name Relocation.mainStream u.constants
        (Linking.jumpOffset options base))
      ++ functionFaults options u taken u.functions.entries
      ++ unitFaults options (base + u.code.length) (taken ++ u.functions.names) us

/-- All that is wrong with units, in the order of linking. -/
def linkFaults (options : LinkOptions) (us : List BytecodeUnit) : List LinkError :=
  exportFaults [] (us.flatMap BytecodeUnit.offers) ++ importFaults us ++ unitFaults options 0 [] us

/-- Nothing is wrong with units. -/
structure Consistent (options : LinkOptions) (us : List BytecodeUnit) : Prop where
  exports : (us.flatMap (·.exports)).Nodup
  imports : ∀ u ∈ us, ∀ symbol ∈ u.imports, ∃ v ∈ us, symbol ∈ v.exports
  functions : (us.flatMap (·.functions.names)).Nodup
  mainConstants : ∀ u ∈ us, ∀ i, .loadConst i ∈ u.code → i < u.constants.length
  functionConstants : ∀ u ∈ us, ∀ f ∈ u.functions.entries, ∀ i, .loadConst i ∈ f.2.code →
    i < if options.mergeFunctionConstants then f.2.constants.length else u.constants.length
  jumps : options.rebaseJumps = true → ∀ u ∈ placedUnits 0 us, ∀ t,
    .jump t ∈ u.2.code ∨ .jumpIfFalse t ∈ u.2.code → t + u.1 < 2 ^ 64

/-! ### Relocation -/

/-- The error of a check that fails. -/
def failure? {ε α : Type} : Except ε α → Option ε
  | .ok _ => none
  | .error e => some e

/-- Relocation finds what is wrong with an instruction, if it has an index for each constant. -/
theorem failure?_apply {r : Relocation} {pool : ConstantPool} (h : r.remap.length = pool.length)
    (i : Instruction) :
    failure? (r.apply i) = i.fault? r.unit r.stream pool r.offset := by
  have hlimit : Relocation.operandLimit = 2 ^ 64 := by decide
  have htarget : ∀ (f : Nat → Instruction) (t : Nat), failure? (f <$> r.target t)
      = if t + r.offset < 2 ^ 64 then none
        else some (.jumpOutOfRange r.unit r.stream t r.offset) := by
    intro f t
    rw [Relocation.target, hlimit]
    split <;> rfl
  cases i with
  | loadConst k =>
    rw [Relocation.apply, Relocation.constant, Instruction.fault?, ← h]
    by_cases hk : k < r.remap.length
    · rw [List.getElem?_eq_getElem hk, if_pos hk]
      rfl
    · rw [List.getElem?_eq_none (by omega), if_neg hk]
      rfl
  | jump t => exact htarget _ t
  | jumpIfFalse t => exact htarget _ t
  | _ => rfl

theorem failure?_applyAll {r : Relocation} {pool : ConstantPool}
    (h : r.remap.length = pool.length) (code : List Instruction) :
    failure? (r.applyAll code)
      = (code.filterMap (Instruction.fault? r.unit r.stream pool r.offset)).head? := by
  induction code with
  | nil => rfl
  | cons i is ih =>
    have hi := failure?_apply h i
    rw [Relocation.applyAll_cons]
    cases happly : r.apply i with
    | error e =>
      rw [happly] at hi
      rw [List.filterMap_cons_some hi.symm]
      rfl
    | ok j =>
      rw [happly] at hi
      rw [List.filterMap_cons_none hi.symm, ← ih]
      cases r.applyAll is <;> rfl

/-! ### Functions and units -/

namespace Linking

theorem names_insert_of_not_contains {s : Linking} {name : String} (code : List Instruction)
    (h : ¬ s.functions.contains name = true) :
    (s.functions.insert name code).names = s.functions.names ++ [name] := by
  rw [Table.names_insert, if_neg (fun hmem => h (Table.contains_iff.mpr hmem))]

/-- The functions of a unit are added up to the first fault. -/
theorem error?_addFunctions (options : LinkOptions) {u : BytecodeUnit} {remap : List Nat}
    (hremap : remap.length = u.constants.length) (fs : List (String × CompiledFunction)) :
    ∀ s : Linking, error? (addFunctions options u.name remap fs s)
      = (functionFaults options u s.functions.names fs).head? := by
  induction fs with
  | nil => intro s; rfl
  | cons f fs ih =>
    intro s
    have hpool : (functionConstants options s.pool remap f.2).1.length
        = (u.poolOf options f.2).length := by
      unfold functionConstants BytecodeUnit.poolOf
      split
      · exact ConstantPool.length_merge _ _
      · exact hremap
    have hcode := failure?_applyAll
      (r := ⟨u.name, f.1, (functionConstants options s.pool remap f.2).1, 0⟩) hpool f.2.code
    rw [addFunctions_cons, addFunction_eq, functionFaults]
    by_cases hname : s.functions.contains f.1 = true
    · rw [if_pos hname, if_pos (Table.contains_iff.mp hname)]
      rfl
    · rw [if_neg hname, if_neg (fun hmem => hname (Table.contains_iff.mpr hmem)), List.nil_append,
        List.head?_append, ← hcode]
      cases Relocation.applyAll _ f.2.code with
      | error e => rfl
      | ok code =>
        simp only [failure?, Option.none_or]
        rw [ih, names_insert_of_not_contains code hname]

theorem names_of_movedFunctions {options : LinkOptions} {pool : ConstantPool}
    {fs : List (BytecodeUnit × String × CompiledFunction)} {gs : List (String × List Instruction)}
    (h : List.Forall₂ (MovedFunction options pool) fs gs) :
    gs.map (·.1) = fs.map (·.2.1) := by
  induction h with
  | nil => rfl
  | cons hfg _ ih => rw [List.map_cons, List.map_cons, ih, hfg.1]

/-- What a unit that has been added leaves for the units behind it. -/
theorem addUnit_length_names {options : LinkOptions} {isFirst : Bool} {u : BytecodeUnit}
    {s s' : Linking} (h : addUnit options isFirst u s = .ok () s') :
    s'.code.length = s.code.length + u.code.length ∧
      s'.functions.names = s.functions.names ++ u.functions.names := by
  have hextends := addUnit_extends h
  obtain ⟨segments, hcode, hsegments⟩ := hextends.code
  obtain ⟨gs, hgs, hfunctions⟩ := hextends.functions
  constructor
  · rcases hsegments with _ | ⟨hsegment, _ | _⟩
    rw [hcode, List.flatten_singleton, List.length_append, ← hsegment.length_eq]
  · rw [Table.names, hgs, List.map_append, names_of_movedFunctions hfunctions]
    simp [ownedFunctions, Table.names, Function.comp_def]

theorem error?_addUnit (options : LinkOptions) (isFirst : Bool) (u : BytecodeUnit) (s : Linking) :
    error? (addUnit options isFirst u s)
      = (unitFaults options s.code.length s.functions.names [u]).head? := by
  have hremap := ConstantPool.length_merge u.constants s.pool
  have hcode := failure?_applyAll (r := ⟨u.name, Relocation.mainStream,
    (s.pool.merge u.constants).1, jumpOffset options s.code.length⟩) hremap u.code
  rw [addUnit_eq, unitFaults, unitFaults, List.append_nil, List.head?_append, ← hcode]
  cases Relocation.applyAll _ u.code with
  | error e => rfl
  | ok code =>
    have hfunctions := error?_addFunctions options hremap u.functions.entries
      { s with
        pool := (s.pool.merge u.constants).2
        code := s.code ++ code
        notices := s.notices ++ jumpWarnings options isFirst u s.code.length }
    simp only [failure?, Option.none_or]
    refine Eq.trans ?_ hfunctions
    cases addFunctions options u.name _ u.functions.entries _ <;> rfl

theorem unitFaults_cons (options : LinkOptions) (base : Nat) (taken : List String)
    (u : BytecodeUnit) (us : List BytecodeUnit) :
    unitFaults options base taken (u :: us) = unitFaults options base taken [u]
      ++ unitFaults options (base + u.code.length) (taken ++ u.functions.names) us := by
  simp [unitFaults]

/-- Units are added up to the first fault. -/
theorem error?_addUnits (options : LinkOptions) (us : List BytecodeUnit) :
    ∀ (isFirst : Bool) (s : Linking), error? (addUnits options isFirst us s)
      = (unitFaults options s.code.length s.functions.names us).head? := by
  induction us with
  | nil => intro isFirst s; rfl
  | cons u us ih =>
    intro isFirst s
    have hunit := error?_addUnit options isFirst u s
    rw [addUnits_cons, unitFaults_cons, List.head?_append, ← hunit]
    cases hadd : addUnit options isFirst u s with
    | error e s' => rfl
    | ok _ s' =>
      obtain ⟨hlength, hnames⟩ := addUnit_length_names hadd
      rw [← hlength, ← hnames, ← ih false s']
      rfl

end Linking

/-! ### Exports and imports -/

theorem exportFaults_append (es fs : List (String × String)) :
    ∀ before, exportFaults before (es ++ fs)
      = exportFaults before es ++ exportFaults (before ++ es) fs := by
  induction es with
  | nil => intro before; rw [List.append_nil]; rfl
  | cons e es ih =>
    intro before
    rw [List.cons_append, exportFaults, exportFaults, ih, List.append_assoc, List.append_assoc,
      List.singleton_append]

/-- Exports are without a fault if they are new and distinct. -/
theorem exportFaults_eq_nil_iff (es : List (String × String)) :
    ∀ before, exportFaults before es = [] ↔
      (es.map (·.2)).Nodup ∧ ∀ e ∈ es, e.2 ∉ before.map (·.2) := by
  induction es with
  | nil => simp [exportFaults]
  | cons e es ih =>
    intro before
    have hhead : (before.find? (·.2 = e.2)).isSome = true ↔ e.2 ∈ before.map (·.2) := by
      simp [List.find?_isSome]
    rw [exportFaults, List.append_eq_nil_iff, ih, List.map_cons, List.nodup_cons]
    cases hfind : before.find? (·.2 = e.2) with
    | some first =>
      rw [hfind] at hhead
      have hmem : e.2 ∈ before.map (·.2) := hhead.mp rfl
      exact ⟨fun h => absurd h.1 (List.cons_ne_nil _ _),
        fun h => absurd hmem (h.2 e List.mem_cons_self)⟩
    | none =>
      rw [hfind] at hhead
      have : e.2 ∉ before.map (·.2) := fun hmem => by simpa using hhead.mpr hmem
      constructor
      · rintro ⟨-, hnodup, hnew⟩
        refine ⟨⟨?_, hnodup⟩, ?_⟩
        · intro hmem
          obtain ⟨f, hf, hfe⟩ := List.mem_map.mp hmem
          exact hnew f hf (by simp [hfe])
        · intro f hf
          rcases List.mem_cons.mp hf with rfl | hf
          · exact this
          · exact fun hmem => hnew f hf (by rw [List.map_append]; exact List.mem_append_left _ hmem)
      · rintro ⟨⟨hne, hnodup⟩, hnew⟩
        refine ⟨rfl, hnodup, fun f hf hmem => ?_⟩
        rw [List.map_append, List.mem_append] at hmem
        rcases hmem with hmem | hmem
        · exact hnew f (List.mem_cons_of_mem _ hf) hmem
        · have hsame : f.2 = e.2 := by simpa using hmem
          exact hne (hsame ▸ List.mem_map_of_mem hf)

namespace Linker

/-- The symbols that are registered are those that have been exported before, each with the first
unit that did. -/
def Knows (l : Linker) (before : List (String × String)) : Prop :=
  ∀ symbol, l.symbols.find? symbol = (before.find? (·.2 = symbol)).map (·.1)

theorem find?_offers (u : BytecodeUnit) (symbol : String) :
    (u.offers.find? (·.2 = symbol)).map (·.1)
      = if symbol ∈ u.exports then some u.name else none := by
  unfold BytecodeUnit.offers
  induction u.exports with
  | nil => rfl
  | cons s ss ih =>
    by_cases hs : s = symbol
    · simp [hs]
    · have : symbol ≠ s := fun h => hs h.symm
      simpa [hs, this] using ih

theorem firstClash_eq {symbols : Table String} {unit : String} (exports : List String) :
    ∀ {before : List (String × String)} {seen : List String},
      (∀ symbol, (before.find? (·.2 = symbol)).map (·.1)
        = (symbols.find? symbol).or (if symbol ∈ seen then some unit else none)) →
      firstClash symbols unit seen exports
        = (exportFaults before (exports.map fun symbol => (unit, symbol))).head? := by
  induction exports with
  | nil => intro before seen _; rfl
  | cons s ss ih =>
    intro before seen hbefore
    have hs := hbefore s
    rw [firstClash, List.map_cons, exportFaults]
    cases hsymbol : symbols.find? s with
    | some first =>
      rw [hsymbol, Option.some_or] at hs
      obtain ⟨e, he, rfl⟩ := Option.map_eq_some_iff.mp hs
      rw [he]
      rfl
    | none =>
      rw [hsymbol, Option.none_or] at hs
      by_cases hseen : s ∈ seen
      · rw [if_pos hseen] at hs
        obtain ⟨e, he, rfl⟩ := Option.map_eq_some_iff.mp hs
        rw [he]
        simp [hseen]
      · rw [if_neg hseen, Option.map_eq_none_iff] at hs
        rw [hs]
        simp only [List.contains_eq_mem, hseen, decide_false, Bool.false_eq_true, if_false]
        refine ih fun symbol => ?_
        rw [List.find?_append, Option.map_or, hbefore symbol, Option.or_assoc]
        congr 1
        by_cases hsame : s = symbol
        · subst hsame
          simp [hseen]
        · have : symbol ≠ s := fun h => hsame h.symm
          simp [hsame, this]

theorem find?_insertAll_map {α : Type} (names : List String) (value : α) (query : String) :
    ∀ t : Table α, (t.insertAll (names.map fun name => (name, value))).find? query
      = if query ∈ names then some value else t.find? query := by
  induction names with
  | nil => intro t; rfl
  | cons name names ih =>
    intro t
    rw [List.map_cons, Table.insertAll_cons, ih, Table.find?_insert]
    by_cases hmem : query ∈ names
    · simp [hmem]
    · by_cases hname : name = query
      · simp [hname]
      · have : query ≠ name := fun h => hname h.symm
        simp [hmem, hname, this]

/-- A unit is registered unless one of its exports has been exported before. -/
theorem failure?_add {l : Linker} {before : List (String × String)} (h : l.Knows before)
    (u : BytecodeUnit) : failure? (l.add u) = (exportFaults before u.offers).head? ∧
      ∀ l', l.add u = .ok l' → l'.Knows (before ++ u.offers) := by
  have hclash : firstClash l.symbols u.name [] u.exports
      = (exportFaults before u.offers).head? :=
    firstClash_eq u.exports fun symbol => by simpa using (h symbol).symm
  rw [add, hclash]
  cases hfaults : exportFaults before u.offers with
  | cons e es => exact ⟨rfl, fun l' hl' => by cases hl'⟩
  | nil =>
    refine ⟨rfl, ?_⟩
    rintro l' hl'
    obtain rfl := Except.ok.inj hl'
    intro symbol
    rw [find?_insertAll_map, List.find?_append, Option.map_or, find?_offers, ← h symbol]
    -- what the unit exports had not been exported
    obtain ⟨-, hnew⟩ := (exportFaults_eq_nil_iff u.offers before).mp hfaults
    by_cases hmem : symbol ∈ u.exports
    · have : symbol ∉ before.map (·.2) := hnew (u.name, symbol) (List.mem_map_of_mem hmem)
      have hnone : before.find? (·.2 = symbol) = none := by
        rw [List.find?_eq_none]
        intro e he hsame
        exact this (of_decide_eq_true hsame ▸ List.mem_map_of_mem he)
      rw [h symbol, hnone]
      simp [hmem]
    · simp [hmem]

/-- Units are registered up to the first export that has been exported before. -/
theorem failure?_addAll (us : List BytecodeUnit) :
    ∀ {l : Linker} {before : List (String × String)}, l.Knows before →
      failure? (l.addAll us) = (exportFaults before (us.flatMap BytecodeUnit.offers)).head? ∧
        ∀ l', l.addAll us = .ok l' → l'.Knows (before ++ us.flatMap BytecodeUnit.offers) := by
  induction us with
  | nil =>
    intro l before h
    refine ⟨rfl, fun l' hl' => ?_⟩
    obtain rfl := Except.ok.inj hl'
    simpa using h
  | cons u us ih =>
    intro l before h
    obtain ⟨hfailure, hknows⟩ := failure?_add h u
    rw [addAll, List.foldlM_cons, List.flatMap_cons, exportFaults_append, List.head?_append,
      ← hfailure, ← List.append_assoc]
    cases hadd : l.add u with
    | error e => exact ⟨rfl, fun l' hl' => by cases hl'⟩
    | ok l₁ => exact ih (hknows l₁ hadd)

/-- Imports are looked up in the order of the units. -/
theorem failure?_resolveImports {l : Linker}
    (h : l.Knows (l.units.flatMap BytecodeUnit.offers)) :
    failure? l.resolveImports = (importFaults l.units).head? := by
  have hcontains : ∀ symbol, l.symbols.contains symbol = true ↔
      symbol ∈ l.units.flatMap (·.exports) := by
    intro symbol
    rw [Table.contains, h symbol, Option.isSome_map, List.find?_isSome]
    simp [BytecodeUnit.offers]
  have hunit : ∀ u, l.firstUndefined u
      = ((u.imports.filter (· ∉ l.units.flatMap (·.exports))).map fun symbol =>
          LinkError.undefinedSymbol symbol u.name).head? := by
    intro u
    rw [firstUndefined, List.head?_map, List.head?_filter]
    congr 2
    funext symbol
    rw [Bool.eq_iff_iff, Bool.not_eq_true', Bool.eq_false_iff, Ne, hcontains]
    simp
  rw [resolveImports, importFaults, List.head?_flatMap, ← funext hunit]
  cases l.units.findSome? l.firstUndefined <;> rfl

end Linker

/-! ### Units without faults -/

/-- Code is without a fault if its constants are there and its jumps are not too far. -/
theorem filterMap_fault?_eq_nil_iff {unit stream : String} {pool : ConstantPool} {offset : Nat}
    {code : List Instruction} :
    code.filterMap (Instruction.fault? unit stream pool offset) = [] ↔
      (∀ k, .loadConst k ∈ code → k < pool.length) ∧
        ∀ t, .jump t ∈ code ∨ .jumpIfFalse t ∈ code → t + offset < 2 ^ 64 := by
  rw [List.filterMap_eq_nil_iff]
  constructor
  · intro h
    refine ⟨fun k hk => ?_, ?_⟩
    · have := h _ hk
      rw [Instruction.fault?] at this
      by_contra hlt
      rw [if_neg hlt] at this
      cases this
    · rintro t (ht | ht)
      all_goals
        have := h _ ht
        rw [Instruction.fault?] at this
        by_contra hlt
        rw [if_neg hlt] at this
        cases this
  · rintro ⟨hconstants, hjumps⟩ i hi
    cases i with
    | loadConst k => exact if_pos (hconstants k hi)
    | jump t => exact if_pos (hjumps t (.inl hi))
    | jumpIfFalse t => exact if_pos (hjumps t (.inr hi))
    | _ => rfl

theorem functionFaults_eq_nil_iff {options : LinkOptions} {u : BytecodeUnit}
    (fs : List (String × CompiledFunction)) :
    ∀ taken, functionFaults options u taken fs = [] ↔
      (∀ f ∈ fs, f.2.code.filterMap (Instruction.fault? u.name f.1 (u.poolOf options f.2) 0) = [])
        ∧ (fs.map (·.1)).Nodup ∧ ∀ name ∈ fs.map (·.1), name ∉ taken := by
  induction fs with
  | nil => simp [functionFaults]
  | cons f fs ih =>
    intro taken
    rw [functionFaults, List.append_eq_nil_iff, List.append_eq_nil_iff, ih, List.forall_mem_cons,
      List.map_cons, List.nodup_cons, List.forall_mem_cons]
    have hname : (if f.1 ∈ taken then [LinkError.duplicateFunction f.1] else []) = [] ↔
        f.1 ∉ taken := by
      split <;> simp [*]
    have hnew : (∀ name ∈ fs.map (·.1), name ∉ taken ++ [f.1]) ↔
        f.1 ∉ fs.map (·.1) ∧ ∀ name ∈ fs.map (·.1), name ∉ taken := by
      simp only [List.mem_append, List.mem_singleton, not_or]
      constructor
      · intro h
        exact ⟨fun hmem => (h _ hmem).2 rfl, fun name hmem => (h name hmem).1⟩
      · rintro ⟨hne, h⟩ name hmem
        exact ⟨h name hmem, fun hsame => hne (hsame ▸ hmem)⟩
    rw [hname, hnew]
    tauto

theorem unitFaults_eq_nil_iff {options : LinkOptions} (us : List BytecodeUnit) :
    ∀ base taken, unitFaults options base taken us = [] ↔
      (∀ v ∈ placedUnits base us, v.2.code.filterMap (Instruction.fault? v.2.name
          Relocation.mainStream v.2.constants (Linking.jumpOffset options v.1)) = []) ∧
        (∀ u ∈ us, ∀ f ∈ u.functions.entries,
          f.2.code.filterMap (Instruction.fault? u.name f.1 (u.poolOf options f.2) 0) = []) ∧
        (us.flatMap (·.functions.names)).Nodup ∧
        ∀ name ∈ us.flatMap (·.functions.names), name ∉ taken := by
  induction us with
  | nil => simp [unitFaults, placedUnits]
  | cons u us ih =>
    intro base taken
    have hnodup : ((u :: us).flatMap (·.functions.names)).Nodup ↔ u.functions.names.Nodup ∧
        (us.flatMap (·.functions.names)).Nodup ∧
        ∀ name ∈ us.flatMap (·.functions.names), name ∉ u.functions.names := by
      rw [List.flatMap_cons, List.nodup_append']
      exact and_congr_right fun _ => and_congr_right fun _ => List.disjoint_comm
    have hnew : (∀ name ∈ us.flatMap (·.functions.names), name ∉ taken ++ u.functions.names) ↔
        (∀ name ∈ us.flatMap (·.functions.names), name ∉ taken) ∧
        ∀ name ∈ us.flatMap (·.functions.names), name ∉ u.functions.names := by
      simp only [List.mem_append, not_or]
      exact forall₂_and
    have hboth : (∀ name ∈ (u :: us).flatMap (·.functions.names), name ∉ taken) ↔
        (∀ name ∈ u.functions.names, name ∉ taken) ∧
        ∀ name ∈ us.flatMap (·.functions.names), name ∉ taken := by
      rw [List.flatMap_cons, List.forall_mem_append]
    rw [unitFaults, List.append_eq_nil_iff, List.append_eq_nil_iff, functionFaults_eq_nil_iff,
      ih, hnodup, hboth, hnew, placedUnits, List.forall_mem_cons, List.forall_mem_cons]
    unfold Table.names
    tauto

theorem importFaults_eq_nil_iff {us : List BytecodeUnit} :
    importFaults us = [] ↔ ∀ u ∈ us, ∀ symbol ∈ u.imports, ∃ v ∈ us, symbol ∈ v.exports := by
  simp [importFaults]

theorem map_snd_offers (us : List BytecodeUnit) :
    (us.flatMap BytecodeUnit.offers).map (·.2) = us.flatMap (·.exports) := by
  simp [List.map_flatMap, BytecodeUnit.offers, Function.comp_def]

theorem map_snd_placedUnits (us : List BytecodeUnit) :
    ∀ base, (placedUnits base us).map (·.2) = us := by
  induction us with
  | nil => intro base; rfl
  | cons u us ih => intro base; rw [placedUnits, List.map_cons, ih]

/-- A jump of a unit goes to a place with a number of 64 bits. -/
theorem BytecodeUnit.InWords.target_lt {u : BytecodeUnit} (h : u.InWords)
    {code : List Instruction} (hcode : code ∈ u.streams) {t : Nat}
    (ht : .jump t ∈ code ∨ .jumpIfFalse t ∈ code) : t < 2 ^ 64 := by
  rcases ht with ht | ht
  · exact h code hcode _ ht t rfl
  · exact h code hcode _ ht t rfl

/-- Units are consistent iff nothing is wrong with them. Jumps that do not move are never too far. -/
theorem linkFaults_eq_nil_iff {options : LinkOptions} {us : List BytecodeUnit}
    (hwords : ∀ u ∈ us, u.InWords) : linkFaults options us = [] ↔ Consistent options us := by
  rw [linkFaults, List.append_eq_nil_iff, List.append_eq_nil_iff, exportFaults_eq_nil_iff,
    importFaults_eq_nil_iff, unitFaults_eq_nil_iff, map_snd_offers]
  simp only [filterMap_fault?_eq_nil_iff]
  constructor
  · rintro ⟨⟨⟨hexports, -⟩, himports⟩, hmain, hfunctions, hnodup, -⟩
    refine ⟨hexports, himports, hnodup, ?_, ?_, ?_⟩
    · intro u hu
      rw [← map_snd_placedUnits us 0] at hu
      obtain ⟨v, hv, rfl⟩ := List.mem_map.mp hu
      exact (hmain v hv).1
    · intro u hu f hf k hk
      have hlt := (hfunctions u hu f hf).1 k hk
      unfold BytecodeUnit.poolOf at hlt
      split at hlt <;> simp [*]
    · intro hrebase v hv t ht
      have hlt := (hmain v hv).2 t ht
      rwa [Linking.jumpOffset, if_pos hrebase] at hlt
  · rintro ⟨hexports, himports, hnodup, hmain, hfunctions, hjumps⟩
    refine ⟨⟨⟨hexports, by simp⟩, himports⟩, ?_, ?_, hnodup, by simp⟩
    · intro v hv
      have hu : v.2 ∈ us := by
        rw [← map_snd_placedUnits us 0]
        exact List.mem_map_of_mem hv
      refine ⟨hmain v.2 hu, fun t ht => ?_⟩
      rw [Linking.jumpOffset]
      split
      · next hrebase => exact hjumps hrebase v hv t ht
      · exact (hwords v.2 hu).target_lt List.mem_cons_self ht
    · intro u hu f hf
      refine ⟨fun k hk => ?_, fun t ht => ?_⟩
      · have hlt := hfunctions u hu f hf k hk
        unfold BytecodeUnit.poolOf
        split <;> simp_all
      · exact (hwords u hu).target_lt
          (List.mem_cons_of_mem _ (List.mem_map_of_mem (f := fun f => f.2.code) hf)) ht

/-! ### Linking -/

/-- Linking stops at the first fault. -/
theorem failure?_linkAll (options : LinkOptions) (us : List BytecodeUnit) :
    failure? (linkAll options us).1 = (linkFaults options us).head? := by
  have hstart : Linker.Knows {} [] := fun _ => rfl
  obtain ⟨hadd, hknows⟩ := Linker.failure?_addAll us hstart
  rw [linkFaults, List.append_assoc, List.head?_append, List.head?_append, ← hadd, linkAll]
  cases hl : Linker.addAll {} us with
  | error e => rfl
  | ok l =>
    have hunits : l.units = us := units_of_addAll hl
    have hresolve := Linker.failure?_resolveImports (l := l) (by rw [hunits]; exact hknows l hl)
    have hunit := Linking.error?_addUnits options us true {}
    rw [hunits] at hresolve
    rw [← hresolve]
    simp only [failure?, Option.none_or, Linker.link, hunits]
    refine Eq.trans ?_ (congrArg _ hunit)
    cases l.resolveImports with
    | error e => rfl
    | ok _ => cases Linking.addUnits options true us {} <;> rfl

/-- Units can be linked iff they are consistent; where they are not, the error is that of the first
fault. -/
theorem linkAll_consistent (options : LinkOptions) (us : List BytecodeUnit)
    (hwords : ∀ u ∈ us, u.InWords) :
    ((∃ p, (linkAll options us).1 = .ok p) ↔ Consistent options us) ∧
      ∀ e, (linkAll options us).1 = .error e ↔ (linkFaults options us).head? = some e := by
  have hfailure := failure?_linkAll options us
  constructor
  · rw [← linkFaults_eq_nil_iff hwords, ← List.head?_eq_none_iff, ← hfailure]
    cases (linkAll options us).1 <;> simp [failure?]
  · intro e
    rw [← hfailure]
    cases (linkAll options us).1 <;> simp [failure?]

/-- Several things are wrong with two units: a jump that gets too far, a constant that is not there,
and a name that is taken. The jump is what linking finds. -/
theorem linkAll_consistent_of_far_jump :
    let us : List BytecodeUnit :=
      [{ name := "a", code := [.print], functions := ⟨[("f", ⟨[], []⟩)]⟩, exports := ["f"] },
        { name := "b", code := [.jump (2 ^ 64 - 1), .loadConst 0]
          functions := ⟨[("f", ⟨[.loadConst 1], []⟩)]⟩, imports := ["f"] }]
    (∀ u ∈ us, u.InWords) ∧ ¬ Consistent ⟨true, true⟩ us ∧
      (linkAll ⟨true, true⟩ us).1
        = .error (.jumpOutOfRange "b" "<main>" (2 ^ 64 - 1) 1) := by
  intro us
  have hwords : ∀ u ∈ us, u.InWords := by
    simp [us, BytecodeUnit.InWords, BytecodeUnit.streams, Instruction.number?]
  obtain ⟨hiff, herror⟩ := linkAll_consistent ⟨true, true⟩ us hwords
  have hfirst := (herror (.jumpOutOfRange "b" "<main>" (2 ^ 64 - 1) 1)).mpr (by decide +kernel)
  refine ⟨hwords, fun hconsistent => ?_, hfirst⟩
  obtain ⟨p, hp⟩ := hiff.mpr hconsistent
  rw [hfirst] at hp
  cases hp

end StackScript
