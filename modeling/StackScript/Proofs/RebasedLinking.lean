import StackScript.Proofs.SeparateCompilation

/-!
Linking with moved jumps rebuilds the main code of the whole program.

If only the main pools of units are merged, the linked pool is filled in the same order as that of
the program compiled as a whole, although on the one way literals join the pool of their unit first.
The two main streams are then the same, index by index. Functions can keep such units from being
linked, and nothing else can.

* `merge_settle`, `applyAll_settle`: settling a draft over a pool of its own and then relocating it
  into another pool is settling it over the other pool;
* `FunctionFault`: what can be wrong with the functions of units;
* `Linking.Rebuilds`: a linking state has the main code and the pool of a program;
* `addUnit_rebuilds`, `addUnits_rebuilds`: one more unit, and units one after the other;
* `rebased_main_code`: the main code of linked units.
-/

namespace StackScript

/-! ### Settling twice -/

/-- A pool that literals have joined, merged into another one, leaves it as if they had joined that
one after the merge. -/
theorem merge_settle (pool : ConstantPool) (ds : List Draft) : ∀ own : ConstantPool,
    (pool.merge (settle own ds).2).2 = (settle (pool.merge own).2 ds).2 := by
  induction ds with
  | nil => exact fun own => rfl
  | cons d ds ih =>
    intro own
    cases d with
    | literal c =>
      have hrest := ih (own.place c).2
      rw [(pool.merge_place own c).2] at hrest
      exact hrest
    | plain i => exact ih own

/-- Code over a pool of its own, relocated into another pool with its jumps moved, is the code of
the moved draft over the other pool. -/
theorem applyAll_settle {r : Relocation} {stop : Nat}
    (hstop : stop + r.offset < Relocation.operandLimit) (pool : ConstantPool) {ds : List Draft}
    (hw : AllWithin stop ds) :
    ∀ own : ConstantPool, r.remap = (pool.merge (settle own ds).2).1 →
      r.applyAll (settle own ds).1
        = .ok (settle (pool.merge own).2 (ds.map (Draft.shift r.offset))).1 := by
  induction ds with
  | nil => exact fun own _ => rfl
  | cons d ds ih =>
    intro own hremap
    rw [allWithin_cons] at hw
    cases d with
    | literal c =>
      have hrest := ih hw.2 (own.place c).2 hremap
      rw [(pool.merge_place own c).2] at hrest
      -- later literals of the draft do not change the index that this one has
      obtain ⟨later, hlater⟩ := ConstantPool.prefix_indices_merge
        (prefix_settle ds (own.place c).2) pool
      have hindex : r.remap[(own.place c).1]? = some ((pool.merge own).2.place c).1 := by
        have hplaced := (pool.merge_place own c).1
        rw [hremap]
        show (pool.merge (settle (own.place c).2 ds).2).1[(own.place c).1]? = _
        rw [← hlater, List.getElem?_append_left (List.getElem?_eq_some_iff.mp hplaced).1, hplaced]
      show r.applyAll (.loadConst (own.place c).1 :: (settle (own.place c).2 ds).1) = _
      rw [Relocation.applyAll_cons, Relocation.apply, Relocation.constant, hindex, hrest]
      rfl
    | plain i =>
      show r.applyAll (i :: (settle own ds).1) = _
      rw [Relocation.applyAll_cons, Relocation.apply_plain hstop hw.1, ih hw.2 own hremap]
      rfl

/-- Moving a draft does not change what its literals do to a pool. -/
theorem pool_settle_shift (offset : Nat) (ds : List Draft) : ∀ pool : ConstantPool,
    (settle pool (ds.map (Draft.shift offset))).2 = (settle pool ds).2 := by
  induction ds with
  | nil => exact fun pool => rfl
  | cons d ds ih =>
    intro pool
    cases d with
    | literal c => exact ih (pool.place c).2
    | plain i => exact ih pool

/-! ### What can be wrong with functions -/

/-- The functions of units are at fault: a name comes twice, or a function loads a constant that the
main pool of its unit does not have. -/
inductive FunctionFault (us : List BytecodeUnit) : LinkError → Prop where
  | duplicate {u : BytecodeUnit} {f : String × CompiledFunction} (hu : u ∈ us)
      (hf : f ∈ u.functions.entries) : FunctionFault us (.duplicateFunction f.1)
  | constant {u : BytecodeUnit} {f : String × CompiledFunction} {index : Nat} (hu : u ∈ us)
      (hf : f ∈ u.functions.entries) (hload : .loadConst index ∈ f.2.code)
      (hrange : u.constants.length ≤ index) :
      FunctionFault us (.constantOutOfRange u.name f.1 index)

theorem FunctionFault.mono {us vs : List BytecodeUnit} {e : LinkError} (h : FunctionFault us e)
    (hsub : us ⊆ vs) : FunctionFault vs e := by
  cases h with
  | duplicate hu hf => exact .duplicate (hsub hu) hf
  | constant hu hf hload hrange => exact .constant (hsub hu) hf hload hrange

/-- A jump in the code of a draft goes no further than the draft allows. -/
theorem Draft.Stands.target_le {pool : ConstantPool} {d : Draft} {i : Instruction} {stop t : Nat}
    (hd : d.Stands pool i) (hw : d.Within stop) (hi : i = .jump t ∨ i = .jumpIfFalse t) :
    t ≤ stop := by
  cases d with
  | literal c => rcases hi with rfl | rfl <;> exact absurd hd id
  | plain j =>
    obtain rfl : j = i := hd
    rcases hi with rfl | rfl <;> exact hw

/-- A jump of a compiled body stays in it or goes to its end. -/
theorem target_le_compileBody {body : List Node} {i : Instruction} {t : Nat}
    (hi : i ∈ (compileBody body).code) (hjump : i = .jump t ∨ i = .jumpIfFalse t) :
    t ≤ (draftAll 0 body).length := by
  rw [compileBody_eq] at hi
  obtain ⟨d, hd, hstands⟩ := exists_draft_of_mem (stands_settle (draftAll 0 body) []) hi
  have hle := hstands.target_le (withinAll_draftAll 0 body d hd) hjump
  rwa [Nat.zero_add] at hle

/-- A compiled body that is not relocated loads a constant beyond the pool: its jumps, which do not
move, stay in it. -/
theorem applyAll_compileBody_error {r : Relocation} {body : List Node} (hoffset : r.offset = 0)
    (hlength : (draftAll 0 body).length < Relocation.operandLimit) {e : LinkError}
    (h : r.applyAll (compileBody body).code = .error e) :
    ∃ k, .loadConst k ∈ (compileBody body).code ∧ r.remap.length ≤ k ∧
      e = .constantOutOfRange r.unit r.stream k := by
  obtain ⟨i, hi, he⟩ := Relocation.applyAll_error h
  rcases Relocation.apply_error he with ⟨k, rfl, hk, he⟩ | ⟨t, hjump, ht, -⟩
  · exact ⟨k, hi, hk, he⟩
  · have hle := target_le_compileBody hi hjump
    omega

/-! ### Units one after the other -/

namespace Linking

/-- The main code and the pool that have been linked are those of a program compiled as a whole. -/
structure Rebuilds (s : Linking) (program : Program) : Prop where
  code : s.code = (settle [] (draftAll 0 program)).1
  pool : s.pool = (settle [] (draftAll 0 program)).2

theorem rebuilds_nil : Rebuilds {} [] :=
  ⟨rfl, rfl⟩

theorem Rebuilds.length_code {s : Linking} {program : Program} (h : s.Rebuilds program) :
    s.code.length = (draftAll 0 program).length := by
  rw [h.code, length_settle]

/-- The functions of a unit are added without a change of the pool, or are at fault. -/
theorem addFunctions_rebuilds (rebase : Bool) (u : BytecodeUnit) (remap : List Nat)
    (hremap : remap.length = u.constants.length) (bs : List (String × List Node))
    (hbs : ∀ b ∈ bs, (b.1, compileBody b.2) ∈ u.functions.entries)
    (hlength : ∀ b ∈ bs, (draftAll 0 b.2).length < Relocation.operandLimit) :
    ∀ s : Linking,
      match addFunctions ⟨rebase, false⟩ u.name remap (bs.map fun b => (b.1, compileBody b.2)) s with
      | .ok () s' => s'.code = s.code ∧ s'.pool = s.pool
      | .error e _ => FunctionFault [u] e := by
  induction bs with
  | nil => exact fun s => ⟨rfl, rfl⟩
  | cons b bs ih =>
    intro s
    rw [List.forall_mem_cons] at hbs hlength
    rw [List.map_cons, addFunctions_cons, addFunction_eq]
    by_cases hcontains : s.functions.contains b.1 = true
    · rw [if_pos hcontains]
      exact .duplicate List.mem_cons_self hbs.1
    · rw [if_neg hcontains]
      -- without merging, the constants of a function are looked up in the main pool
      simp only [functionConstants, Bool.false_eq_true, if_false]
      cases hcode : Relocation.applyAll ⟨u.name, b.1, remap, 0⟩ (compileBody b.2).code with
      | error e =>
        obtain ⟨k, hload, hk, rfl⟩ := applyAll_compileBody_error rfl hlength.1 hcode
        exact .constant List.mem_cons_self hbs.1 hload (hremap ▸ hk)
      | ok code =>
        exact ih hbs.2 hlength.2 { s with functions := s.functions.insert b.1 code }

/-- The main code of a unit behind a program is relocated to what it is in the program and the
unit's compiled as a whole. -/
theorem Rebuilds.applyAll_main {s : Linking} {p q : Program} (hs : s.Rebuilds p) (name : String)
    (hlength : (draftAll 0 p).length + (draftAll 0 q).length < Relocation.operandLimit) :
    Relocation.applyAll ⟨name, Relocation.mainStream,
        (s.pool.merge (compile name q).constants).1, s.code.length⟩ (compile name q).code
      = .ok (settle s.pool ((draftAll 0 q).map (Draft.shift (draftAll 0 p).length))).1 := by
  have hwithin := withinAll_draftAll 0 q
  rw [Nat.zero_add] at hwithin
  rw [hs.length_code]
  have hcode := applyAll_settle (r := ⟨name, Relocation.mainStream,
    (s.pool.merge (settle [] (draftAll 0 q)).2).1, (draftAll 0 p).length⟩)
    (by dsimp only; omega) s.pool hwithin [] rfl
  rw [compile_eq]
  exact hcode

/-- A unit behind what rebuilds a program: together they rebuild the program and the unit's, unless
the functions of the unit are at fault. -/
theorem addUnit_rebuilds (isFirst : Bool) (name : String) {p q : Program} {s : Linking}
    (hs : s.Rebuilds p)
    (hlength : (draftAll 0 p).length + (compile name q).size < Relocation.operandLimit) :
    match addUnit ⟨true, false⟩ isFirst (compile name q) s with
    | .ok () s' => s'.Rebuilds (p ++ q)
    | .error e _ => FunctionFault [compile name q] e := by
  rw [size_compile] at hlength
  have hmain := hs.applyAll_main name (q := q) (by omega)
  have hname : (compile name q).name = name := by rw [compile_eq]
  have hentries : (compile name q).functions.entries
      = (bodies q).entries.map fun b => (b.1, compileBody b.2) := by
    rw [functions_compile, Table.mapValues]
  have hfunctions := addFunctions_rebuilds true (compile name q)
    (s.pool.merge (compile name q).constants).1 (ConstantPool.length_merge _ _) (bodies q).entries
    (fun b hb => hentries ▸ List.mem_map_of_mem hb)
    (fun b hb => by
      have := List.le_sum_of_mem (List.mem_map_of_mem (f := fun b => (draftAll 0 b.2).length) hb)
      omega)
  rw [← hentries, hname] at hfunctions
  rw [addUnit_eq, jumpOffset, if_pos rfl, hname, hmain]
  simp only
  generalize hlinked : addFunctions _ name _ _ _ = result
  have hresult := hlinked ▸ hfunctions _
  cases result with
  | error e s' => exact hresult
  | ok _ s' =>
    obtain ⟨hcode, hpool⟩ := hresult
    -- the unit's literals join the pool as if the unit had no pool of its own
    have hmerged : (s.pool.merge (compile name q).constants).2
        = (settle s.pool ((draftAll 0 q).map (Draft.shift (draftAll 0 p).length))).2 := by
      rw [compile_eq, pool_settle_shift]
      exact merge_settle s.pool (draftAll 0 q) []
    constructor
    · show s'.code = _
      rw [hcode, draftAll_append_shift, settle_append, ← hs.pool, ← hs.code]
    · show s'.pool = _
      rw [hpool, draftAll_append_shift, settle_append, ← hs.pool]
      exact hmerged

/-- Units behind what rebuilds a program, one after the other. -/
theorem addUnits_rebuilds (units : List (String × Program)) :
    ∀ (isFirst : Bool) (p : Program) (s : Linking), s.Rebuilds p →
      (draftAll 0 p).length + (units.map fun u => (compile u.1 u.2).size).sum
        < Relocation.operandLimit →
      match addUnits ⟨true, false⟩ isFirst (units.map fun u => compile u.1 u.2) s with
      | .ok () s' => s'.Rebuilds (p ++ units.flatMap (·.2))
      | .error e _ => FunctionFault (units.map fun u => compile u.1 u.2) e := by
  induction units with
  | nil =>
    intro isFirst p s hs _
    rw [List.flatMap_nil, List.append_nil]
    exact hs
  | cons u units ih =>
    intro isFirst p s hs hlength
    rw [List.map_cons, List.sum_cons] at hlength
    have hunit := addUnit_rebuilds isFirst u.1 (q := u.2) hs (by omega)
    have hnext : (draftAll 0 (p ++ u.2)).length
        ≤ (draftAll 0 p).length + (compile u.1 u.2).size := by
      rw [draftAll_append_shift, List.length_append, List.length_map, size_compile]
      omega
    rw [List.map_cons, addUnits_cons]
    cases hadd : addUnit ⟨true, false⟩ isFirst (compile u.1 u.2) s with
    | error e s₁ =>
      rw [hadd] at hunit
      exact hunit.mono (List.cons_subset_cons _ (List.nil_subset _))
    | ok _ s₁ =>
      rw [hadd] at hunit
      have hrest := ih false (p ++ u.2) s₁ hunit (by omega)
      rw [List.flatMap_cons, ← List.append_assoc]
      simp only
      generalize addUnits _ false _ s₁ = result at hrest ⊢
      cases result with
      | error e s₂ => exact hrest.mono (List.subset_cons_self _ _)
      | ok _ s₂ => exact hrest

end Linking

/-- The code of programs one after the other is no longer than their units. -/
theorem length_draftAll_flatMap_le (units : List (String × Program)) :
    (draftAll 0 (units.flatMap (·.2))).length
      ≤ (units.map fun u => (compile u.1 u.2).size).sum := by
  induction units with
  | nil => exact Nat.zero_le _
  | cons u units ih =>
    rw [List.flatMap_cons, draftAll_append_shift, List.length_append, List.length_map,
      List.map_cons, List.sum_cons, size_compile u.1]
    omega

/-! ### The main code of linked units -/

/-- Programs compiled one by one and then linked with jumps moved, but without merging the constants
of functions: if linking succeeds, the main code and the pool are those of their statements one
after the other compiled as a whole. If it fails, functions are at fault; the main code of every
unit that is come to is relocated. -/
theorem rebased_main_code (name : String) (units : List (String × Program))
    (hlength : (units.map fun u => (compile u.1 u.2).size).sum < 2 ^ 64) :
    (∀ linked, (linkAll ⟨true, false⟩ (units.map fun u => compile u.1 u.2)).1 = .ok linked →
      linked.code = (compile name (units.flatMap (·.2))).code ∧
        linked.constants = (compile name (units.flatMap (·.2))).constants) ∧
    (∀ e, (linkAll ⟨true, false⟩ (units.map fun u => compile u.1 u.2)).1 = .error e →
      FunctionFault (units.map fun u => compile u.1 u.2) e) ∧
    ∀ before u after, units = before ++ u :: after → ∀ s,
      Linking.addUnits ⟨true, false⟩ true (before.map fun v => compile v.1 v.2) {} = .ok () s →
      ∃ code, Relocation.applyAll ⟨u.1, Relocation.mainStream,
        (s.pool.merge (compile u.1 u.2).constants).1, s.code.length⟩ (compile u.1 u.2).code
          = .ok code := by
  -- linking begins with nothing, which is what the empty program is compiled to
  have hall := Linking.addUnits_rebuilds units true [] {} Linking.rebuilds_nil
    (by rwa [draftAll, List.length_nil, Nat.zero_add])
  rw [List.nil_append] at hall
  rw [linkAll_compiled]
  refine ⟨?_, ?_, ?_⟩
  · intro linked hlinked
    generalize Linking.addUnits _ true _ {} = result at hall hlinked
    cases result with
    | error e s => exact nomatch hlinked
    | ok _ s =>
      obtain rfl := Except.ok.inj hlinked
      rw [compile_eq]
      exact ⟨hall.code, hall.pool⟩
  · intro e he
    generalize Linking.addUnits _ true _ {} = result at hall he
    cases result with
    | error e' s =>
      obtain rfl := Except.error.inj he
      exact hall
    | ok _ s => exact nomatch he
  · rintro before u after rfl s hs
    rw [List.map_append, List.sum_append, List.map_cons, List.sum_cons, size_compile u.1]
      at hlength
    have hbefore := Linking.addUnits_rebuilds before true [] {} Linking.rebuilds_nil
      (by rw [draftAll, List.length_nil, Nat.zero_add]; exact Nat.lt_of_le_of_lt (by omega) hlength)
    rw [hs, List.nil_append] at hbefore
    have hdone := length_draftAll_flatMap_le before
    exact ⟨_, hbefore.applyAll_main u.1 (Nat.lt_of_le_of_lt (by omega) hlength)⟩

/-- Units that share literals with each other and repeat their own, among them both zeros and what
is not a number, and of which the second one has a loop and a function. -/
theorem rebased_main_code_of_two :
    ∃ linked, (linkAll ⟨true, false⟩
        [compile "a" [.print (.binary .add (.number 0) (.number (0 / 0))), .print (.number (-0))],
          compile "b" [.loop (.binary .lt (.number (-0)) (.string "x"))
              [.print (.number (0 / 0)), .print (.number (0 / 0))],
            .define "f" ["y"] [.ret (some (.number 0))]]]).1 = .ok linked ∧
      linked.code = (compile "ab"
        [.print (.binary .add (.number 0) (.number (0 / 0))), .print (.number (-0)),
          .loop (.binary .lt (.number (-0)) (.string "x"))
              [.print (.number (0 / 0)), .print (.number (0 / 0))],
            .define "f" ["y"] [.ret (some (.number 0))]]).code ∧
      linked.constants = (compile "ab"
        [.print (.binary .add (.number 0) (.number (0 / 0))), .print (.number (-0)),
          .loop (.binary .lt (.number (-0)) (.string "x"))
              [.print (.number (0 / 0)), .print (.number (0 / 0))],
            .define "f" ["y"] [.ret (some (.number 0))]]).constants :=
  ⟨_, rfl, (rebased_main_code "ab"
    [("a", [.print (.binary .add (.number 0) (.number (0 / 0))), .print (.number (-0))]),
      ("b", [.loop (.binary .lt (.number (-0)) (.string "x"))
          [.print (.number (0 / 0)), .print (.number (0 / 0))],
        .define "f" ["y"] [.ret (some (.number 0))]])] (by decide)).1 _ rfl⟩

end StackScript
