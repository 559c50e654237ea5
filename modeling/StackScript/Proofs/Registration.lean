import Mathlib
import StackScript.Proofs.ConsistentUnits

/-!
Registering units, some of which are refused.

A linker that is changed in place could be left halfway by a unit that is refused in the midst of its
exports. Registration is done here step by step on one linker: first all exports of a unit are looked
at, then they are recorded, then the unit is. A unit that is refused leaves no trace, so what the
linker holds is what it would hold if the other units alone had been registered.

* `Linker.register`: registration in place, with `register_eq`: it is `add`, and a failure leaves the
  linker as it was;
* `Linker.registerEach`: units one after the other, past those that are refused;
* `Linker.Holds`: the units and the symbols that a linker holds;
* `head?_exportFaults`: the first fault in exports that are offered;
* `registerEach_atomic`: what a linker holds after any units, and what becomes of the next one.
-/

namespace StackScript

namespace Linker

/-! ### Registration in place -/

/-- A step of registration; an error keeps what has been done before it. -/
abbrev Registering (α : Type) := EStateM LinkError Linker α

/-- Look at the exports of a unit one after the other: none may be registered, or come again. -/
def checkExports (unit : String) : (seen : List String) → List String → Registering Unit
  | _, [] => return ()
  | seen, symbol :: rest => do
    match (← get).symbols.find? symbol with
    | some first => throw (.duplicateSymbol symbol first unit)
    | none =>
      if seen.contains symbol then throw (.duplicateSymbol symbol unit unit)
      checkExports unit (symbol :: seen) rest

/-- Record the exports of a unit one after the other. -/
def recordExports (unit : String) : List String → Registering Unit
  | [] => return ()
  | symbol :: rest => do
    modify fun l => { l with symbols := l.symbols.insert symbol unit }
    recordExports unit rest

/-- Register a unit: look at its exports, record them, and then record the unit. -/
def register (u : BytecodeUnit) : Registering Unit := do
  checkExports u.name [] u.exports
  recordExports u.name u.exports
  modify fun l => { l with units := l.units ++ [u] }

/-- Register units one after the other, whether or not those before are refused. The answer is the
units that have been registered. -/
def registerEach : List BytecodeUnit → Linker → List BytecodeUnit × Linker
  | [], l => ([], l)
  | u :: us, l =>
    match register u l with
    | .ok () l =>
      let (taken, l) := registerEach us l
      (u :: taken, l)
    | .error _ l => registerEach us l

theorem checkExports_eq (unit : String) (exports : List String) (l : Linker) : ∀ seen,
    checkExports unit seen exports l = match firstClash l.symbols unit seen exports with
      | none => .ok () l
      | some e => .error e l := by
  induction exports with
  | nil => exact fun seen => rfl
  | cons symbol rest ih =>
    intro seen
    simp only [checkExports, bind_apply, get_apply, firstClash]
    cases l.symbols.find? symbol with
    | some first => rfl
    | none =>
      by_cases hseen : seen.contains symbol = true
      · simp only [if_pos hseen]
        rfl
      · simp only [if_neg hseen]
        exact ih (symbol :: seen)

theorem recordExports_eq (unit : String) (exports : List String) : ∀ l : Linker,
    recordExports unit exports l = .ok ()
      { l with symbols := l.symbols.insertAll (exports.map fun symbol => (symbol, unit)) } := by
  induction exports with
  | nil => exact fun l => rfl
  | cons symbol rest ih =>
    intro l
    rw [recordExports, bind_apply, modify_apply]
    exact ih _

/-- Nothing is recorded before all exports have been looked at. -/
theorem register_eq (u : BytecodeUnit) (l : Linker) :
    register u l = match l.add u with
      | .ok l' => .ok () l'
      | .error e => .error e l := by
  rw [register, bind_apply, checkExports_eq, add]
  cases firstClash l.symbols u.name [] u.exports with
  | some e => rfl
  | none =>
    show (recordExports u.name u.exports >>= _) l = _
    rw [bind_apply, recordExports_eq]
    rfl

/-! ### What a linker holds -/

/-- The units that are registered, and the symbols: just what these units export, each with the name of
the one unit that exports it. -/
structure Holds (l : Linker) (us : List BytecodeUnit) : Prop where
  units : l.units = us
  distinct : (us.flatMap (·.exports)).Nodup
  symbols : ∀ symbol holder, l.symbols.find? symbol = some holder ↔
    ∃ u ∈ us, symbol ∈ u.exports ∧ u.name = holder

theorem mem_flatMap_offers {us : List BytecodeUnit} {unit symbol : String} :
    (unit, symbol) ∈ us.flatMap BytecodeUnit.offers ↔
      ∃ u ∈ us, symbol ∈ u.exports ∧ u.name = unit := by
  simp only [BytecodeUnit.offers, List.mem_flatMap, List.mem_map, Prod.mk.injEq]
  constructor
  · rintro ⟨u, hu, _, hmem, hname, rfl⟩
    exact ⟨u, hu, hmem, hname⟩
  · rintro ⟨u, hu, hmem, hname⟩
    exact ⟨u, hu, symbol, hmem, hname, rfl⟩

/-- Where no symbol is offered twice, it is known with the unit that offers it. -/
theorem holds_of_knows {l : Linker} {us : List BytecodeUnit} (hunits : l.units = us)
    (hknows : l.Knows (us.flatMap BytecodeUnit.offers))
    (hdistinct : (us.flatMap (·.exports)).Nodup) : l.Holds us := by
  refine ⟨hunits, hdistinct, fun symbol holder => ?_⟩
  rw [hknows symbol, ← mem_flatMap_offers, Option.map_eq_some_iff]
  rw [← map_snd_offers] at hdistinct
  constructor
  · rintro ⟨⟨unit, offered⟩, hfind, rfl⟩
    obtain rfl : offered = symbol := by simpa using List.find?_some hfind
    exact List.mem_of_find?_eq_some hfind
  · intro hmem
    have hsome : ((us.flatMap BytecodeUnit.offers).find? (·.2 = symbol)).isSome = true :=
      List.find?_isSome.mpr ⟨(holder, symbol), hmem, decide_eq_true rfl⟩
    obtain ⟨first, hfirst⟩ := Option.isSome_iff_exists.mp hsome
    have hsame : first.2 = symbol := by simpa using List.find?_some hfirst
    have heq := List.inj_on_of_nodup_map hdistinct (List.mem_of_find?_eq_some hfirst) hmem hsame
    exact ⟨first, hfirst, congrArg Prod.fst heq⟩

namespace Holds

variable {l : Linker} {us : List BytecodeUnit}

theorem knows (h : l.Holds us) : l.Knows (us.flatMap BytecodeUnit.offers) := by
  intro symbol
  cases hfind : (us.flatMap BytecodeUnit.offers).find? (·.2 = symbol) with
  | some first =>
    obtain ⟨unit, offered⟩ := first
    obtain rfl : offered = symbol := by simpa using List.find?_some hfind
    exact (h.symbols offered unit).mpr (mem_flatMap_offers.mp (List.mem_of_find?_eq_some hfind))
  | none =>
    rw [Option.map_none, Option.eq_none_iff_forall_ne_some]
    intro unit hunit
    have hmem := mem_flatMap_offers.mpr ((h.symbols symbol unit).mp hunit)
    simpa using List.find?_eq_none.mp hfind _ hmem

/-- One more unit that has been accepted. -/
theorem add {u : BytecodeUnit} {l' : Linker} (h : l.Holds us) (hadd : l.add u = .ok l') :
    l'.Holds (us ++ [u]) := by
  obtain ⟨hfailure, hknows⟩ := failure?_add h.knows u
  rw [hadd] at hfailure
  have hnone : exportFaults (us.flatMap BytecodeUnit.offers) u.offers = [] :=
    List.head?_eq_none_iff.mp hfailure.symm
  have hfaultless : exportFaults [] (us.flatMap BytecodeUnit.offers) = [] := by
    rw [exportFaults_eq_nil_iff, map_snd_offers]
    exact ⟨h.distinct, fun _ _ => List.not_mem_nil⟩
  have hall : (us ++ [u]).flatMap BytecodeUnit.offers
      = us.flatMap BytecodeUnit.offers ++ u.offers := by
    rw [List.flatMap_append, List.flatMap_singleton]
  refine holds_of_knows ?_ ?_ ?_
  · rw [Linker.add] at hadd
    split at hadd
    · cases hadd
    · rw [← Except.ok.inj hadd, ← h.units]
  · rw [hall]
    exact hknows l' hadd
  · have hboth : exportFaults [] ((us ++ [u]).flatMap BytecodeUnit.offers) = [] := by
      rw [hall, exportFaults_append, hfaultless, List.nil_append, List.nil_append, hnone]
    rw [exportFaults_eq_nil_iff, map_snd_offers] at hboth
    exact hboth.1

end Holds

/-! ### Units that are refused -/

/-- The first fault in exports that are offered: what stands before it is free, and its symbol has an
entry before it. -/
theorem head?_exportFaults {e : LinkError} (es : List (String × String)) : ∀ {before},
    (exportFaults before es).head? = some e → ∃ front offer back first,
      es = front ++ offer :: back ∧ exportFaults before front = [] ∧
      (before ++ front).find? (·.2 = offer.2) = some first ∧
      e = .duplicateSymbol offer.2 first.1 offer.1 := by
  induction es with
  | nil => exact fun h => nomatch h
  | cons offer es ih =>
    intro before h
    obtain ⟨unit, symbol⟩ := offer
    rw [exportFaults] at h
    cases hfind : before.find? (·.2 = symbol) with
    | some first =>
      rw [hfind] at h
      refine ⟨[], (unit, symbol), es, first, rfl, rfl, ?_, (Option.some.inj h).symm⟩
      rw [List.append_nil, hfind]
    | none =>
      rw [hfind] at h
      obtain ⟨front, offer, back, first, rfl, hfront, hfirst, he⟩ := ih h
      refine ⟨(unit, symbol) :: front, offer, back, first, rfl, ?_, ?_, he⟩
      · rw [exportFaults, hfind, hfront]
        rfl
      · rw [List.append_cons]
        exact hfirst

/-- A unit has an export that it cannot have, and `before` are those in front of it. Either another
unit exports it, or the unit itself has done so before. -/
structure Clash (us : List BytecodeUnit) (u : BytecodeUnit) (before : List String)
    (symbol holder : String) : Prop where
  order : before ++ [symbol] <+: u.exports
  distinct : before.Nodup
  free : ∀ s ∈ before, ∀ v ∈ us, s ∉ v.exports
  taken : (∃ v ∈ us, symbol ∈ v.exports ∧ v.name = holder) ∨ symbol ∈ before ∧ u.name = holder

/-- What is wrong with the offers of a unit is wrong with its exports. -/
theorem exists_clash {us : List BytecodeUnit} {u : BytecodeUnit} {e : LinkError}
    (h : (exportFaults (us.flatMap BytecodeUnit.offers) u.offers).head? = some e) :
    ∃ before symbol holder, Clash us u before symbol holder ∧
      e = .duplicateSymbol symbol holder u.name := by
  obtain ⟨front, offer, back, first, hoffers, hfront, hfirst, rfl⟩ := head?_exportFaults _ h
  rw [BytecodeUnit.offers, List.map_eq_append_iff] at hoffers
  obtain ⟨before, after, hexports, rfl, hafter⟩ := hoffers
  obtain ⟨symbol, after, rfl, rfl, -⟩ := List.map_eq_cons_iff.mp hafter
  rw [exportFaults_eq_nil_iff, map_snd_offers] at hfront
  refine ⟨before, symbol, first.1, ⟨?_, ?_, ?_, ?_⟩, rfl⟩
  · exact ⟨after, by rw [hexports, List.append_assoc, List.singleton_append]⟩
  · simpa [Function.comp_def] using hfront.1
  · intro s hs v hv hmem
    exact hfront.2 (u.name, s) (List.mem_map_of_mem hs) (List.mem_flatMap.mpr ⟨v, hv, hmem⟩)
  · have hsame : first.2 = symbol := by simpa using List.find?_some hfirst
    have hmem := List.mem_of_find?_eq_some hfirst
    rw [← hsame]
    rcases List.mem_append.mp hmem with hmem | hmem
    · exact .inl (mem_flatMap_offers.mp hmem)
    · obtain ⟨s, hs, rfl⟩ := List.mem_map.mp hmem
      exact .inr ⟨hs, rfl⟩

namespace Holds

variable {l : Linker} {us : List BytecodeUnit}

theorem contains_iff (h : l.Holds us) (symbol : String) :
    l.symbols.contains symbol = true ↔ ∃ v ∈ us, symbol ∈ v.exports := by
  rw [Table.contains, Option.isSome_iff_exists]
  constructor
  · rintro ⟨holder, hholder⟩
    obtain ⟨v, hv, hmem, -⟩ := (h.symbols symbol holder).mp hholder
    exact ⟨v, hv, hmem⟩
  · rintro ⟨v, hv, hmem⟩
    exact ⟨v.name, (h.symbols symbol v.name).mpr ⟨v, hv, hmem, rfl⟩⟩

/-- A unit is refused iff it exports something twice, or something that is registered. -/
theorem refuses_iff (h : l.Holds us) (u : BytecodeUnit) :
    (∃ e s, register u l = .error e s) ↔
      ¬ u.exports.Nodup ∨ ∃ symbol ∈ u.exports, l.symbols.contains symbol = true := by
  have hfaultless : exportFaults (us.flatMap BytecodeUnit.offers) u.offers = [] ↔
      u.exports.Nodup ∧ ∀ symbol ∈ u.exports, ¬ l.symbols.contains symbol = true := by
    rw [exportFaults_eq_nil_iff, map_snd_offers]
    simp [h.contains_iff, BytecodeUnit.offers, Function.comp_def]
  have hfailure := (failure?_add h.knows u).1
  have hrefused : (∃ e s, register u l = .error e s) ↔ failure? (l.add u) ≠ none := by
    rw [register_eq]
    cases l.add u with
    | ok l' => simp [failure?]
    | error e => simp [failure?]
  rw [hrefused, hfailure, Ne, List.head?_eq_none_iff, hfaultless]
  push Not
  tauto

/-- A unit that is refused changes nothing, and the error names the first export that is taken. -/
theorem of_refused {u : BytecodeUnit} {e : LinkError} {s : Linker} (h : l.Holds us)
    (hrefused : register u l = .error e s) : s = l ∧ ∃ before symbol holder,
      Clash us u before symbol holder ∧ e = .duplicateSymbol symbol holder u.name := by
  rw [register_eq] at hrefused
  have hfailure := (failure?_add h.knows u).1
  cases hadd : l.add u with
  | ok l' =>
    rw [hadd] at hrefused
    cases hrefused
  | error e' =>
    rw [hadd] at hrefused hfailure
    obtain ⟨rfl, rfl⟩ := EStateM.Result.error.inj hrefused
    exact ⟨rfl, exists_clash hfailure.symm⟩

end Holds

/-! ### Units one after the other -/

theorem registerEach_cons (u : BytecodeUnit) (us : List BytecodeUnit) (l : Linker) :
    registerEach (u :: us) l = match l.add u with
      | .ok l' => (u :: (registerEach us l').1, (registerEach us l').2)
      | .error _ => registerEach us l := by
  rw [registerEach, register_eq]
  cases l.add u with
  | ok l' => rfl
  | error e => rfl

/-- Each unit that is accepted is one more that the linker holds. -/
theorem holds_registerEach (us : List BytecodeUnit) : ∀ {l : Linker} {held : List BytecodeUnit},
    l.Holds held → (registerEach us l).2.Holds (held ++ (registerEach us l).1) := by
  induction us with
  | nil =>
    intro l held h
    rw [registerEach, List.append_nil]
    exact h
  | cons u us ih =>
    intro l held h
    rw [registerEach_cons]
    cases hadd : l.add u with
    | ok l' =>
      have hrest := ih (h.add hadd)
      rw [List.append_assoc, List.singleton_append] at hrest
      exact hrest
    | error e => exact ih h

/-- The units that are accepted are accepted as well without those that are refused. -/
theorem addAll_registerEach (us : List BytecodeUnit) : ∀ l : Linker,
    l.addAll (registerEach us l).1 = .ok (registerEach us l).2 := by
  induction us with
  | nil => exact fun l => rfl
  | cons u us ih =>
    intro l
    rw [registerEach_cons]
    cases hadd : l.add u with
    | ok l' =>
      rw [addAll, List.foldlM_cons, hadd]
      exact ih l'
    | error e => exact ih l

/-- Whatever units are registered, and whichever of them are refused: the linker holds the others, in
their order, and no symbol besides theirs. It is the linker that the others alone would have made. The
next unit is refused iff it repeats an export or exports what is registered; it then changes nothing,
and the error names the first export that is taken and the unit that has it. -/
theorem registerEach_atomic (us : List BytecodeUnit) :
    let taken := (registerEach us {}).1
    let l := (registerEach us {}).2
    l.Holds taken ∧
    (∀ u, ((∃ e s, register u l = .error e s) ↔
        ¬ u.exports.Nodup ∨ ∃ symbol ∈ u.exports, l.symbols.contains symbol = true) ∧
      ∀ e s, register u l = .error e s → s = l ∧ ∃ before symbol holder,
        Clash taken u before symbol holder ∧ e = .duplicateSymbol symbol holder u.name) ∧
    addAll {} taken = .ok l ∧ ∀ options, linkAll options taken = l.link options := by
  intro taken l
  have hempty : Linker.Holds {} [] := ⟨rfl, List.nodup_nil, by simp [Table.find?]⟩
  have hholds : l.Holds taken := holds_registerEach us hempty
  have hadd : addAll {} taken = .ok l := addAll_registerEach us {}
  refine ⟨hholds, fun u => ⟨hholds.refuses_iff u, fun e s => hholds.of_refused⟩, hadd, ?_⟩
  intro options
  rw [linkAll, hadd]

/-- The second unit exports `y` twice, and the third `x` after `z`; neither keeps the fourth from
exporting `y` and `z`. The last one repeats `w` behind `z`, which is found first. -/
theorem registerEach_atomic_of_refused :
    let us : List BytecodeUnit := [{ name := "a", exports := ["x"] },
      { name := "b", exports := ["y", "y"] }, { name := "c", exports := ["z", "x"] },
      { name := "d", exports := ["y", "z"] }]
    let u : BytecodeUnit := { name := "e", exports := ["w", "z", "w"] }
    let taken := (registerEach us {}).1
    let l := (registerEach us {}).2
    taken.map (·.name) = ["a", "d"] ∧ l.Holds taken ∧
      register u l = .error (.duplicateSymbol "z" "d" "e") l ∧
      ∃ before symbol holder, Clash taken u before symbol holder ∧
        LinkError.duplicateSymbol "z" "d" "e" = .duplicateSymbol symbol holder u.name := by
  intro us u taken l
  obtain ⟨hholds, hnext, -⟩ := registerEach_atomic us
  have hrefused : register u l = .error (.duplicateSymbol "z" "d" "e") l := rfl
  exact ⟨rfl, hholds, hrefused, ((hnext u).2 _ l hrefused).2⟩

end Linker

end StackScript
