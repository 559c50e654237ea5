import Mathlib
import StackScript.Bytecode.Unit
import StackScript.Proofs.NumberReading
import StackScript.Proofs.QuotedText

/-!
Listings show units without ambiguity.

A listing is read line by line. No constant can forge the end of a line, because quoted text and
numbers stay on one line. Sections end at the first empty line, since a constant or an instruction
never stands on one; and a constant or an instruction is known from its own line, where the index in
front of it is that of the line.

* `OneLine`, `lines_inj`: texts without a line feed, and what is joined of them;
* `Instruction.shown_injective`, `Constant.shown_eq_iff`: instructions and constants that are shown
  alike;
* `Listing.codeLines_injective`, `Listing.constantLines_eq_iff`, `Listing.functionSection_inj`: sections,
  line by line;
* `BytecodeUnit.SameListing`, `listing_eq_iff`: the units that have one listing.
-/

namespace StackScript

/-! ### Texts on one line -/

/-- The text has no line feed in it. -/
def OneLine (text : String) : Prop :=
  '\n' ∉ text.toList

theorem oneLine_append {s t : String} : OneLine (s ++ t) ↔ OneLine s ∧ OneLine t := by
  rw [OneLine, String.toList_append, List.mem_append, not_or]
  rfl

theorem oneLine_toString (n : Nat) : OneLine (toString n) := by
  intro h
  rw [Nat.toString_eq_repr, Nat.toList_repr] at h
  cases allDigits_toDigits n _ h

theorem oneLine_quoted (s : String) : OneLine (quoted s) := by
  intro h
  exact absurd (visible_of_mem_quoted h).1 (by decide)

/-- Lines are known from the text that they are joined to. -/
theorem lines_inj {ls ms : List String} (hls : ∀ l ∈ ls, OneLine l) (hms : ∀ m ∈ ms, OneLine m)
    (hne : ls ≠ []) (hne' : ms ≠ []) (h : "\n".intercalate ls = "\n".intercalate ms) :
    ls = ms := by
  have hsplit : ∀ {ls : List String}, (∀ l ∈ ls, OneLine l) → ls ≠ [] →
      ("\n".intercalate ls).toList.splitOn '\n' = ls.map String.toList := by
    intro ls hls hne
    rw [String.toList_intercalate]
    refine List.splitOn_intercalate '\n' ?_ (by simpa using hne)
    intro cs hcs
    obtain ⟨l, hl, rfl⟩ := List.mem_map.mp hcs
    exact hls l hl
  refine List.map_injective_iff.mpr (fun _ _ => String.toList_inj.mp) ?_
  rw [← hsplit hls hne, ← hsplit hms hne', h]

/-! ### The text of a number -/

/-- The characters that the text of a number is made of. -/
def inNumberText (c : Char) : Bool :=
  c.isDigit || ['+', '-', '.', 'a', 'e', 'f', 'i', 'n'].contains c

theorem inNumberText_of_allDigits {ds : List Char} (h : AllDigits ds) :
    ∀ c ∈ ds, inNumberText c = true := by
  intro c hc
  rw [inNumberText, h c hc, Bool.true_or]

theorem inNumberText_positional (d : Decimal) :
    ∀ c ∈ NumberStyle.positionalText d.digits (d.exponent + d.digits.length),
      inNumberText c = true := by
  obtain ⟨whole, fraction, htext, h, -⟩ := exists_positionalText d
  rw [htext, List.forall_mem_append, List.forall_mem_cons]
  exact ⟨inNumberText_of_allDigits h.whole, rfl, inNumberText_of_allDigits h.fraction⟩

theorem inNumberText_exponent {digits : List Char} (h : AllDigits digits) (exponent : Int) :
    ∀ c ∈ numberStyle.exponentText digits exponent, inNumberText c = true := by
  unfold NumberStyle.exponentText
  simp only [List.forall_mem_append, List.forall_mem_cons]
  refine ⟨⟨⟨?_, rfl, ?_⟩, inNumberText_of_allDigits (allDigits_zeros _)⟩,
    inNumberText_of_allDigits (allDigits_toDigits _)⟩
  · -- a point is put behind the first of several digits
    have hdigits := inNumberText_of_allDigits h
    split
    · simp only [List.forall_mem_cons] at hdigits ⊢
      exact ⟨hdigits.1, rfl, hdigits.2⟩
    · exact hdigits
  · split_ifs <;> simp [inNumberText]

theorem inNumberText_positive (m : Nat) (q : Int) :
    ∀ c ∈ numberStyle.writePositive m q, inNumberText c = true := by
  rw [NumberStyle.writePositive]
  split
  · rw [sub_add_cancel]
    exact inNumberText_positional _
  · exact inNumberText_exponent (allDigits_toDigits _) _

theorem inNumberText_of_mem (x : Float) : ∀ c ∈ (numberText x).toList, inNumberText c = true := by
  rw [numberText, NumberStyle.write]
  cases Binary64.ofFloat x with
  | nan => simp [NumberStyle.writeDatum, numberStyle, inNumberText]
  | infinite negative => cases negative <;> simp [NumberStyle.writeDatum, inNumberText]
  | finite negative m q =>
    have hdigits : ∀ c ∈ (if m = 0 then ['0', '.', '0'] else numberStyle.writePositive m q),
        inNumberText c = true := by
      split
      · simp [inNumberText]
      · exact inNumberText_positive m q
    rw [NumberStyle.writeDatum, String.toList_ofList]
    cases negative with
    | false => exact hdigits
    | true => exact List.forall_mem_cons.mpr ⟨rfl, hdigits⟩

/-! ### Constants -/

namespace Constant

/-- Constants of one kind: equal texts, or numbers that are written alike. -/
def SameText : Constant → Constant → Prop
  | number x, number y => numberText x = numberText y
  | string s, string t => s = t
  | none, none => True
  | _, _ => False

/-- A number is not written as a text in quotation marks is. -/
theorem numberText_ne_quoted (x : Float) (s : String) : numberText x ≠ quoted s := by
  intro h
  have hmark := inNumberText_of_mem x (Quoted.delimiter s.toList)
    (by rw [h, toList_quoted]; exact List.mem_cons_self)
  obtain hq | hq := Quoted.isMark_delimiter s.toList <;> rw [hq] at hmark <;> cases hmark

theorem numberText_ne_none (x : Float) : numberText x ≠ "None" := by
  intro h
  have hletter := inNumberText_of_mem x 'N' (by rw [h]; decide)
  cases hletter

theorem quoted_ne_none (s : String) : quoted s ≠ "None" := by
  intro h
  have hmark : Quoted.delimiter s.toList ∈ "None".toList := by
    rw [← h, toList_quoted]
    exact List.mem_cons_self
  obtain hq | hq := Quoted.isMark_delimiter s.toList <;> rw [hq] at hmark <;>
    exact absurd hmark (by decide)

/-- A constant is known from its text, as far as the text of a number tells. -/
theorem shown_eq_iff {c d : Constant} : c.shown = d.shown ↔ c.SameText d := by
  cases c with
  | number x =>
    cases d with
    | number y => exact Iff.rfl
    | string t => exact iff_of_false (numberText_ne_quoted x t) id
    | none => exact iff_of_false (numberText_ne_none x) id
  | string s =>
    cases d with
    | number y => exact iff_of_false (numberText_ne_quoted y s).symm id
    | string t => exact quoted_injective.eq_iff
    | none => exact iff_of_false (quoted_ne_none s) id
  | none =>
    cases d with
    | number y => exact iff_of_false (numberText_ne_none y).symm id
    | string t => exact iff_of_false (quoted_ne_none t).symm id
    | none => exact iff_of_true rfl trivial

theorem oneLine_shown (c : Constant) : OneLine c.shown := by
  cases c with
  | number x =>
    intro h
    cases inNumberText_of_mem x _ h
  | string s => exact oneLine_quoted s
  | none => exact (by decide : '\n' ∉ "None".toList)

end Constant

/-! ### Instructions -/

namespace Instruction

/-- An instruction with nothing for its operands. -/
def bare : Instruction → Instruction
  | loadConst _ => loadConst 0
  | loadVar _ => loadVar ""
  | storeVar _ => storeVar ""
  | call .. => call "" 0
  | jump _ => jump 0
  | jumpIfFalse _ => jumpIfFalse 0
  | i => i

/-- The instructions with nothing for their operands. -/
def allBare : List Instruction :=
  [loadConst 0, loadVar "", storeVar "", binary .add, binary .sub, binary .mul, binary .div,
    binary .eq, binary .ne, binary .lt, binary .gt, unary .plus, unary .minus, call "" 0, ret,
    jump 0, jumpIfFalse 0, print]

theorem bare_mem_allBare (i : Instruction) : i.bare ∈ allBare := by
  cases i with
  | binary op => cases op <;> simp [bare, allBare]
  | unary op => cases op <;> simp [bare, allBare]
  | _ => simp [bare, allBare]

theorem opcode_bare (i : Instruction) : i.bare.opcode = i.opcode := by
  cases i <;> rfl

/-- Instructions with one opcode differ by their operands alone. -/
theorem bare_eq_of_opcode {i j : Instruction} (h : i.opcode = j.opcode) : i.bare = j.bare := by
  have hnodup : (allBare.map opcode).Nodup := by decide
  refine List.inj_on_of_nodup_map hnodup (bare_mem_allBare i) (bare_mem_allBare j) ?_
  rw [opcode_bare, opcode_bare, h]

/-- Opcodes are made of capital letters and underscores. -/
theorem opcode_chars (i : Instruction) : ∀ c ∈ i.opcode.toList, (c.isUpper || c == '_') = true := by
  have hall : ∀ i ∈ allBare, ∀ c ∈ i.opcode.toList, (c.isUpper || c == '_') = true := by
    simp [allBare, opcode, BinaryOp.opcode, UnaryOp.opcode]
  rw [← opcode_bare]
  exact hall _ (bare_mem_allBare i)

theorem oneLine_opcode (i : Instruction) : OneLine i.opcode := by
  intro h
  cases opcode_chars i _ h

theorem opcode_no_space (i : Instruction) : ∀ c ∈ i.opcode.toList, (c != ' ') = true := by
  intro c hc
  have hchars := opcode_chars i c hc
  rw [bne_iff_ne]
  rintro rfl
  cases hchars

/-- Operands begin with a space. -/
theorem breaks_operands (i : Instruction) : Breaks (· != ' ') i.operands.toList := by
  have hspace : ∀ text : String, Breaks (· != ' ') (" " ++ text).toList := by
    intro text
    simp [Breaks]
  cases i with
  | loadConst k => exact hspace _
  | loadVar name => exact hspace _
  | storeVar name => exact hspace _
  | jump target => exact hspace _
  | jumpIfFalse target => exact hspace _
  | _ => simp [Breaks, operands]

/-- The opcode ends where the first space stands. -/
theorem parts_of_shown {i j : Instruction} (h : i.shown = j.shown) :
    i.opcode = j.opcode ∧ i.operands = j.operands := by
  have htake : ∀ i : Instruction, i.shown.toList.takeWhile (· != ' ') = i.opcode.toList := by
    intro i
    rw [shown, String.toList_append, takeWhile_of_breaks i.opcode_no_space i.breaks_operands]
  have hdrop : ∀ i : Instruction, i.shown.toList.dropWhile (· != ' ') = i.operands.toList := by
    intro i
    rw [shown, String.toList_append, dropWhile_of_breaks i.opcode_no_space i.breaks_operands]
  constructor
  · rw [← String.toList_inj, ← htake, ← htake, h]
  · rw [← String.toList_inj, ← hdrop, ← hdrop, h]

theorem number_of_operand {m n : Nat} (h : s!" {m}" = s!" {n}") : m = n := by
  simpa using h

theorem name_of_operand {name name' : String} (h : " " ++ name = " " ++ name') : name = name' :=
  (String.append_right_inj _).mp h

theorem call_of_operands {name name' : String} {arity arity' : Nat}
    (h : (call name arity).operands = (call name' arity').operands) :
    name = name' ∧ arity = arity' := by
  simp only [operands, String.append_assoc, String.append_right_inj] at h
  rw [← String.toList_inj] at h
  simp only [String.toList_append] at h
  obtain ⟨hname, harity⟩ := quoted_append_inj h
  simp at harity
  refine ⟨hname, ?_⟩
  rw [← natOfDigits_toDigits arity, harity, natOfDigits_toDigits]

/-- An instruction is known from its text. -/
theorem shown_injective : Function.Injective shown := by
  intro i j h
  obtain ⟨hopcode, hoperands⟩ := parts_of_shown h
  have hbare := bare_eq_of_opcode hopcode
  -- with different opcodes they differ without their operands
  cases i <;> cases j <;> simp only [bare, reduceCtorEq] at hbare
  case loadConst.loadConst k l => rw [number_of_operand hoperands]
  case loadVar.loadVar name name' => rw [name_of_operand hoperands]
  case storeVar.storeVar name name' => rw [name_of_operand hoperands]
  case call.call name arity name' arity' =>
    obtain ⟨rfl, rfl⟩ := call_of_operands hoperands
    rfl
  case jump.jump target target' => rw [number_of_operand hoperands]
  case jumpIfFalse.jumpIfFalse target target' => rw [number_of_operand hoperands]
  case binary.binary op op' => exact hbare
  case unary.unary op op' => exact hbare
  case ret.ret => rfl
  case print.print => rfl

end Instruction

/-! ### Sections -/

namespace Listing

/-- Lines that each tell what they are made of, whatever the index in front of it. -/
theorem mapIdx_injective {α β : Type} {f : Nat → α → β} (h : ∀ i, Function.Injective (f i)) :
    Function.Injective (List.mapIdx f) := by
  intro xs ys hlines
  apply List.ext_getElem?
  intro i
  have hi := congrArg (·[i]?) hlines
  simp only [List.getElem?_mapIdx] at hi
  exact Option.map_injective (h i) hi

theorem codeLines_injective (margin : String) : Function.Injective (codeLines margin) :=
  mapIdx_injective fun _ _ _ hline =>
    Instruction.shown_injective ((String.append_right_inj _).mp hline)

theorem constantLines_eq (pool : ConstantPool) :
    constantLines pool = (pool.map Constant.shown).mapIdx fun i text => s!"  {i}: " ++ text := by
  apply List.ext_getElem?
  intro i
  rw [constantLines, List.getElem?_mapIdx, List.getElem?_mapIdx, List.getElem?_map, Option.map_map]
  rfl

/-- Pools have the same lines if their constants have the same texts. -/
theorem constantLines_eq_iff {pool pool' : ConstantPool} :
    constantLines pool = constantLines pool' ↔ List.Forall₂ Constant.SameText pool pool' := by
  have hline : Function.Injective (List.mapIdx fun i text => s!"  {i}: " ++ text) :=
    mapIdx_injective fun i => fun _ _ => (String.append_right_inj _).mp
  rw [constantLines_eq, constantLines_eq, hline.eq_iff, ← List.forall₂_eq_eq_eq,
    List.forall₂_map_left_iff, List.forall₂_map_right_iff]
  simp only [Constant.shown_eq_iff]

/-- A line that begins with a space is not empty. -/
theorem not_mem_codeLines {margin : String} (hmargin : margin ≠ "") (code : List Instruction) :
    "" ∉ codeLines margin code := by
  intro h
  obtain ⟨i, hi, hline⟩ := List.mem_mapIdx.mp h
  simp [hmargin] at hline

theorem not_mem_constantLines (pool : ConstantPool) : "" ∉ constantLines pool := by
  intro h
  obtain ⟨i, hi, hline⟩ := List.mem_mapIdx.mp h
  simp at hline

/-- A part ends at the first empty line. -/
theorem part_inj {part part' : List String} (hpart : "" ∉ part) (hpart' : "" ∉ part')
    {rest rest' : List String} (h : part ++ "" :: rest = part' ++ "" :: rest') :
    part = part' ∧ rest = rest' := by
  obtain ⟨more, rfl, hmore⟩ | ⟨more, rfl, hmore⟩ := List.append_eq_append_iff.mp h
  · cases more with
    | nil => simpa using hmore
    | cons line more =>
      injection hmore with hline
      subst hline
      exact absurd (List.mem_append_right _ List.mem_cons_self) hpart'
  · cases more with
    | nil => simpa [eq_comm] using hmore
    | cons line more =>
      injection hmore with hline
      subst hline
      exact absurd (List.mem_append_right _ List.mem_cons_self) hpart

/-- The functions, name by name and line by line. -/
theorem flatMap_functionLines_inj (fs : List (String × List Instruction)) :
    ∀ {gs : List (String × List Instruction)},
      (fs.flatMap fun f => functionLines f.1 f.2) = (gs.flatMap fun g => functionLines g.1 g.2) →
        fs = gs := by
  induction fs with
  | nil =>
    intro gs h
    cases gs with
    | nil => rfl
    | cons g gs => simp [functionLines] at h
  | cons f fs ih =>
    intro gs h
    cases gs with
    | nil => simp [functionLines] at h
    | cons g gs =>
      simp only [List.flatMap_cons, functionLines, List.cons_append, List.append_assoc,
        List.nil_append] at h
      injection h with hname h
      obtain ⟨hcode, hrest⟩ :=
        part_inj (not_mem_codeLines (by decide) f.2) (not_mem_codeLines (by decide) g.2) h
      rw [String.append_left_inj, String.append_right_inj] at hname
      have hf : f = g := Prod.ext hname (codeLines_injective _ hcode)
      rw [hf, ih hrest]

theorem functionSection_inj {fs gs : List (String × List Instruction)}
    (h : functionSection fs = functionSection gs) : fs = gs := by
  cases fs with
  | nil =>
    cases gs with
    | nil => rfl
    | cons g gs => cases h
  | cons f fs =>
    cases gs with
    | nil => cases h
    | cons g gs =>
      injection h with _ h
      exact flatMap_functionLines_inj _ h

/-- The lines behind the title of a listing. -/
def body (constants : ConstantPool) (code : List Instruction)
    (functions : List (String × List Instruction)) : List String :=
  constantLines constants ++ "" :: "CODE:" :: (codeLines "  " code ++ "" :: functionSection functions)

/-- Sections are known from the lines. -/
theorem body_inj {constants constants' : ConstantPool} {code code' : List Instruction}
    {functions functions' : List (String × List Instruction)}
    (h : body constants code functions = body constants' code' functions') :
    List.Forall₂ Constant.SameText constants constants' ∧ code = code' ∧ functions = functions' := by
  obtain ⟨hconstants, h⟩ := part_inj (not_mem_constantLines _) (not_mem_constantLines _) h
  injection h with _ h
  obtain ⟨hcode, hfunctions⟩ :=
    part_inj (not_mem_codeLines (by decide) _) (not_mem_codeLines (by decide) _) h
  exact ⟨constantLines_eq_iff.mp hconstants, codeLines_injective _ hcode,
    functionSection_inj hfunctions⟩

theorem oneLine_codeLines {margin : String} (hmargin : OneLine margin) {code : List Instruction}
    (h : ∀ i ∈ code, OneLine i.shown) : ∀ line ∈ codeLines margin code, OneLine line := by
  intro line hline
  obtain ⟨i, hi, rfl⟩ := List.mem_mapIdx.mp hline
  have hpad : OneLine (padLeft 4 (toString i)) := by
    rw [padLeft, oneLine_append]
    refine ⟨?_, oneLine_toString i⟩
    rw [OneLine, String.toList_ofList, List.mem_replicate]
    simp
  simp only [oneLine_append]
  exact ⟨⟨⟨hmargin, hpad⟩, by simp [OneLine]⟩, h _ (List.getElem_mem hi)⟩

theorem oneLine_constantLines (pool : ConstantPool) :
    ∀ line ∈ constantLines pool, OneLine line := by
  intro line hline
  obtain ⟨i, hi, rfl⟩ := List.mem_mapIdx.mp hline
  simp only [oneLine_append]
  exact ⟨⟨⟨by simp [OneLine, toString], oneLine_toString i⟩, by simp [OneLine, toString]⟩,
    Constant.oneLine_shown _⟩

theorem oneLine_functionSection {functions : List (String × List Instruction)}
    (h : ∀ f ∈ functions, OneLine f.1 ∧ ∀ i ∈ f.2, OneLine i.shown) :
    ∀ line ∈ functionSection functions, OneLine line := by
  unfold functionSection
  split
  · exact List.forall_mem_nil _
  · refine List.forall_mem_cons.mpr ⟨by simp [OneLine], ?_⟩
    intro line hline
    obtain ⟨f, hf, hline⟩ := List.mem_flatMap.mp hline
    obtain ⟨hname, hcode⟩ := h f hf
    rw [functionLines, List.cons_append, List.mem_cons, List.mem_append, List.mem_singleton] at hline
    obtain rfl | hline | rfl := hline
    · simp only [oneLine_append]
      exact ⟨⟨by simp [OneLine], hname⟩, by simp [OneLine]⟩
    · exact oneLine_codeLines (by simp [OneLine]) hcode line hline
    · simp [OneLine]

end Listing

/-! ### Units -/

namespace BytecodeUnit

/-- The names that a listing shows as they are stay on their lines: those of functions, and those in
instructions. -/
structure NamesOnLines (u : BytecodeUnit) : Prop where
  code : ∀ i ∈ u.code, OneLine i.shown
  functions : ∀ f ∈ u.functions.entries, OneLine f.1 ∧ ∀ i ∈ f.2.code, OneLine i.shown

/-- What the listings of two units tell about them is the same: the code, the functions in order, and
the constants, as far as the text of a number tells. -/
structure SameListing (u v : BytecodeUnit) : Prop where
  code : u.code = v.code
  functions : (u.functions.entries.map fun f => (f.1, f.2.code))
    = v.functions.entries.map fun f => (f.1, f.2.code)
  constants : List.Forall₂ Constant.SameText u.constants v.constants

/-- The lines of a listing. -/
def lines (u : BytecodeUnit) : List String :=
  "# Codex Object Code" :: "" :: "CONSTANTS:" ::
    Listing.body u.constants u.code (u.functions.entries.map fun f => (f.1, f.2.code))

theorem listing_eq (u : BytecodeUnit) : u.listing = "\n".intercalate u.lines := by
  rw [listing, Listing.render, lines, Listing.body]
  simp

theorem NamesOnLines.oneLine {u : BytecodeUnit} (h : u.NamesOnLines) :
    ∀ line ∈ u.lines, OneLine line := by
  have hfunctions : ∀ f ∈ u.functions.entries.map fun f => (f.1, f.2.code),
      OneLine f.1 ∧ ∀ i ∈ f.2, OneLine i.shown :=
    List.forall_mem_map.mpr h.functions
  simp only [lines, Listing.body, List.forall_mem_cons, List.forall_mem_append]
  refine ⟨by simp [OneLine], by simp [OneLine], by simp [OneLine],
    Listing.oneLine_constantLines _, by simp [OneLine], by simp [OneLine], ?_⟩
  exact ⟨Listing.oneLine_codeLines (by simp [OneLine]) h.code, by simp [OneLine],
    Listing.oneLine_functionSection hfunctions⟩

/-- Units have one listing if and only if it tells the same about them. -/
theorem listing_eq_iff {u v : BytecodeUnit} (hu : u.NamesOnLines) (hv : v.NamesOnLines) :
    u.listing = v.listing ↔ u.SameListing v := by
  rw [listing_eq, listing_eq]
  constructor
  · intro h
    have hlines := lines_inj hu.oneLine hv.oneLine (List.cons_ne_nil _ _) (List.cons_ne_nil _ _) h
    injection hlines with _ hlines
    injection hlines with _ hlines
    injection hlines with _ hbody
    obtain ⟨hconstants, hcode, hfunctions⟩ := Listing.body_inj hbody
    exact ⟨hcode, hfunctions, hconstants⟩
  · intro h
    rw [lines, lines, Listing.body, Listing.body, h.code, h.functions,
      Listing.constantLines_eq_iff.mpr h.constants]

end BytecodeUnit

end StackScript
