import Mathlib
import StackScript.Decimal.Numeral
import StackScript.Proofs.ShortestDecimal
import StackScript.Proofs.SourcePieces
import StackScript.UnitText.Numeral

/-!
Stored numbers read back.

A number is stored with all of its digits before or after a point. What is read is a decimal of the same
value, and so the same number.

* `Binary64.ofBits_finite`, `Binary64.ofBits_infinite`, `eq_floatNaN`: the patterns of a datum;
* `exists_positionalText`: the digits and the point of a decimal, with the value that they have;
* `numberForm_write`: the forms of the text of a number;
* `NumberForm.readNumber?`: the text of a number stands for the number.
-/

namespace StackScript

open UnitText

/-! ### Patterns -/

namespace Binary64

variable {bits : Nat} {negative : Bool}

/-- What the sign adds to a pattern. -/
theorem sign_pattern (hbits : bits < 2 ^ 64) (h : decide (bits / 2 ^ 63 % 2 = 1) = negative) :
    (if negative then signBit else 0) = bits / 2 ^ 63 * 2 ^ 63 := by
  have hsign : signBit = 2 ^ 63 := rfl
  subst h
  rw [hsign]
  split_ifs with hone
  · have := of_decide_eq_true hone
    omega
  · have := of_decide_eq_false (Bool.eq_false_of_not_eq_true hone)
    omega

theorem ofBits_finite {m : Nat} {q : Int} (hbits : bits < 2 ^ 64)
    (h : ofBits bits = .finite negative m q) :
    Canonical m q ∧ (if negative then signBit else 0) + patternOf m q = bits := by
  simp only [ofBits, Nat.pow_eq] at h
  split_ifs at h with hfield hfraction hzero
  · injection h with hnegative hm hq
    subst hm hq
    refine ⟨⟨by omega, le_rfl, by omega, .inl rfl⟩, ?_⟩
    rw [sign_pattern hbits hnegative, patternOf, neg_add_cancel, Int.toNat_zero, Nat.zero_mul]
    omega
  · injection h with hnegative hm hq
    subst hm hq
    refine ⟨⟨by omega, by omega, by omega, .inr (Nat.le_add_right _ _)⟩, ?_⟩
    rw [sign_pattern hbits hnegative, patternOf]
    omega

theorem ofBits_infinite (hbits : bits < 2 ^ 64) (h : ofBits bits = .infinite negative) :
    (if negative then signBit else 0) + infinityBits = bits := by
  simp only [ofBits, Nat.pow_eq] at h
  split_ifs at h with hfield hfraction
  injection h with hnegative
  have hinfinity : infinityBits = 2047 * 2 ^ 52 := rfl
  rw [sign_pattern hbits hnegative, hinfinity]
  omega

end Binary64

/-- There is one datum that is not a number. -/
theorem eq_floatNaN {x : Float} (h : Binary64.ofFloat x = .nan) : x = floatNaN := by
  rw [Binary64.ofFloat] at h
  simp only [Binary64.ofBits, Nat.pow_eq] at h
  split_ifs at h with hfield hfraction
  -- the patterns with this exponent are all the same one, as the others are not valid
  have hbits : x.toBits.toBitVec = Float.Model.UnpackedFloat.packedNaN .binary64 := by
    refine x.toModel.valid.eq_packedNaN ?_ ?_
    · apply BitVec.eq_of_toNat_eq
      change x.toBits.toNat >>> 52 % 2 ^ 11 = 2047
      rw [Nat.shiftRight_eq_div_pow]
      exact hfield
    · intro hzero
      have hzero := congrArg BitVec.toNat hzero
      change x.toBits.toNat >>> 0 % 2 ^ 52 = 0 at hzero
      exact hfraction hzero
  rw [← Float.ofBits_toBits x, floatNaN]
  congr 1
  apply UInt64.toBitVec_inj.mp
  rw [hbits]
  rfl

/-! ### Digits and a point -/

/-- All characters are digits. -/
def AllDigits (cs : List Char) : Prop :=
  ∀ c ∈ cs, c.isDigit = true

theorem AllDigits.append {cs ds : List Char} (hc : AllDigits cs) (hd : AllDigits ds) :
    AllDigits (cs ++ ds) := by
  intro c h
  obtain h | h := List.mem_append.mp h
  · exact hc c h
  · exact hd c h

theorem allDigits_zeros (n : Nat) : AllDigits (NumberStyle.zeros n) := by
  intro c h
  rw [List.eq_of_mem_replicate h]
  rfl

theorem allDigits_toDigits (n : Nat) : AllDigits (Nat.toDigits 10 n) :=
  fun _ => Nat.isDigit_of_mem_toDigits (by decide) (by decide)

theorem natOfDigits_eq (ds : List Char) : natOfDigits ds = Nat.ofDigitChars 10 ds 0 :=
  Nat.ofDigitChars_eq_foldl.symm

@[simp] theorem natOfDigits_toDigits (n : Nat) : natOfDigits (Nat.toDigits 10 n) = n := by
  rw [natOfDigits_eq, Nat.ofDigitChars_ten_toDigits]

theorem natOfDigits_zeros_append (n : Nat) (ds : List Char) :
    natOfDigits (NumberStyle.zeros n ++ ds) = natOfDigits ds := by
  rw [natOfDigits_eq, natOfDigits_eq, Nat.ofDigitChars_append, NumberStyle.zeros,
    Nat.ofDigitChars_replicate_zero, Nat.mul_zero]

theorem natOfDigits_append_zeros (n : Nat) (ds : List Char) :
    natOfDigits (ds ++ NumberStyle.zeros n) = 10 ^ n * natOfDigits ds := by
  rw [natOfDigits_eq, natOfDigits_eq, Nat.ofDigitChars_append, NumberStyle.zeros,
    Nat.ofDigitChars_replicate_zero]

/-- Digits before and after a point. -/
structure PointedDigits (whole fraction : List Char) : Prop where
  nonempty : whole ≠ []
  whole : AllDigits whole
  fraction : AllDigits fraction

/-- The text of a decimal has a point among its digits, and the same value. -/
theorem exists_positionalText (d : Decimal) :
    ∃ whole fraction, NumberStyle.positionalText d.digits (d.exponent + d.digits.length)
        = whole ++ '.' :: fraction
      ∧ PointedDigits whole fraction
      ∧ (natOfDigits (whole ++ fraction) : ℚ) * 10 ^ (0 - (fraction.length : ℤ)) = d.value := by
  have hdigits := allDigits_toDigits d.coefficient
  have hne : d.digits ≠ [] := Nat.toDigits_ne_nil
  have hnat : natOfDigits d.digits = d.coefficient := natOfDigits_toDigits _
  rw [Decimal.value, ← hnat]
  change AllDigits d.digits at hdigits
  generalize d.digits = ds at *
  rw [NumberStyle.positionalText]
  split_ifs with hsmall hwhole
  · -- all digits stand behind the point
    refine ⟨['0'], NumberStyle.zeros (-(d.exponent + ds.length)).toNat ++ ds, rfl,
      ⟨by simp, allDigits_zeros 1, (allDigits_zeros _).append hdigits⟩, ?_⟩
    rw [← List.append_assoc, show ['0'] = NumberStyle.zeros 1 from rfl, NumberStyle.zeros,
      NumberStyle.zeros, ← List.replicate_add, ← NumberStyle.zeros, natOfDigits_zeros_append]
    congr 2
    rw [List.length_append, List.length_replicate]
    omega
  · -- all digits stand before the point, with zeros up to it
    refine ⟨ds ++ NumberStyle.zeros ((d.exponent + ds.length).toNat - ds.length), ['0'], by simp,
      ⟨by simp [hne], hdigits.append (allDigits_zeros _), allDigits_zeros 1⟩, ?_⟩
    have hexponent : (d.exponent + ds.length).toNat - ds.length = d.exponent.toNat := by omega
    rw [show ['0'] = NumberStyle.zeros 1 from rfl, hexponent, natOfDigits_append_zeros,
      natOfDigits_append_zeros]
    have hpow : (10 : ℚ) ^ d.exponent = 10 ^ d.exponent.toNat := by
      rw [← zpow_natCast, Int.toNat_of_nonneg (by omega)]
    have hten : (10 : ℚ) ^ (0 - ((NumberStyle.zeros 1).length : ℤ)) = 10⁻¹ := by
      norm_num [NumberStyle.zeros]
    rw [hpow, hten]
    push_cast
    ring
  · -- the point stands among the digits
    refine ⟨ds.take (d.exponent + ds.length).toNat, ds.drop (d.exponent + ds.length).toNat, rfl,
      ⟨?_, fun c h => hdigits c (List.mem_of_mem_take h), fun c h => hdigits c (List.mem_of_mem_drop h)⟩,
      ?_⟩
    · rw [ne_eq, List.take_eq_nil_iff, not_or]
      exact ⟨by omega, hne⟩
    · rw [List.take_append_drop]
      congr 2
      rw [List.length_drop]
      omega

theorem PointedDigits.readNumeral? {whole fraction : List Char} (h : PointedDigits whole fraction) :
    readNumeral? (whole ++ '.' :: fraction) = some ⟨whole, fraction, 0⟩ := by
  have hpoint : Breaks Char.isDigit ('.' :: fraction) := by
    rintro c ⟨⟩
    rfl
  have hend : Breaks Char.isDigit [] := by
    rintro c ⟨⟩
  have hwhole := takeWhile_of_breaks h.whole hpoint
  have hrest := dropWhile_of_breaks h.whole hpoint
  have htake := takeWhile_of_breaks h.fraction hend
  have hdrop := dropWhile_of_breaks h.fraction hend
  rw [List.append_nil] at htake hdrop
  simp [StackScript.readNumeral?, hwhole, hrest, htake, hdrop, h.nonempty]

theorem toNat_of_isDigit {c : Char} (h : c.isDigit = true) : 48 ≤ c.toNat ∧ c.toNat ≤ 57 := by
  simp only [Char.isDigit, Bool.and_eq_true, decide_eq_true_eq, ge_iff_le,
    UInt32.le_iff_toNat_le] at h
  exact h

theorem toLower_of_isDigit {c : Char} (h : c.isDigit = true) : c.toLower = c := by
  have hupper : ¬ (65 ≤ c.toNat ∧ c.toNat ≤ 90) := by
    have := toNat_of_isDigit h
    omega
  rw [Char.toLower]
  split
  · next h =>
    refine absurd ?_ hupper
    simp only [ge_iff_le, UInt32.le_iff_toNat_le] at h
    exact h
  · rfl

theorem readSign_of_isDigit {d : Char} {cs : List Char} (h : d.isDigit = true) :
    readSign (d :: cs) = (false, d :: cs) := by
  rw [readSign.eq_def]
  split
  · next heq =>
    injection heq with hd
    subst hd
    cases h
  · next heq =>
    injection heq with hd
    subst hd
    cases h
  · rfl

/-! ### The texts of numbers -/

/-- The forms of the text of a number, and the number. -/
inductive NumberForm : String → Float → Prop where
  | nan : NumberForm "NaN" floatNaN
  | infinite (negative : Bool) :
    NumberForm (if negative then "-inf" else "inf") (floatInfinity negative)
  | digits (negative : Bool) {whole fraction : List Char} (h : PointedDigits whole fraction) :
    NumberForm
      (String.ofList ((if negative then ['-'] else []) ++ (whole ++ '.' :: fraction)))
      ((Numeral.mk whole fraction 0).value negative)

theorem ofBits_pattern (x : Float) {n : Nat} (h : n = x.toBits.toNat) :
    Float.ofBits (UInt64.ofNat n) = x := by
  rw [h, UInt64.ofNat_toNat, Float.ofBits_toBits]

/-- A stored number has one of the forms. -/
theorem numberForm_write (x : Float) : NumberForm (storedNumberStyle.write x) x := by
  have hbits : x.toBits.toNat < 2 ^ 64 := x.toBits.toNat_lt
  cases hx : Binary64.ofFloat x with
  | nan =>
    rw [NumberStyle.write, hx, eq_floatNaN hx]
    exact .nan
  | infinite negative =>
    have h := NumberForm.infinite negative
    rw [floatInfinity, ofBits_pattern x (Binary64.ofBits_infinite hbits hx)] at h
    rwa [NumberStyle.write, hx]
  | finite negative m q =>
    obtain ⟨hcanonical, hpattern⟩ := Binary64.ofBits_finite hbits hx
    rw [NumberStyle.write, hx, NumberStyle.writeDatum]
    obtain rfl | hm := Nat.eq_zero_or_pos m
    · -- zero has the least exponent, and its sign
      have hzero : patternOf 0 q = 0 := by
        obtain rfl := hcanonical.normal.resolve_right (by decide)
        rfl
      have h := @NumberForm.digits negative ['0'] ['0']
        ⟨by simp, allDigits_zeros 1, allDigits_zeros 1⟩
      rw [hzero] at hpattern
      have hnat : natOfDigits (['0'] ++ ['0']) = 0 := rfl
      rw [Numeral.value, floatOfDecimal, hnat, nearestDecimalBits, if_pos rfl,
        ofBits_pattern x hpattern] at h
      cases negative with
      | false => exact h
      | true => exact h
    · obtain ⟨whole, fraction, htext, hpointed, hvalue⟩ := exists_positionalText (shortest m q)
      have hwritten : storedNumberStyle.writePositive m q = whole ++ '.' :: fraction := by
        rw [NumberStyle.writePositive, if_pos (show storedNumberStyle.positional _ from rfl),
          sub_add_cancel, htext]
      have h := NumberForm.digits negative hpointed
      have hround := shortest_roundsTo hcanonical hm
      rw [← hvalue] at hround
      rw [Numeral.value, floatOfDecimal, nearestDecimalBits_of_roundsTo hcanonical hm hround,
        ofBits_pattern x hpattern] at h
      rw [if_neg hm.ne', hwritten]
      cases negative with
      | false => exact h
      | true => exact h

/-- The text of a number stands for the number. -/
theorem NumberForm.readNumber? {text : String} {x : Float} (h : NumberForm text x) :
    readNumber? text = some x := by
  cases h with
  | nan => rfl
  | infinite negative =>
    cases negative with
    | false => rfl
    | true => rfl
  | @digits negative whole fraction h =>
    obtain ⟨d, ds, rfl⟩ := List.exists_cons_of_ne_nil h.nonempty
    have hd : d.isDigit = true := h.whole d List.mem_cons_self
    have hsign : readSign ((if negative then ['-'] else []) ++ (d :: ds ++ '.' :: fraction))
        = (negative, d :: ds ++ '.' :: fraction) := by
      cases negative with
      | true => rfl
      | false => exact readSign_of_isDigit hd
    -- a text that begins with a digit is none of the words
    have hword : ∀ c cs, c ≠ d → (d :: ds ++ '.' :: fraction).map Char.toLower ≠ c :: cs := by
      intro c cs hne heq
      rw [List.cons_append, List.map_cons, toLower_of_isDigit hd] at heq
      injection heq with heq
      exact hne heq.symm
    have hi : 'i' ≠ d := by
      rintro rfl
      cases hd
    have hn : 'n' ≠ d := by
      rintro rfl
      cases hd
    have hinf : (d :: ds ++ '.' :: fraction).map Char.toLower ≠ "inf".toList :=
      hword 'i' ['n', 'f'] hi
    have hinfinity : (d :: ds ++ '.' :: fraction).map Char.toLower ≠ "infinity".toList :=
      hword 'i' ['n', 'f', 'i', 'n', 'i', 't', 'y'] hi
    have hnan : (d :: ds ++ '.' :: fraction).map Char.toLower ≠ "nan".toList :=
      hword 'n' ['a', 'n'] hn
    rw [StackScript.readNumber?, String.toList_ofList, hsign]
    simp only
    rw [if_neg (not_or.mpr ⟨hinf, hinfinity⟩), if_neg hnan, h.readNumeral?]
    rfl

end StackScript
