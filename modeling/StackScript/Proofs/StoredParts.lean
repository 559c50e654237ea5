import Mathlib
import StackScript.Proofs.StoredNotation

/-!
The parts of stored data read back.

What a reader takes is a matter of the text of one part, whatever text follows. Words and numerals go on
as far as they can, and so they are followed by a comma or a closing mark.

* `Stops`, `Solid`: texts behind a part and texts that begin without space;
* `word_of_isWord`: words;
* `textBody_spells`, `text_spelled`: a text is read whichever way its characters are spelled;
* `natural_toString`, `float_of_plain`: numerals.
-/

namespace StackScript

namespace UnitText

/-! ### One reader after another -/

section Steps

variable {α β : Type}

theorem bind_of_eq {reader : Reader α} {f : α → Reader β} {cs rest : List Char} {a : α}
    (h : reader cs = some (a, rest)) : (reader >>= f) cs = f a rest := by
  change (reader cs).bind (fun r => f r.1 r.2) = _
  rw [h]
  rfl

theorem map_of_eq {reader : Reader α} (f : α → β) {cs rest : List Char} {a : α}
    (h : reader cs = some (a, rest)) : (f <$> reader) cs = some (f a, rest) := by
  change (reader cs).bind (fun r => some (f r.1, r.2)) = _
  rw [h]
  rfl

theorem discard_of_eq {reader : Reader α} {cs rest : List Char} {a : α}
    (h : reader cs = some (a, rest)) : (discard reader : Reader Unit) cs = some ((), rest) := by
  change (reader cs).bind (fun r => some ((), r.2)) = _
  rw [h]
  rfl

end Steps

/-! ### Space and marks -/

/-- A text has ended, or it goes on with a comma or a closing mark. -/
def Stops (rest : List Char) : Prop :=
  ∀ c ∈ rest.head?, c = ',' ∨ c = ')' ∨ c = ']'

theorem stops_nil : Stops [] := by
  rintro c ⟨⟩

theorem stops_comma (cs : List Char) : Stops (',' :: cs) := by
  rintro c ⟨⟩
  exact .inl rfl

theorem stops_close {close : Char} (h : close = ')' ∨ close = ']') (cs : List Char) :
    Stops (close :: cs) := by
  rintro c ⟨⟩
  exact .inr h

theorem Stops.breaks {rest : List Char} (h : Stops rest) {p : Char → Bool} (hcomma : p ',' = false)
    (hparenthesis : p ')' = false) (hbracket : p ']' = false) : Breaks p rest := by
  intro c hc
  obtain rfl | rfl | rfl := h c hc
  · exact hcomma
  · exact hparenthesis
  · exact hbracket

/-- A text begins with what is neither space nor the beginning of a comment. -/
def Solid (cs : List Char) : Prop :=
  ∃ c rest, cs = c :: rest ∧ isSpace c = false ∧ c ≠ '/'

theorem Solid.cons {c : Char} (rest : List Char) (hspace : isSpace c = false) (hslash : c ≠ '/') :
    Solid (c :: rest) :=
  ⟨_, _, rfl, hspace, hslash⟩

theorem Solid.append {cs : List Char} (h : Solid cs) (rest : List Char) : Solid (cs ++ rest) := by
  obtain ⟨c, cs, rfl, hspace, hslash⟩ := h
  exact .cons _ hspace hslash

theorem space_of_solid {cs rest : List Char} (h : Solid rest) (hcs : cs.dropWhile isSpace = rest) :
    space cs = some ((), rest) := by
  obtain ⟨c, rest, rfl, -, hslash⟩ := h
  rw [space, skipSpaceFrom.eq_def]
  simp only [hcs]
  split
  · next heq => cases heq; exact absurd rfl hslash
  · next heq => cases heq; exact absurd rfl hslash
  · next heq => cases heq; exact absurd rfl hslash
  · rfl

theorem Solid.dropWhile {cs : List Char} (h : Solid cs) : cs.dropWhile isSpace = cs := by
  obtain ⟨c, rest, rfl, hspace, -⟩ := h
  rw [List.dropWhile_cons_of_neg (by simp [hspace])]

theorem Solid.space {cs : List Char} (h : Solid cs) : space cs = some ((), cs) :=
  space_of_solid h h.dropWhile

theorem Blank.dropWhile {blank cs : List Char} (h : Blank blank) (hcs : Solid cs) :
    (blank ++ cs).dropWhile isSpace = cs := by
  rw [List.dropWhile_append_of_pos h, hcs.dropWhile]

theorem Blank.space {blank cs : List Char} (h : Blank blank) (hcs : Solid cs) :
    space (blank ++ cs) = some ((), cs) :=
  space_of_solid hcs (h.dropWhile hcs)

theorem mark_cons (c : Char) (rest : List Char) : mark c (c :: rest) = some ((), rest) :=
  if_pos rfl

theorem mark?_cons (c : Char) (rest : List Char) : mark? c (c :: rest) = some (true, rest) :=
  if_pos rfl

theorem mark?_of_ne {c d : Char} (h : c ≠ d) (rest : List Char) :
    mark? c (d :: rest) = some (false, d :: rest) :=
  if_neg h

theorem comma?_comma {cs rest : List Char} (h : Solid rest) (hcs : cs.dropWhile isSpace = rest) :
    comma? (',' :: cs) = some (true, rest) := by
  rw [comma?, bind_of_eq (Solid.cons cs rfl (by decide)).space, bind_of_eq (mark?_cons _ _),
    bind_of_eq (space_of_solid h hcs)]
  rfl

theorem comma?_of_ne {c : Char} (rest : List Char) (h : Solid (c :: rest)) (hcomma : c ≠ ',') :
    comma? (c :: rest) = some (false, c :: rest) := by
  rw [comma?, bind_of_eq h.space, bind_of_eq (mark?_of_ne (Ne.symm hcomma) rest), bind_of_eq h.space]
  rfl

/-! ### Words -/

theorem breaks_of_raw {rest : List Char} (h : Breaks continuesRawWord rest) :
    Breaks continuesWord rest := by
  intro c hc
  have := h c hc
  simp only [continuesRawWord, Bool.or_eq_false_iff] at this
  exact this.1.1.1

theorem word_of_isWord {name : String} (h : isWord name = true) {rest : List Char}
    (hrest : Breaks continuesRawWord rest) : word (name.toList ++ rest) = some (name, rest) := by
  rw [isWord] at h
  split at h
  · next c d cs hname =>
    rw [Bool.and_eq_true, Bool.and_eq_true, List.all_eq_true] at h
    obtain ⟨⟨hopens, hd⟩, hcs⟩ := h
    have htext : ∀ e ∈ d :: cs, continuesWord e = true := List.forall_mem_cons.mpr ⟨hd, hcs⟩
    have htake := takeWhile_of_breaks htext (breaks_of_raw hrest)
    have hdrop := dropWhile_of_breaks htext (breaks_of_raw hrest)
    have hend : rest.head?.any continuesRawWord = false := by
      cases rest with
      | nil => rfl
      | cons e rest => exact hrest e rfl
    rw [hname, List.cons_append, word.eq_def]
    split
    · next heq => cases heq
    · next heq => cases heq; cases hd
    · next heq => cases heq; cases hd
    · next heq =>
      cases heq
      simp only [htake, hdrop, hend, hopens]
      rw [← hname]
      simp
  · cases h

/-! ### Texts -/

theorem ne_close_of_hexValue? {d : Char} {v : Nat} (h : hexValue? d = some v) : d ≠ '\x7d' := by
  rintro rfl
  cases h

/-- Digits are taken up to the closing mark. -/
theorem hexBefore_digits {digits : List Char} {values : List Nat}
    (h : List.Forall₂ (fun d v => hexValue? d = some v) digits values) {most : Nat}
    (hmost : digits.length ≤ most) (value : Nat) (cs : List Char) :
    hexBefore '\x7d' most value (digits ++ '\x7d' :: cs)
      = some (values.foldl (fun n v => 16 * n + v) value, '\x7d' :: cs) := by
  induction h generalizing most value with
  | nil =>
    cases most with
    | zero => rfl
    | succ most => rw [List.nil_append, hexBefore, if_pos rfl]; rfl
  | @cons d v digits values hd hmore ih =>
    obtain ⟨most, rfl⟩ : ∃ k, most = k + 1 := Nat.exists_eq_add_of_le' (Nat.one_le_of_lt hmost)
    rw [List.cons_append, hexBefore, if_neg (ne_close_of_hexValue? hd), hd, Option.bind_some,
      ih (Nat.le_of_succ_le_succ hmost), List.foldl_cons]

theorem charOfNat?_toNat (c : Char) : charOfNat? c.toNat = some c := by
  rw [charOfNat?, if_pos (show c.toNat.isValidChar from c.valid), Char.ofNat_toNat]

theorem escape_codePoint {digits : List Char} {values : List Nat} {c : Char} (hne : digits ≠ [])
    (hlength : digits.length ≤ 6)
    (hdigits : List.Forall₂ (fun d v => hexValue? d = some v) digits values)
    (hc : values.foldl (fun n v => 16 * n + v) 0 = c.toNat) (rest : List Char) :
    escape ('u' :: '\x7b' :: (digits ++ '\x7d' :: rest)) = some (c, rest) := by
  have hread := hexBefore_digits hdigits hlength 0 rest
  rw [hc] at hread
  -- the braces are not empty, which would be no escape
  cases hdigits with
  | nil => exact absurd rfl hne
  | cons hd hmore =>
    rw [List.cons_append] at hread ⊢
    rw [escape, hread]
    · simp [charOfNat?_toNat]
    · rintro tail ⟨⟩
      exact ne_close_of_hexValue? hd rfl

theorem textBody_backslash {bound : Nat} {cs rest : List Char} {c : Char}
    (h : escape cs = some (c, rest)) :
    textBody (bound + 1) ('\\' :: cs) = (textBody bound rest).map fun r => (c :: r.1, r.2) := by
  rw [textBody, if_neg (by decide), if_pos rfl, h]
  rfl

theorem textBody_plain {bound : Nat} {c : Char} (hmark : c ≠ '"') (hescape : c ≠ '\\')
    (cs : List Char) :
    textBody (bound + 1) (c :: cs) = (textBody bound cs).map fun r => (c :: r.1, r.2) := by
  rw [textBody, if_neg hmark, if_neg hescape]

theorem escape_short {e c : Char} (h : (e, c) ∈ shortEscapes) (cs : List Char) :
    escape (e :: cs) = some (c, cs) := by
  simp only [shortEscapes, List.mem_cons, Prod.mk.injEq, List.not_mem_nil, or_false] at h
  obtain ⟨rfl, rfl⟩ | ⟨rfl, rfl⟩ | ⟨rfl, rfl⟩ | ⟨rfl, rfl⟩ | ⟨rfl, rfl⟩ | ⟨rfl, rfl⟩ | ⟨rfl, rfl⟩ := h
  all_goals rfl

/-- A character is read whichever way it is spelled, whatever follows it. -/
theorem textBody_spells {piece : List Char} {c : Char} (h : Spells piece c) (bound : Nat)
    (cs : List Char) :
    textBody (bound + 1) (piece ++ cs) = (textBody bound cs).map fun r => (c :: r.1, r.2) := by
  cases h with
  | plain hmark hescape => exact textBody_plain hmark hescape cs
  | short h => exact textBody_backslash (escape_short h cs)
  | codePoint hne hlength hdigits hc =>
    have h := escape_codePoint hne hlength hdigits hc cs
    simpa using @textBody_backslash bound _ _ _ h

theorem textBody_spelled {cs ds : List Char} (h : Spelled Spells cs ds) {bound : Nat}
    (hbound : ds.length < bound) (rest : List Char) :
    textBody bound (cs ++ '"' :: rest) = some (ds, rest) := by
  induction h generalizing bound with
  | nil =>
    obtain ⟨bound, rfl⟩ := Nat.exists_eq_add_of_lt hbound
    rfl
  | @cons piece cs ds c h hrest ih =>
    obtain ⟨bound, rfl⟩ : ∃ k, bound = k + 1 := ⟨bound - 1, by omega⟩
    rw [List.append_assoc, textBody_spells h, ih (Nat.lt_of_succ_lt_succ hbound)]
    rfl

theorem Spells.ne_nil {piece : List Char} {c : Char} (h : Spells piece c) : piece ≠ [] := by
  cases h <;> exact List.cons_ne_nil _ _

theorem text_spelled {cs : List Char} {s : String} (h : Spelled Spells cs s.toList) (rest : List Char) :
    text ('"' :: (cs ++ '"' :: rest)) = some (s, rest) := by
  have hbound : s.toList.length < (cs ++ '"' :: rest).length + 1 := by
    have := h.length_le Spells.ne_nil
    rw [List.length_append]
    omega
  rw [text, textBody_spelled h hbound, Option.map_some]
  simp only [String.ofList_toList]

/-! ### Numerals -/

theorem hexValue?_of_isDigit {c : Char} (h : c.isDigit = true) :
    hexValue? c = some (c.toNat - '0'.toNat) :=
  if_pos h

theorem digitsOf_allDigits {ds : List Char} (h : AllDigits ds) :
    digitsOf 10 ds = some (ds.map fun d => d.toNat - '0'.toNat) := by
  induction ds with
  | nil => rfl
  | cons d ds ih =>
    have hd := h d List.mem_cons_self
    have hlt : d.toNat - '0'.toNat < 10 := by
      have := toNat_of_isDigit hd
      have hzero : '0'.toNat = 48 := rfl
      omega
    have hds := ih fun c hc => h c (List.mem_cons_of_mem d hc)
    rw [digitsOf] at hds ⊢
    rw [List.mapM_cons, hds, hexValue?_of_isDigit hd, Option.bind_some, if_pos hlt]
    rfl

theorem natInBase?_digits {ds : List Char} (h : AllDigits ds) (hne : ds ≠ []) :
    natInBase? 10 ds = some (natOfDigits ds) := by
  obtain ⟨d, cs, rfl⟩ := List.exists_cons_of_ne_nil hne
  have hunderscore : ∀ c ∈ d :: cs, c ≠ '_' := by
    rintro c hc rfl
    cases h '_' hc
  have hfilter : (d :: cs).filter (· != '_') = d :: cs := by
    rw [List.filter_eq_self]
    intro c hc
    simpa using hunderscore c hc
  have hd := hunderscore d List.mem_cons_self
  rw [natInBase?, hfilter, digitsOf_allDigits h, natOfDigits, if_neg (by simpa using hd),
    Option.map_some, List.foldl_map]

theorem baseOf_digits {ds rest : List Char} (h : AllDigits ds) (hne : ds ≠ []) (hrest : Stops rest) :
    baseOf (ds ++ rest) = (10, ds ++ rest) := by
  obtain ⟨d, cs, rfl⟩ := List.exists_cons_of_ne_nil hne
  have hsecond : ∀ c ∈ (cs ++ rest).head?, c.isDigit = true ∨ c = ',' ∨ c = ')' ∨ c = ']' := by
    intro c hc
    cases cs with
    | nil => exact .inr (hrest c hc)
    | cons e cs =>
      cases hc
      exact .inl (h _ (by simp))
  -- a mark for another base has a letter behind the zero
  have hne : ∀ c cs', c.isDigit = false → c ∉ [',', ')', ']'] → cs ++ rest ≠ c :: cs' := by
    intro c cs' hdigit hmark heq
    rw [heq] at hsecond
    obtain hd | hc := hsecond c rfl
    · rw [hdigit] at hd
      cases hd
    · exact hmark (by simpa using hc)
  rw [baseOf.eq_def]
  split
  · next heq =>
    injection heq with _ heq
    exact absurd heq (hne _ _ rfl (by decide))
  · next heq =>
    injection heq with _ heq
    exact absurd heq (hne _ _ rfl (by decide))
  · next heq =>
    injection heq with _ heq
    exact absurd heq (hne _ _ rfl (by decide))
  · rfl

theorem isNaturalChar_of_isDigit {c : Char} (h : c.isDigit = true) : isNaturalChar c = true := by
  rw [isNaturalChar, hexValue?_of_isDigit h]
  rfl

theorem natural_toString {n : Nat} (hn : n < 2 ^ 64) {rest : List Char} (hrest : Stops rest) :
    natural ((toString n).toList ++ rest) = some (n, rest) := by
  have hdigits := allDigits_toDigits n
  have hbreaks : Breaks isNaturalChar rest := hrest.breaks rfl rfl rfl
  have hnatural : ∀ c ∈ Nat.toDigits 10 n, isNaturalChar c = true :=
    fun c hc => isNaturalChar_of_isDigit (hdigits c hc)
  rw [Nat.toString_eq_ofList_toDigits, String.toList_ofList, natural, naturalBelow,
    baseOf_digits hdigits Nat.toDigits_ne_nil hrest]
  simp only
  rw [takeWhile_of_breaks hnatural hbreaks, dropWhile_of_breaks hnatural hbreaks,
    natInBase?_digits hdigits Nat.toDigits_ne_nil, natOfDigits_toDigits, Option.bind_some]
  exact if_pos hn

/-! ### Floating-point numbers -/

theorem keyword?_self (name : String) {rest : List Char} (hrest : Breaks continuesWord rest) :
    keyword? name (name.toList ++ rest) = some (true, rest) := by
  have hend : rest.head?.any continuesWord = false := by
    cases rest with
    | nil => rfl
    | cons e rest => exact hrest e rfl
  simp [keyword?, ← String.length_toList, hend]

theorem keyword?_of_ne {name : String} {cs : List Char} (h : ¬ name.toList <+: cs) :
    keyword? name cs = some (false, cs) := by
  have hne : cs.take name.length ≠ name.toList := by
    intro heq
    exact h (heq ▸ List.take_prefix _ _)
  simp [keyword?, hne]

theorem anyKeyword?_skip {name : String} {names : List String} {cs : List Char}
    (h : ¬ name.toList <+: cs) : anyKeyword? (name :: names) cs = anyKeyword? names cs := by
  rw [anyKeyword?, bind_of_eq (keyword?_of_ne h)]
  rfl

theorem anyKeyword?_self (name : String) (names : List String) {rest : List Char}
    (hrest : Breaks continuesWord rest) :
    anyKeyword? (name :: names) (name.toList ++ rest) = some (some name, rest) := by
  rw [anyKeyword?, bind_of_eq (keyword?_self name hrest)]
  rfl

theorem anyKeyword?_none {names : List String} {cs : List Char}
    (h : ∀ name ∈ names, ¬ name.toList <+: cs) : anyKeyword? names cs = some (none, cs) := by
  induction names with
  | nil => rfl
  | cons name names ih =>
    rw [List.forall_mem_cons] at h
    rw [anyKeyword?_skip h.1, ih h.2]

theorem float_of_keyword {name : String} {x : Float} {cs rest : List Char}
    (hname : anyKeyword? numberWords cs = some (some name, rest)) (hx : readNumber? name = some x) :
    float cs = some (x, rest) := by
  rw [float, bind_of_eq hname]
  simp only [hx]
  rfl

theorem float_of_digits {text : List Char} {x : Float} {rest : List Char}
    (hwords : ∀ name ∈ numberWords, ¬ name.toList <+: text ++ rest)
    (htext : ∀ c ∈ text, isFloatChar c = true) (hrest : Breaks isFloatChar rest)
    (hx : readNumber? (String.ofList text) = some x) : float (text ++ rest) = some (x, rest) := by
  rw [float, bind_of_eq (anyKeyword?_none hwords)]
  change (readNumber? (String.ofList ((text ++ rest).takeWhile isFloatChar))).bind
    (fun a => some (a, (text ++ rest).dropWhile isFloatChar)) = _
  rw [takeWhile_of_breaks htext hrest, dropWhile_of_breaks htext hrest, hx]
  rfl

theorem isFloatChar_of_isDigit {c : Char} (h : c.isDigit = true) : isFloatChar c = true := by
  simp [isFloatChar, h]

/-- No word for a number begins with a digit, or with one behind a sign. -/
theorem not_prefix_of_isDigit {d : Char} (h : d.isDigit = true) (cs : List Char) :
    ∀ name ∈ numberWords, ¬ name.toList <+: d :: cs ∧ ¬ name.toList <+: '-' :: d :: cs := by
  simp only [numberWords, List.mem_cons, List.not_mem_nil, or_false]
  rintro name (rfl | rfl | rfl | rfl | rfl | rfl) <;>
  · constructor <;>
    · rintro ⟨t, ht⟩
      cases ht <;> cases h

theorem float_of_plain {text : List Char} {x : Float} (h : PlainNumeral text)
    (hx : readNumber? (String.ofList text) = some x) {rest : List Char} (hrest : Stops rest) :
    float (text ++ rest) = some (x, rest) := by
  have hword : Breaks continuesWord rest := hrest.breaks rfl rfl rfl
  cases h with
  | infinite negative =>
    rw [String.ofList_toList] at hx
    refine float_of_keyword ?_ hx
    cases negative with
    | false => exact anyKeyword?_self "inf" _ hword
    | true =>
      rw [numberWords, anyKeyword?_skip, anyKeyword?_skip]
      · exact anyKeyword?_self "-inf" _ hword
      · rintro ⟨t, ht⟩
        cases ht
      · rintro ⟨t, ht⟩
        cases ht
  | @digits negative whole fraction h =>
    refine float_of_digits ?_ ?_ (hrest.breaks rfl rfl rfl) hx
    · obtain ⟨d, ds, rfl⟩ := List.exists_cons_of_ne_nil h.nonempty
      have hwords := not_prefix_of_isDigit (h.whole d List.mem_cons_self)
        (ds ++ '.' :: fraction ++ rest)
      cases negative with
      | false => exact fun name hname => (hwords name hname).1
      | true => exact fun name hname => (hwords name hname).2
    · rw [List.forall_mem_append, List.forall_mem_append, List.forall_mem_cons]
      refine ⟨?_, fun c hc => isFloatChar_of_isDigit (h.whole c hc), rfl,
        fun c hc => isFloatChar_of_isDigit (h.fraction c hc)⟩
      cases negative with
      | false => exact fun _ hc => absurd hc List.not_mem_nil
      | true => exact List.forall_mem_singleton.mpr rfl

end UnitText

end StackScript
