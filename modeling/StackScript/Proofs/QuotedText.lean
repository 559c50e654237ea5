import Mathlib
import StackScript.Text.Quoted

/-!
Quoted text is taken back from what is written.

A reader of quoted text goes on up to the first closing mark that is not escaped, and undoes the
escapes on its way. What is written for a text brings it to the end of that text, whatever is written
behind the closing mark. So quoted texts can be told apart wherever they stand, and they stay on one
line.

* `Quoted.readEscape`, `Quoted.decode`: the reader;
* `Quoted.decode_encode`: the text between the marks is read back;
* `Quoted.Escapes`, `Quoted.escapes_of_encode`: every mark in between is escaped;
* `quoted_append_inj`, `quoted_injective`: quoted texts, also in front of something else;
* `visible_of_mem_quoted`: no control character is left in quoted text;
* `quoted_reads_back`: what quoted text looks like, and how it is taken back.
-/

namespace StackScript

namespace Quoted

/-- The character that an escape between marks `q` stands for, after its backslash. -/
def readEscape (q : Char) : List Char → Option (Char × List Char)
  | 'n' :: cs => some ('\n', cs)
  | 'r' :: cs => some ('\r', cs)
  | 't' :: cs => some ('\t', cs)
  | 'x' :: a :: b :: cs =>
    match hexValue? a, hexValue? b with
    | some a, some b => some (Char.ofNat (16 * a + b), cs)
    | _, _ => none
  | c :: cs => if c = '\\' ∨ c = q then some (c, cs) else none
  | [] => none

theorem length_of_readEscape {q c : Char} {cs rest : List Char}
    (h : readEscape q cs = some (c, rest)) : rest.length < cs.length := by
  rw [readEscape.eq_def] at h
  split at h
  · cases h; exact Nat.lt_succ_self _
  · cases h; exact Nat.lt_succ_self _
  · cases h; exact Nat.lt_succ_self _
  · split at h
    · cases h
      simp only [List.length_cons]
      omega
    · cases h
  · split_ifs at h
    cases h
    exact Nat.lt_succ_self _
  · cases h

/-- Text between marks `q`, up to the mark that closes it, and what stands behind that. -/
def decode (q : Char) : List Char → Option (List Char × List Char)
  | [] => none
  | c :: cs =>
    if c = q then some ([], cs)
    else if c = '\\' then
      match _h : readEscape q cs with
      | some (d, rest) => (decode q rest).map fun r => (d :: r.1, r.2)
      | none => none
    else (decode q cs).map fun r => (c :: r.1, r.2)
termination_by cs => cs.length
decreasing_by
  · have := length_of_readEscape _h
    simp only [List.length_cons]
    omega
  · exact Nat.lt_succ_self _

/-- The marks that text is put between. -/
def IsMark (q : Char) : Prop :=
  q = '\'' ∨ q = '"'

theorem isMark_delimiter (cs : List Char) : IsMark (delimiter cs) := by
  unfold delimiter IsMark
  split_ifs <;> simp

section Reading

variable {q c : Char} {cs rest : List Char}

theorem decode_mark (q : Char) (cs : List Char) : decode q (q :: cs) = some ([], cs) := by
  rw [decode, if_pos rfl]

theorem decode_backslash (hq : IsMark q) (h : readEscape q cs = some (c, rest)) :
    decode q ('\\' :: cs) = (decode q rest).map fun r => (c :: r.1, r.2) := by
  have hne : '\\' ≠ q := by
    rintro rfl
    simp [IsMark] at hq
  rw [decode, if_neg hne, if_pos rfl]
  split
  · next heq =>
    cases h.symm.trans heq
    rfl
  · next heq => cases h.symm.trans heq

theorem readEscape_hex (q : Char) {n : Nat} (hn : n < 256) (cs : List Char) :
    readEscape q ('x' :: (twoHexDigits n ++ cs)) = some (Char.ofNat n, cs) := by
  have hhigh := hexValue?_hexDigit (n / 16) (by omega)
  have hlow := hexValue?_hexDigit (n % 16) (by omega)
  have hsum : 16 * (n / 16) + n % 16 = n := Nat.div_add_mod n 16
  simp [twoHexDigits, readEscape, hhigh, hlow, hsum]

/-- Every character is read back from what is written for it. -/
theorem decode_encodeChar (hq : IsMark q) (c : Char) (cs : List Char) :
    decode q (encodeChar q c ++ cs) = (decode q cs).map fun r => (c :: r.1, r.2) := by
  rw [encodeChar]
  -- the short escapes, the mark, the other control characters, and last the character itself
  split_ifs with hescape hline hreturn htab hmark hcontrol
  · subst hescape
    exact decode_backslash hq rfl
  · subst hline
    exact decode_backslash hq rfl
  · subst hreturn
    exact decode_backslash hq rfl
  · subst htab
    exact decode_backslash hq rfl
  · subst hmark
    obtain rfl | rfl := hq
    · exact decode_backslash (.inl rfl) rfl
    · exact decode_backslash (.inr rfl) rfl
  · have hsmall : c.toNat < 256 := by
      simp only [Bool.or_eq_true, decide_eq_true_eq] at hcontrol
      omega
    have hread := readEscape_hex q hsmall cs
    rw [Char.ofNat_toNat] at hread
    exact decode_backslash hq hread
  · rw [List.singleton_append, decode, if_neg hmark, if_neg hescape]

/-- The text is read back up to the closing mark. -/
theorem decode_encode (hq : IsMark q) (cs rest : List Char) :
    decode q (encode q cs ++ q :: rest) = some (cs, rest) := by
  induction cs with
  | nil => exact decode_mark q rest
  | cons c cs ih =>
    rw [encode, List.flatMap_cons, List.append_assoc, decode_encodeChar hq, ← encode, ih]
    rfl

end Reading

/-- What is written for a character has no control character in it. -/
theorem visible_of_mem_encodeChar {q c d : Char} (hq : IsMark q) (hd : d ∈ encodeChar q c) :
    0x20 ≤ d.toNat ∧ d.toNat ≠ 0x7f := by
  have hdigit : ∀ n < 16, 0x20 ≤ (hexDigit n).toNat ∧ (hexDigit n).toNat ≠ 0x7f := by decide
  rw [encodeChar] at hd
  split_ifs at hd with hescape hline hreturn htab hmark hcontrol
  · simp at hd
    subst hd
    decide
  · simp at hd
    obtain rfl | rfl := hd <;> decide
  · simp at hd
    obtain rfl | rfl := hd <;> decide
  · simp at hd
    obtain rfl | rfl := hd <;> decide
  · simp at hd
    obtain rfl | rfl := hd
    · decide
    · subst hmark
      obtain rfl | rfl := hq <;> decide
  · simp only [Bool.or_eq_true, decide_eq_true_eq] at hcontrol
    simp [twoHexDigits] at hd
    obtain rfl | rfl | rfl | rfl := hd
    · decide
    · decide
    · exact hdigit _ (by omega)
    · exact hdigit _ (by omega)
  · simp at hd
    subst hd
    simp only [Bool.or_eq_true, decide_eq_true_eq] at hcontrol
    omega

/-! ### Marks in between -/

/-- Whether the character behind `c` is escaped: a backslash that is not escaped itself does that. -/
def escapesNext (escaped : Bool) (c : Char) : Bool :=
  !escaped && c = '\\'

/-- Read from the left, the character behind a text is escaped. -/
def Escapes (cs : List Char) : Prop :=
  cs.foldl escapesNext false = true

/-- What is written for a character escapes nothing behind it. -/
theorem foldl_escapesNext_encodeChar {q : Char} (hq : IsMark q) (c : Char) :
    (encodeChar q c).foldl escapesNext false = false := by
  have hdigit : ∀ n < 16, hexDigit n ≠ '\\' := by decide
  rw [encodeChar]
  split_ifs with hescape hline hreturn htab hmark hcontrol
  · rfl
  · rfl
  · rfl
  · rfl
  · rw [hmark]
    obtain rfl | rfl := hq <;> rfl
  · simp only [Bool.or_eq_true, decide_eq_true_eq] at hcontrol
    have hhigh := hdigit (c.toNat / 16) (by omega)
    have hlow := hdigit (c.toNat % 16) (by omega)
    simp [twoHexDigits, escapesNext, hhigh, hlow]
  · simp [escapesNext, hescape]

/-- A mark is written for no character but itself. -/
theorem eq_of_mark_mem {q c : Char} (hq : IsMark q) (h : q ∈ encodeChar q c) : c = q := by
  have hdigit : ∀ n < 16, ¬ IsMark (hexDigit n) := by
    unfold IsMark
    decide
  rw [encodeChar] at h
  split_ifs at h with hescape hline hreturn htab hmark hcontrol
  · obtain rfl | rfl := hq <;> simp at h
  · obtain rfl | rfl := hq <;> simp at h
  · obtain rfl | rfl := hq <;> simp at h
  · obtain rfl | rfl := hq <;> simp at h
  · exact hmark
  · simp only [Bool.or_eq_true, decide_eq_true_eq] at hcontrol
    simp only [twoHexDigits, List.mem_cons, List.not_mem_nil, or_false] at h
    obtain rfl | rfl | rfl | rfl := h
    · simp [IsMark] at hq
    · simp [IsMark] at hq
    · exact absurd hq (hdigit _ (by omega))
    · exact absurd hq (hdigit _ (by omega))
  · exact (List.mem_singleton.mp h).symm

theorem encodeChar_mark {q : Char} (hq : IsMark q) : encodeChar q q = ['\\', q] := by
  obtain rfl | rfl := hq <;> rfl

theorem escapes_of_encodeChar {q c : Char} {before after : List Char} (hq : IsMark q)
    (h : encodeChar q c = before ++ q :: after) : Escapes before := by
  obtain rfl := eq_of_mark_mem hq (h ▸ List.mem_append_right before List.mem_cons_self)
  rw [encodeChar_mark hq] at h
  match before with
  | [] =>
    obtain ⟨rfl, -⟩ := List.cons.inj h
    simp [IsMark] at hq
  | [b] =>
    obtain ⟨rfl, -⟩ := List.cons.inj h
    rfl
  | _ :: _ :: _ => simp at h

/-- Every mark between the marks is escaped. -/
theorem escapes_of_encode {q : Char} (hq : IsMark q) (cs : List Char) :
    ∀ {before after : List Char}, encode q cs = before ++ q :: after → Escapes before := by
  induction cs with
  | nil => exact fun h => absurd h (by simp [encode])
  | cons c cs ih =>
    intro before after h
    rw [encode, List.flatMap_cons, ← encode, List.append_eq_append_iff] at h
    rcases h with ⟨later, rfl, hlater⟩ | ⟨left, hfirst, hrest⟩
    · -- the mark is written for a later character
      rw [Escapes, List.foldl_append, foldl_escapesNext_encodeChar hq]
      exact ih hlater
    · cases left with
      | nil =>
        -- then it would be the first thing written for the later characters
        have hfirst : Escapes [] := ih hrest.symm
        exact absurd hfirst (by simp [Escapes])
      | cons d left =>
        obtain ⟨rfl, -⟩ := List.cons.inj hrest
        exact escapes_of_encodeChar hq hfirst

end Quoted

theorem toList_quoted (s : String) :
    (quoted s).toList
      = Quoted.delimiter s.toList :: Quoted.encode (Quoted.delimiter s.toList) s.toList
        ++ [Quoted.delimiter s.toList] := by
  rw [quoted, String.toList_ofList]

/-- Of quoted texts with something behind them, the texts are the same if the whole is, and so is what
stands behind. -/
theorem quoted_append_inj {s t : String} {rest rest' : List Char}
    (h : (quoted s).toList ++ rest = (quoted t).toList ++ rest') : s = t ∧ rest = rest' := by
  rw [toList_quoted, toList_quoted] at h
  simp only [List.cons_append, List.append_assoc, List.nil_append] at h
  injection h with hmark h
  -- both are read by the mark that they begin with
  have hs := Quoted.decode_encode (Quoted.isMark_delimiter s.toList) s.toList rest
  have ht := Quoted.decode_encode (Quoted.isMark_delimiter t.toList) t.toList rest'
  rw [← hmark] at h ht
  rw [h, ht] at hs
  simp only [Option.some.injEq, Prod.mk.injEq] at hs
  exact ⟨String.toList_inj.mp hs.1.symm, hs.2.symm⟩

theorem quoted_injective : Function.Injective quoted := by
  intro s t h
  have hwhole : (quoted s).toList ++ [] = (quoted t).toList ++ [] := by rw [h]
  exact (quoted_append_inj hwhole).1

theorem visible_of_mem_quoted {s : String} {c : Char} (hc : c ∈ (quoted s).toList) :
    0x20 ≤ c.toNat ∧ c.toNat ≠ 0x7f := by
  have hq := Quoted.isMark_delimiter s.toList
  have hmark : 0x20 ≤ (Quoted.delimiter s.toList).toNat ∧
      (Quoted.delimiter s.toList).toNat ≠ 0x7f := by
    obtain h | h := hq <;> rw [h] <;> decide
  rw [toList_quoted, List.cons_append, List.mem_cons, List.mem_append, List.mem_singleton] at hc
  obtain rfl | hc | rfl := hc
  · exact hmark
  · obtain ⟨d, -, hd⟩ := List.mem_flatMap.mp hc
    exact Quoted.visible_of_mem_encodeChar hq hd
  · exact hmark

/-- Quoted text begins and ends with one mark. There is no control character in it, every mark in
between is escaped, and undoing the escapes up to the first mark that is not gives the text again and
leaves what stands behind. So no two texts are quoted alike. -/
theorem quoted_reads_back :
    (∀ s : String, ∃ q inside, Quoted.IsMark q ∧ (quoted s).toList = q :: inside ++ [q] ∧
      (∀ c ∈ (quoted s).toList, 0x20 ≤ c.toNat ∧ c.toNat ≠ 0x7f) ∧
      (∀ before after, inside = before ++ q :: after → Quoted.Escapes before) ∧
      ∀ rest, Quoted.decode q (inside ++ q :: rest) = some (s.toList, rest)) ∧
    Function.Injective quoted := by
  refine ⟨fun s => ?_, quoted_injective⟩
  have hq := Quoted.isMark_delimiter s.toList
  exact ⟨Quoted.delimiter s.toList, Quoted.encode (Quoted.delimiter s.toList) s.toList, hq,
    toList_quoted s, fun _ => visible_of_mem_quoted,
    fun _ _ => Quoted.escapes_of_encode hq s.toList, Quoted.decode_encode hq s.toList⟩

end StackScript
