import Mathlib
import StackScript.Lexer

/-!
What becomes of each character of a source.

A source that has tokens falls into pieces. Every piece is a gap, the text of a token, or, where
that is allowed, a single character that begins neither. Which text belongs to which token is said
here without the lexer: a word is as long as it can be, a literal goes on to its closing mark, and a
position is counted off in the text before it.

* `Position.behind`: the position behind a text, with `advanceBy_behind`;
* `GapText`, `TokenText`: the text of a gap and of a token, in front of the rest of the source;
* `cut_of_gapText`, `cut_of_tokenText`: such a text is the first piece of the source;
* `Cut.Fits`, `fits_cut`: the first piece of a source is such a text;
* `Divides`, `located`: a source in pieces, and the pieces with their positions;
* `exists_cut_of_token`, `exists_cut_of_skipped`: where the tokens and the skipped characters stand;
* `pieces`: the pieces that are cut off a source one by one;
* `Lexed.addAll`, `scan_eq`: what is done when pieces are, and that a scan does the pieces of the
  source, up to the first character that is not allowed;
* `tokenize_pieces`: the tokens of a source are those of its pieces.
-/

namespace StackScript

/-! ### Positions -/

/-- The position behind a text: one line more than it has line feeds, and one column more than it
has characters since the last of them. -/
def Position.behind (text : List Char) : Position :=
  ⟨1 + text.count '\n', 1 + (text.reverse.takeWhile (· != '\n')).length⟩

theorem Position.advance_behind (text : List Char) (c : Char) :
    (behind text).advance c = behind (text ++ [c]) := by
  unfold advance
  by_cases hc : c = '\n'
  · subst hc
    simp [behind, Nat.add_assoc]
  · have hcount : [c].count '\n' = 0 := by
      rw [List.count_singleton, if_neg (by simpa using hc)]
    simp [behind, hc, hcount, Nat.add_comm]

theorem Position.advanceBy_behind (text added : List Char) :
    (behind text).advanceBy added = behind (text ++ added) := by
  induction added generalizing text with
  | nil => rw [List.append_nil, advanceBy, List.foldl_nil]
  | cons c cs ih =>
    have hcs := ih (text ++ [c])
    rw [advanceBy] at hcs ⊢
    rw [List.foldl_cons, advance_behind, hcs, List.append_assoc, List.singleton_append]

/-! ### The texts of gaps and tokens -/

/-- The rest of a source does not go on with such a character. -/
def Breaks (continues : Char → Bool) (rest : List Char) : Prop :=
  ∀ c ∈ rest.head?, continues c = false

/-- The text of a gap: a blank, or a comment as far as it goes. -/
inductive GapText : List Char → List Char → Prop where
  | blank {c : Char} {rest : List Char} (h : c = ' ' ∨ c = '\t' ∨ c = '\r') : GapText [c] rest
  | comment {body rest : List Char} (hbody : '\n' ∉ body) (hrest : Breaks (· != '\n') rest) :
    GapText ('#' :: body) rest

/-- How the tokens are spelled that have one spelling, words and line feeds apart. -/
def TokenKind.symbol? : TokenKind → Option String
  | plus => some "+"
  | minus => some "-"
  | star => some "*"
  | slash => some "/"
  | assign => some "="
  | equal => some "=="
  | notEqual => some "!="
  | less => some "<"
  | greater => some ">"
  | leftParen => some "("
  | rightParen => some ")"
  | leftBrace => some "\x7b"
  | rightBrace => some "\x7d"
  | semicolon => some ";"
  | comma => some ","
  | _ => none

/-- What stands in a string literal, and the text that it denotes: a backslash is dropped and the
character behind it kept, and no quotation mark stands without one. -/
inductive LiteralText : List Char → List Char → Prop where
  | nil : LiteralText [] []
  | plain {c : Char} {text value : List Char} (hmark : c ≠ '"') (hescape : c ≠ '\\')
    (h : LiteralText text value) : LiteralText (c :: text) (c :: value)
  | escaped (c : Char) {text value : List Char} (h : LiteralText text value) :
    LiteralText ('\\' :: c :: text) (c :: value)

/-- The text of a token of a kind, with its lexeme, in front of the rest of the source. -/
inductive TokenText : TokenKind → String → List Char → List Char → Prop where
  /-- An equality sign that stands for an assignment is not the first half of another token. -/
  | symbol {kind : TokenKind} {lexeme : String} {rest : List Char}
    (h : kind.symbol? = some lexeme) (hrest : kind = .assign → Breaks (· == '=') rest) :
    TokenText kind lexeme lexeme.toList rest
  | word {kind : TokenKind} {c : Char} {text rest : List Char} (hfirst : opensName c = true)
    (htext : ∀ d ∈ text, continuesName d = true) (hrest : Breaks continuesName rest)
    (hkind : TokenKind.keyword? (String.ofList (c :: text)) = some kind ∨
      TokenKind.keyword? (String.ofList (c :: text)) = none ∧ kind = .identifier) :
    TokenText kind (String.ofList (c :: text)) (c :: text) rest
  | number {c : Char} {text rest : List Char} (hfirst : c.isDigit = true)
    (htext : ∀ d ∈ text, continuesNumber d = true) (hrest : Breaks continuesNumber rest) :
    TokenText .number (String.ofList (c :: text)) (c :: text) rest
  | newline {rest : List Char} : TokenText .newline "\\n" ['\n'] rest
  | string {text value rest : List Char} (h : LiteralText text value) :
    TokenText .string (String.ofList value) ('"' :: (text ++ ['"'])) rest
  /-- A literal without a closing mark takes up the rest of the source. -/
  | openString {text value : List Char} (h : LiteralText text value) :
    TokenText .string (String.ofList value) ('"' :: text) []
  /-- The last character of the source is a backslash with nothing behind it. -/
  | brokenString {text value : List Char} (h : LiteralText text value) :
    TokenText .string (String.ofList value) ('"' :: (text ++ ['\\'])) []

/-- The rest of a source may be another one that breaks off the same classes of characters. Only a
literal without an end has to stay at the end of the source. -/
theorem TokenText.of_breaks {kind : TokenKind} {lexeme : String} {text rest rest' : List Char}
    (h : TokenText kind lexeme text rest)
    (hbreaks : ∀ p : Char → Bool, p ' ' = false → p '\n' = false → Breaks p rest → Breaks p rest')
    (hend : kind = .string → rest = [] → rest' = []) : TokenText kind lexeme text rest' := by
  cases h with
  | symbol h hrest => exact .symbol h fun hkind => hbreaks _ rfl rfl (hrest hkind)
  | word hfirst htext hrest hword => exact .word hfirst htext (hbreaks _ rfl rfl hrest) hword
  | number hfirst htext hrest => exact .number hfirst htext (hbreaks _ rfl rfl hrest)
  | newline => exact .newline
  | string h => exact .string h
  | openString h =>
    rw [hend rfl rfl]
    exact .openString h
  | brokenString h =>
    rw [hend rfl rfl]
    exact .brokenString h

/-! ### Such a text is the first piece -/

theorem takeWhile_of_breaks {p : Char → Bool} {text rest : List Char}
    (htext : ∀ d ∈ text, p d = true) (hrest : Breaks p rest) :
    (text ++ rest).takeWhile p = text := by
  rw [List.takeWhile_append_of_pos htext]
  cases rest with
  | nil => simp
  | cons c cs => simp [hrest c rfl]

theorem dropWhile_of_breaks {p : Char → Bool} {text rest : List Char}
    (htext : ∀ d ∈ text, p d = true) (hrest : Breaks p rest) :
    (text ++ rest).dropWhile p = rest := by
  rw [List.dropWhile_append_of_pos htext]
  cases rest with
  | nil => rfl
  | cons c cs => simp [hrest c rfl]

theorem breaks_dropWhile (p : Char → Bool) (cs : List Char) : Breaks p (cs.dropWhile p) := by
  intro c hc
  have hnot := List.head?_dropWhile_not p cs
  rw [Option.mem_def] at hc
  rwa [hc] at hnot

theorem stringLiteral_mark (cs : List Char) : stringLiteral ('"' :: cs) = ([], ['"'], cs) := by
  rw [stringLiteral.eq_def]
  simp

theorem stringLiteral_plain {c : Char} (hmark : c ≠ '"') (hescape : c ≠ '\\')
    (cs : List Char) :
    stringLiteral (c :: cs)
      = (c :: (stringLiteral cs).1, c :: (stringLiteral cs).2.1, (stringLiteral cs).2.2) := by
  rw [stringLiteral.eq_def]
  simp [hmark, hescape]

theorem stringLiteral_escaped (c : Char) (cs : List Char) :
    stringLiteral ('\\' :: c :: cs)
      = (c :: (stringLiteral cs).1, '\\' :: c :: (stringLiteral cs).2.1,
          (stringLiteral cs).2.2) := by
  rw [stringLiteral.eq_def]
  simp

/-- A literal is read as far as it goes, whatever it ends with. -/
theorem stringLiteral_append {text value ending rest : List Char} (h : LiteralText text value)
    (cs : List Char) (hcs : stringLiteral cs = ([], ending, rest)) :
    stringLiteral (text ++ cs) = (value, text ++ ending, rest) := by
  induction h with
  | nil => exact hcs
  | plain hmark hescape _ ih =>
    rw [List.cons_append, stringLiteral_plain hmark hescape, ih]
    rfl
  | escaped c _ ih =>
    rw [List.cons_append, List.cons_append, stringLiteral_escaped, ih]
    rfl

theorem ne_newline_of_not_mem {text : List Char} (h : '\n' ∉ text) :
    ∀ d ∈ text, (d != '\n') = true := fun _ hd =>
  bne_iff_ne.mpr fun he => h (he ▸ hd)

/-- A gap in front of a source is its first piece. -/
theorem cut_of_gapText {c : Char} {text rest : List Char} (h : GapText (c :: text) rest) :
    cut c (text ++ rest) = ⟨.gap, c :: text, rest⟩ := by
  cases h with
  | blank h =>
    obtain rfl | rfl | rfl := h
    · rfl
    · rfl
    · rfl
  | comment hbody hrest =>
    have htext := ne_newline_of_not_mem hbody
    show (⟨.gap, '#' :: (text ++ rest).takeWhile (· != '\n'), (text ++ rest).dropWhile (· != '\n')⟩
      : Cut) = _
    rw [takeWhile_of_breaks htext hrest, dropWhile_of_breaks htext hrest]

/-- A character of a class is none that is not in the class. -/
theorem ne_of_class {p : Char → Bool} {c : Char} (hc : p c = true) (d : Char)
    (hd : p d = false) : c ≠ d := by
  rintro rfl
  rw [hd] at hc
  cases hc

theorem not_isBlank_of_class {p : Char → Bool} {c : Char} (hc : p c = true)
    (hspace : p ' ' = false) (htab : p '\t' = false) (hreturn : p '\r' = false) :
    ¬ isBlank c = true := by
  have h₁ := ne_of_class hc ' ' hspace
  have h₂ := ne_of_class hc '\t' htab
  have h₃ := ne_of_class hc '\r' hreturn
  simp [isBlank, h₁, h₂, h₃]

/-- No digit opens a name. -/
theorem not_isDigit_of_opensName {c : Char} (h : opensName c = true) : ¬ c.isDigit = true := by
  intro hdigit
  simp only [Char.isDigit, Bool.and_eq_true, decide_eq_true_eq, ge_iff_le,
    UInt32.le_iff_toNat_le] at hdigit
  change 48 ≤ c.toNat ∧ c.toNat ≤ 57 at hdigit
  have hascii : isAscii c = true := by
    rw [isAscii, decide_eq_true_eq]
    omega
  have halpha : c.isAlpha = false := by
    rw [Bool.eq_false_iff]
    intro halpha
    simp only [Char.isAlpha, Char.isUpper, Char.isLower, Bool.or_eq_true, Bool.and_eq_true,
      decide_eq_true_eq, ge_iff_le, UInt32.le_iff_toNat_le] at halpha
    change (65 ≤ c.toNat ∧ c.toNat ≤ 90) ∨ (97 ≤ c.toNat ∧ c.toNat ≤ 122) at halpha
    omega
  have hne : c ≠ '_' := by
    rintro rfl
    exact absurd hdigit.2 (by decide)
  simp [opensName, isAlphabetic, hascii, halpha, hne] at h

theorem cut_number {c : Char} (h : c.isDigit = true) (cs : List Char) :
    cut c cs = ⟨.token .number (String.ofList (c :: cs.takeWhile continuesNumber)),
      c :: cs.takeWhile continuesNumber, cs.dropWhile continuesNumber⟩ := by
  rw [cut.eq_def, if_neg (not_isBlank_of_class h rfl rfl rfl), if_neg (ne_of_class h '#' rfl),
    if_neg (ne_of_class h '\n' rfl), if_pos h]

theorem cut_word {c : Char} (h : opensName c = true) (cs : List Char) :
    cut c cs = ⟨.token (wordKind (String.ofList (c :: cs.takeWhile continuesName)))
        (String.ofList (c :: cs.takeWhile continuesName)),
      c :: cs.takeWhile continuesName, cs.dropWhile continuesName⟩ := by
  rw [cut.eq_def, if_neg (not_isBlank_of_class h rfl rfl rfl), if_neg (ne_of_class h '#' rfl),
    if_neg (ne_of_class h '\n' rfl), if_neg (not_isDigit_of_opensName h),
    if_neg (ne_of_class h '"' rfl), if_pos h]

theorem cut_string (cs : List Char) :
    cut '"' cs = ⟨.token .string (String.ofList (stringLiteral cs).1),
      '"' :: (stringLiteral cs).2.1, (stringLiteral cs).2.2⟩ := rfl

theorem cut_assign {rest : List Char} (h : Breaks (· == '=') rest) :
    cut '=' rest = ⟨.token .assign "=", ['='], rest⟩ := by
  cases rest with
  | nil => rfl
  | cons c cs =>
    have hc : c ≠ '=' := by simpa using h c rfl
    rw [cut.eq_def]
    simp [isBlank, punctuation?, opensName, isAlphabetic, isAscii, hc]

theorem wordKind_eq {kind : TokenKind} {word : String}
    (h : TokenKind.keyword? word = some kind ∨
      TokenKind.keyword? word = none ∧ kind = .identifier) : wordKind word = kind := by
  rw [wordKind]
  obtain h | ⟨h, rfl⟩ := h
  · rw [h, Option.getD_some]
  · rw [h, Option.getD_none]

/-- The text of a token in front of a source is its first piece. -/
theorem cut_of_tokenText {kind : TokenKind} {lexeme : String} {c : Char} {text rest : List Char}
    (h : TokenText kind lexeme (c :: text) rest) :
    cut c (text ++ rest) = ⟨.token kind lexeme, c :: text, rest⟩ := by
  generalize hct : c :: text = whole at h
  cases h with
  | symbol hsymbol hrest =>
    cases kind with
    | assign =>
      obtain rfl := Option.some.inj hsymbol
      obtain ⟨rfl, rfl⟩ := List.cons.inj hct
      exact cut_assign (hrest rfl)
    | _ =>
      first
      | obtain rfl := Option.some.inj hsymbol
        obtain ⟨rfl, rfl⟩ := List.cons.inj hct
        rfl
      | cases hsymbol
  | word hfirst htext hrest hkind =>
    obtain ⟨rfl, rfl⟩ := List.cons.inj hct
    rw [cut_word hfirst, takeWhile_of_breaks htext hrest, dropWhile_of_breaks htext hrest,
      wordKind_eq hkind]
  | number hfirst htext hrest =>
    obtain ⟨rfl, rfl⟩ := List.cons.inj hct
    rw [cut_number hfirst, takeWhile_of_breaks htext hrest, dropWhile_of_breaks htext hrest]
  | newline =>
    obtain ⟨rfl, rfl⟩ := List.cons.inj hct
    rfl
  | string hvalue =>
    obtain ⟨rfl, rfl⟩ := List.cons.inj hct
    rw [cut_string, List.append_assoc, List.singleton_append,
      stringLiteral_append hvalue _ (stringLiteral_mark rest)]
  | openString hvalue =>
    obtain ⟨rfl, rfl⟩ := List.cons.inj hct
    rw [cut_string, stringLiteral_append hvalue [] stringLiteral.eq_1, List.append_nil]
  | brokenString hvalue =>
    obtain ⟨rfl, rfl⟩ := List.cons.inj hct
    rw [cut_string, List.append_nil, stringLiteral_append hvalue ['\\'] rfl]

/-! ### The first piece is such a text -/

/-- A source that begins with neither a gap nor a token. -/
def BeginsNothing (source : List Char) : Prop :=
  ∀ text rest, source = text ++ rest →
    ¬ GapText text rest ∧ ∀ kind lexeme, ¬ TokenText kind lexeme text rest

/-- What a piece amounts to is what its text is. A character that begins nothing is a piece in the
one mode only. -/
def Cut.Fits (mode : LexMode) (cut : Cut) : Prop :=
  match cut.piece with
  | .gap => GapText cut.text cut.rest
  | .token kind lexeme => TokenText kind lexeme cut.text cut.rest
  | .stray c => mode = .lenient ∧ cut.text = [c] ∧ BeginsNothing (c :: cut.rest)

/-- A literal ends with its mark, or with the source, before which a backslash may stand alone. -/
theorem exists_literalText (cs : List Char) : ∃ text, LiteralText text (stringLiteral cs).1 ∧
    ((stringLiteral cs).2.1 = text ++ ['"'] ∨
      (stringLiteral cs).2.2 = [] ∧
        ((stringLiteral cs).2.1 = text ∨ (stringLiteral cs).2.1 = text ++ ['\\'])) := by
  fun_induction stringLiteral cs with
  | case1 => exact ⟨[], .nil, .inr ⟨rfl, .inl rfl⟩⟩
  | case2 cs => exact ⟨[], .nil, .inl rfl⟩
  | case3 => exact ⟨[], .nil, .inr ⟨rfl, .inr rfl⟩⟩
  | case4 d ds value text rest hds hmark ih =>
    rw [hds] at ih
    obtain ⟨body, hbody, hend⟩ := ih
    exact ⟨'\\' :: d :: body, .escaped d hbody, by simpa using hend⟩
  | case5 c cs hmark hescape value text rest hcs ih =>
    rw [hcs] at ih
    obtain ⟨body, hbody, hend⟩ := ih
    exact ⟨c :: body, .plain hmark hescape hbody, by simpa using hend⟩

theorem tokenText_stringLiteral (cs : List Char) :
    TokenText .string (String.ofList (stringLiteral cs).1) ('"' :: (stringLiteral cs).2.1)
      (stringLiteral cs).2.2 := by
  obtain ⟨text, hvalue, htext | ⟨hrest, htext | htext⟩⟩ := exists_literalText cs
  · rw [htext]
    exact .string hvalue
  · rw [htext, hrest]
    exact .openString hvalue
  · rw [htext, hrest]
    exact .brokenString hvalue

theorem symbol?_of_punctuation? {c : Char} {kind : TokenKind} (h : punctuation? c = some kind) :
    kind.symbol? = some (String.singleton c) ∧ kind ≠ .assign := by
  unfold punctuation? at h
  split at h
  all_goals first
    | obtain rfl := Option.some.inj h
      exact ⟨rfl, by decide⟩
    | cases h

theorem GapText.ne_nil {text rest : List Char} (h : GapText text rest) : text ≠ [] := by
  cases h with
  | blank => exact List.cons_ne_nil _ _
  | comment => exact List.cons_ne_nil _ _

theorem TokenText.ne_nil {kind : TokenKind} {lexeme : String} {text rest : List Char}
    (h : TokenText kind lexeme text rest) : text ≠ [] := by
  cases h with
  | symbol hsymbol =>
    cases kind with
    | _ =>
      first
      | obtain rfl := Option.some.inj hsymbol
        exact List.cons_ne_nil _ _
      | cases hsymbol
  | _ => exact List.cons_ne_nil _ _

theorem cut_eq_of_tokenText {kind : TokenKind} {lexeme : String} {c : Char}
    {cs text rest : List Char} (h : TokenText kind lexeme text rest)
    (hwhole : text ++ rest = c :: cs) : cut c cs = ⟨.token kind lexeme, text, rest⟩ := by
  obtain ⟨d, text, rfl⟩ := List.exists_cons_of_ne_nil h.ne_nil
  obtain ⟨rfl, rfl⟩ := List.cons.inj hwhole
  exact cut_of_tokenText h

theorem cut_eq_of_gapText {c : Char} {cs text rest : List Char} (h : GapText text rest)
    (hwhole : text ++ rest = c :: cs) : cut c cs = ⟨.gap, text, rest⟩ := by
  obtain ⟨d, text, rfl⟩ := List.exists_cons_of_ne_nil h.ne_nil
  obtain ⟨rfl, rfl⟩ := List.cons.inj hwhole
  exact cut_of_gapText h

/-- No character is skipped that begins something. -/
theorem beginsNothing_of_stray {c d : Char} {cs : List Char} (h : (cut c cs).piece = .stray d) :
    BeginsNothing (c :: cs) := by
  intro text rest hsource
  constructor
  · intro hgap
    rw [cut_eq_of_gapText hgap hsource.symm] at h
    cases h
  · intro kind lexeme htoken
    rw [cut_eq_of_tokenText htoken hsource.symm] at h
    cases h

/-- The first piece of a source has the text that it should have. -/
theorem fits_cut {mode : LexMode} {c : Char} {cs : List Char}
    (hmode : ∀ d, (cut c cs).piece = .stray d → mode = .lenient) : (cut c cs).Fits mode := by
  by_cases hblank : isBlank c = true
  · rw [cut.eq_def, if_pos hblank]
    exact .blank (by simpa [isBlank, or_assoc] using hblank)
  by_cases hcomment : c = '#'
  · subst hcomment
    refine GapText.comment ?_ (breaks_dropWhile _ cs)
    intro hmem
    exact absurd (List.mem_takeWhile_imp hmem) (by decide)
  by_cases hnewline : c = '\n'
  · subst hnewline
    exact TokenText.newline
  by_cases hdigit : c.isDigit = true
  · rw [cut_number hdigit]
    exact .number hdigit (fun _ => List.mem_takeWhile_imp) (breaks_dropWhile _ cs)
  by_cases hmark : c = '"'
  · subst hmark
    rw [cut_string]
    exact tokenText_stringLiteral cs
  by_cases hname : opensName c = true
  · rw [cut_word hname]
    refine .word hname (fun _ => List.mem_takeWhile_imp) (breaks_dropWhile _ cs) ?_
    rw [wordKind]
    cases TokenKind.keyword? (String.ofList (c :: cs.takeWhile continuesName)) with
    | none => exact .inr ⟨rfl, rfl⟩
    | some kind => exact .inl rfl
  -- what is left are symbols and characters that begin nothing
  have hnothing : ∀ d, (cut c cs).piece = .stray d → BeginsNothing (c :: cs) :=
    fun d hd => beginsNothing_of_stray hd
  generalize hcut : cut c cs = first at *
  rw [cut.eq_def, if_neg hblank, if_neg hcomment, if_neg hnewline, if_neg hdigit, if_neg hmark,
    if_neg hname] at hcut
  split at hcut <;> subst hcut
  · next c cs _ _ _ kind hkind =>
    obtain ⟨hsymbol, hne⟩ := symbol?_of_punctuation? hkind
    have htext : TokenText kind (String.singleton c) (String.singleton c).toList cs :=
      .symbol hsymbol fun h => absurd h hne
    rwa [String.toList_singleton] at htext
  · exact .symbol rfl fun h => by cases h
  · exact .symbol rfl fun h => by cases h
  · next rest _ _ _ hrest _ =>
    refine .symbol rfl fun _ d hd => ?_
    obtain ⟨rest, rfl⟩ := List.head?_eq_some_iff.mp hd
    exact beq_false_of_ne fun hd => hrest rest (hd ▸ rfl)
  · exact ⟨hmode _ rfl, rfl, hnothing _ rfl⟩

/-! ### A source in pieces -/

/-- A source is divided: each piece is followed by the pieces of the rest. -/
def Divides : List Char → List Cut → Prop
  | source, [] => source = []
  | source, cut :: cuts => source = cut.text ++ cut.rest ∧ Divides cut.rest cuts

/-- The pieces of a source. -/
def pieces : List Char → List Cut
  | [] => []
  | c :: cs => cut c cs :: pieces (cut c cs).rest
termination_by cs => cs.length
decreasing_by exact cut_rest_length_lt c cs

theorem divides_pieces (cs : List Char) : Divides cs (pieces cs) := by
  fun_induction pieces cs with
  | case1 => rfl
  | case2 c cs ih => exact ⟨(cut_text_append_rest c cs).symm, ih⟩

theorem fits_pieces {mode : LexMode} (cs : List Char) : ∀ cut ∈ pieces cs,
    (∀ d, cut.piece = .stray d → mode = .lenient) → cut.Fits mode := by
  fun_induction pieces cs with
  | case1 => exact List.forall_mem_nil _
  | case2 c cs ih => exact List.forall_mem_cons.mpr ⟨fun hmode => fits_cut hmode, ih⟩

/-- What the pieces behind a text amount to, each with its position. -/
def located (text : List Char) : List Cut → List (Piece × Position)
  | [] => []
  | cut :: cuts => (cut.piece, .behind text) :: located (text ++ cut.text) cuts

/-- The token of a piece. -/
def Piece.token? : Piece × Position → Option Token
  | (token kind lexeme, p) => some ⟨kind, lexeme, p⟩
  | _ => none

/-- The character that is skipped. -/
def Piece.skipped? : Piece × Position → Option (Char × Position)
  | (stray c, p) => some (c, p)
  | _ => none

/-- A piece that is located stands behind the pieces in front of it. -/
theorem exists_cut_of_mem_located {cuts : List Cut} {piece : Piece} {p : Position} :
    ∀ {text : List Char}, (piece, p) ∈ located text cuts → ∃ before, ∃ cut ∈ cuts,
      cut.piece = piece ∧ p = .behind (text ++ before) ∧
        ∀ cs, Divides cs cuts → cs = before ++ (cut.text ++ cut.rest) := by
  induction cuts with
  | nil => exact fun h => absurd h List.not_mem_nil
  | cons first cuts ih =>
    intro text h
    rw [located, List.mem_cons] at h
    obtain h | h := h
    · cases h
      exact ⟨[], first, List.mem_cons_self, rfl, by rw [List.append_nil], fun cs hcs => hcs.1⟩
    · obtain ⟨before, cut, hcut, hpiece, rfl, hsplit⟩ := ih h
      refine ⟨first.text ++ before, cut, List.mem_cons_of_mem _ hcut, hpiece, ?_, ?_⟩
      · rw [List.append_assoc]
      · intro cs hcs
        rw [hcs.1, hsplit _ hcs.2, List.append_assoc]

theorem exists_cut_of_token {cuts : List Cut} {text : List Char} {t : Token}
    (h : t ∈ (located text cuts).filterMap Piece.token?) : ∃ before, ∃ cut ∈ cuts,
      cut.piece = .token t.kind t.lexeme ∧ t.position = .behind (text ++ before) ∧
        ∀ cs, Divides cs cuts → cs = before ++ (cut.text ++ cut.rest) := by
  obtain ⟨⟨piece, p⟩, hmem, htoken⟩ := List.mem_filterMap.mp h
  cases piece with
  | gap => cases htoken
  | stray c => cases htoken
  | token kind lexeme =>
    cases htoken
    exact exists_cut_of_mem_located hmem

theorem exists_cut_of_skipped {cuts : List Cut} {text : List Char} {c : Char} {p : Position}
    (h : (c, p) ∈ (located text cuts).filterMap Piece.skipped?) : ∃ before, ∃ cut ∈ cuts,
      cut.piece = .stray c ∧ p = .behind (text ++ before) ∧
        ∀ cs, Divides cs cuts → cs = before ++ (cut.text ++ cut.rest) := by
  obtain ⟨⟨piece, q⟩, hmem, hskipped⟩ := List.mem_filterMap.mp h
  cases piece with
  | gap => cases hskipped
  | token kind lexeme => cases hskipped
  | stray d =>
    cases hskipped
    exact exists_cut_of_mem_located hmem

/-- What is done when one more piece is. -/
def Lexed.add (done : Lexed) : Piece × Position → Lexed
  | (.gap, _) => done
  | (.token kind lexeme, p) => { done with tokens := done.tokens.push ⟨kind, lexeme, p⟩ }
  | (.stray c, p) => { done with skipped := done.skipped.push (c, p) }

theorem Lexed.tokens_add (done : Lexed) (piece : Piece × Position) :
    (done.add piece).tokens.toList = done.tokens.toList ++ (Piece.token? piece).toList := by
  obtain ⟨_ | _ | _, p⟩ := piece
  · exact (List.append_nil _).symm
  · exact Array.toList_push
  · exact (List.append_nil _).symm

theorem Lexed.skipped_add (done : Lexed) (piece : Piece × Position) :
    (done.add piece).skipped.toList = done.skipped.toList ++ (Piece.skipped? piece).toList := by
  obtain ⟨_ | _ | _, p⟩ := piece
  · exact (List.append_nil _).symm
  · exact (List.append_nil _).symm
  · exact Array.toList_push

/-- One step of a scan. -/
theorem scan_cons (mode : LexMode) (p : Position) (c : Char) (cs : List Char) (done : Lexed) :
    scan mode p (c :: cs) done = match (cut c cs).piece, mode with
      | .stray d, .strict => .error (.unexpectedCharacter d p)
      | piece, mode =>
        scan mode (p.advanceBy (cut c cs).text) (cut c cs).rest (done.add (piece, p)) := by
  rw [scan.eq_def]
  dsimp only
  cases (cut c cs).piece <;> cases mode <;> rfl

theorem filterMap_located_cons {α : Type} (f : Piece × Position → Option α) (text : List Char)
    (cut : Cut) (cuts : List Cut) :
    (located text (cut :: cuts)).filterMap f
      = (f (cut.piece, .behind text)).toList ++ (located (text ++ cut.text) cuts).filterMap f := by
  rw [located, List.filterMap_cons]
  cases f (cut.piece, .behind text) <;> rfl

/-- What is done when more pieces are. -/
def Lexed.addAll (done : Lexed) (ps : List (Piece × Position)) : Lexed :=
  ps.foldl Lexed.add done

theorem Lexed.tokens_addAll (ps : List (Piece × Position)) : ∀ done : Lexed,
    (done.addAll ps).tokens.toList = done.tokens.toList ++ ps.filterMap Piece.token? := by
  induction ps with
  | nil => intro done; simp [addAll]
  | cons p ps ih =>
    intro done
    rw [addAll, List.foldl_cons, ← addAll, ih, tokens_add, List.filterMap_cons, List.append_assoc]
    cases Piece.token? p <;> rfl

theorem Lexed.skipped_addAll (ps : List (Piece × Position)) : ∀ done : Lexed,
    (done.addAll ps).skipped.toList = done.skipped.toList ++ ps.filterMap Piece.skipped? := by
  induction ps with
  | nil => intro done; simp [addAll]
  | cons p ps ih =>
    intro done
    rw [addAll, List.foldl_cons, ← addAll, ih, skipped_add, List.filterMap_cons, List.append_assoc]
    cases Piece.skipped? p <;> rfl

/-- The scan of a source behind a text does the pieces of the source one after the other, up to the
first character that is not allowed. -/
theorem scan_eq (mode : LexMode) (text cs : List Char) (done : Lexed) :
    scan mode (.behind text) cs done =
      match mode, ((located text (pieces cs)).filterMap Piece.skipped?).head? with
      | .strict, some (c, p) => .error (.unexpectedCharacter c p)
      | _, _ => .ok ((done.addAll (located text (pieces cs))).add
          (.token .eof "", .behind (text ++ cs))) := by
  cases cs with
  | nil =>
    rw [scan, pieces, List.append_nil]
    cases mode <;> rfl
  | cons c cs =>
    have hwhole := cut_text_append_rest c cs
    have ih := scan_eq mode (text ++ (cut c cs).text) (cut c cs).rest
      (done.add ((cut c cs).piece, .behind text))
    rw [List.append_assoc, hwhole] at ih
    rw [scan_cons, Position.advanceBy_behind, pieces, filterMap_located_cons, located]
    generalize (cut c cs).piece = piece at ih ⊢
    cases piece with
    | gap => exact ih
    | token kind lexeme => exact ih
    | stray d =>
      cases mode with
      | lenient => exact ih
      | strict => rfl
termination_by cs.length
decreasing_by exact cut_rest_length_lt c _

theorem mem_skipped_of_stray {first : Cut} {cuts : List Cut} {d : Char} (hmem : first ∈ cuts)
    (hpiece : first.piece = .stray d) :
    ∀ text, ∃ p, (d, p) ∈ (located text cuts).filterMap Piece.skipped? := by
  induction hmem with
  | head cuts =>
    intro text
    refine ⟨.behind text, ?_⟩
    rw [filterMap_located_cons, hpiece]
    exact List.mem_append_left _ (List.mem_singleton_self _)
  | tail cut _ ih =>
    intro text
    obtain ⟨p, hp⟩ := ih (text ++ cut.text)
    rw [filterMap_located_cons]
    exact ⟨p, List.mem_append_right _ hp⟩

/-- What a scan adds to what is done: the tokens and the skipped characters of pieces, and the end
of the source. -/
theorem scan_pieces {mode : LexMode} {lexed : Lexed} (text cs : List Char) (done : Lexed)
    (h : scan mode (.behind text) cs done = .ok lexed) :
    ∃ cuts, Divides cs cuts ∧ (∀ cut ∈ cuts, cut.Fits mode) ∧
      lexed.tokens.toList = done.tokens.toList ++ (located text cuts).filterMap Piece.token?
        ++ [⟨.eof, "", .behind (text ++ cs)⟩] ∧
      lexed.skipped.toList
        = done.skipped.toList ++ (located text cuts).filterMap Piece.skipped? := by
  have hrun := scan_eq mode text cs done
  rw [h] at hrun
  -- a character that begins nothing has not ended the scan
  have hmode : ∀ cut ∈ pieces cs, ∀ d, cut.piece = .stray d → mode = .lenient := by
    intro cut hcut d hd
    obtain ⟨p, hp⟩ := mem_skipped_of_stray hcut hd text
    cases mode with
    | lenient => rfl
    | strict =>
      rw [List.head?_eq_some_head (List.ne_nil_of_mem hp)] at hrun
      cases hrun
  have hfits : ∀ cut ∈ pieces cs, cut.Fits mode := fun cut hcut =>
    fits_pieces cs cut hcut (hmode cut hcut)
  refine ⟨pieces cs, divides_pieces cs, hfits, ?_⟩
  have hlexed : lexed = (done.addAll (located text (pieces cs))).add
      (.token .eof "", .behind (text ++ cs)) := by
    split at hrun
    · cases hrun
    · exact Except.ok.inj hrun
  rw [hlexed, Lexed.tokens_add, Lexed.tokens_addAll, Lexed.skipped_add, Lexed.skipped_addAll]
  exact ⟨rfl, List.append_nil _⟩

/-- The tokens of a source are those of pieces that it falls into. Each of them stands where its
text begins, and the last one, which has no text, stands behind the source. -/
theorem tokenize_pieces {mode : LexMode} {source : String} {lexed : Lexed}
    (h : tokenize mode source = .ok lexed) :
    ∃ cuts, Divides source.toList cuts ∧ (∀ cut ∈ cuts, cut.Fits mode) ∧
      lexed.tokens.toList = (located [] cuts).filterMap Piece.token?
        ++ [⟨.eof, "", .behind source.toList⟩] ∧
      lexed.skipped.toList = (located [] cuts).filterMap Piece.skipped? :=
  scan_pieces [] source.toList {} h

/-- A literal over two lines with an escaped mark, a skipped character, a comment, and a literal
without an end. -/
theorem tokenize_pieces_of_open_literal :
    let source := "s = \"a\\\"\n\" @ != 1.2 # c\nlet\t\"b\\"
    let tokens : Array Token := #[⟨.identifier, "s", ⟨1, 1⟩⟩, ⟨.assign, "=", ⟨1, 3⟩⟩,
      ⟨.string, "a\"\n", ⟨1, 5⟩⟩, ⟨.notEqual, "!=", ⟨2, 5⟩⟩, ⟨.number, "1.2", ⟨2, 8⟩⟩,
      ⟨.newline, "\\n", ⟨2, 15⟩⟩, ⟨.letWord, "let", ⟨3, 1⟩⟩, ⟨.string, "b", ⟨3, 5⟩⟩,
      ⟨.eof, "", ⟨3, 8⟩⟩]
    tokenize .lenient source = .ok ⟨tokens, #[('@', ⟨2, 3⟩)]⟩ ∧
      ∃ cuts, Divides source.toList cuts ∧ (∀ cut ∈ cuts, cut.Fits .lenient) ∧
        tokens.toList = (located [] cuts).filterMap Piece.token?
          ++ [⟨.eof, "", .behind source.toList⟩] := by
  intro source tokens
  have hrun : tokenize .lenient source = .ok ⟨tokens, #[('@', ⟨2, 3⟩)]⟩ := by
    cbv
  obtain ⟨cuts, hdivides, hfits, htokens, -⟩ := tokenize_pieces hrun
  exact ⟨hrun, cuts, hdivides, hfits, htokens⟩

end StackScript
