import StackScript.Proofs.SourceDivision

/-!
Tokens that are written out and read again.

A list of tokens is written as a source, each of them as it is spelled, with blanks between one and
the next and comments at the ends of lines. Of this source the lexer makes the same tokens, in both
modes: each token breaks off at what is written behind it, and what is written for the text of a
literal denotes that text.

* `literalBody`: what is written for the text of a literal, with `literalText_literalBody`;
* `Spelling`: the tokens that can be written, and their texts;
* `Rendering`: the sources that are written for a list of tokens;
* `tokenText_of_spelling`: a token is read as it was written, wherever something follows that is
  written behind tokens;
* `FallsInto`: a source in gaps and the texts of tokens, with `fallsInto_of_rendering`;
* `tokenize_of_rendering`: the tokens that are read are those that were written.
-/

namespace StackScript

/-- What is written between marks for a text: a backslash stands before each mark and before each
backslash. -/
def literalBody (value : List Char) : List Char :=
  value.flatMap fun c => if c = '"' ∨ c = '\\' then ['\\', c] else [c]

/-- The tokens that can be written, by kind and lexeme, each with its text. -/
inductive Spelling : TokenKind → String → List Char → Prop where
  | symbol {kind : TokenKind} {lexeme : String} (h : kind.symbol? = some lexeme) :
    Spelling kind lexeme lexeme.toList
  | keyword {kind : TokenKind} {lexeme : String} (h : TokenKind.keyword? lexeme = some kind) :
    Spelling kind lexeme lexeme.toList
  | number {c : Char} {text : List Char} (hfirst : c.isDigit = true)
    (htext : ∀ d ∈ text, continuesNumber d = true) :
    Spelling .number (String.ofList (c :: text)) (c :: text)
  | name {c : Char} {text : List Char} (hfirst : opensName c = true)
    (htext : ∀ d ∈ text, continuesName d = true)
    (hname : TokenKind.keyword? (String.ofList (c :: text)) = none) :
    Spelling .identifier (String.ofList (c :: text)) (c :: text)
  | string (value : List Char) :
    Spelling .string (String.ofList value) ('"' :: (literalBody value ++ ['"']))
  | newline : Spelling .newline "\\n" ['\n']

/-- Spaces, tabs and carriage returns, at least so many of them. -/
def Blanks (least : ℕ) (text : List Char) : Prop :=
  least ≤ text.length ∧ ∀ c ∈ text, c = ' ' ∨ c = '\t' ∨ c = '\r'

/-- A comment, or nothing. -/
inductive Remark : List Char → Prop where
  | none : Remark []
  | comment {body : List Char} (hbody : '\n' ∉ body) : Remark ('#' :: body)

/-- What can be written for a list of tokens, where so many blanks have to come first. Comments
stand at the end of a line or of the source. -/
inductive Rendering : ℕ → List (TokenKind × String) → List Char → Prop where
  | ending {least : ℕ} {blanks remark : List Char} (hblanks : Blanks 0 blanks)
    (hremark : Remark remark) : Rendering least [] (blanks ++ remark)
  | token {least : ℕ} {kind : TokenKind} {lexeme : String} {ts : List (TokenKind × String)}
    {blanks remark text rest : List Char} (hblanks : Blanks least blanks)
    (hremark : Remark remark) (hline : remark ≠ [] → kind = .newline)
    (htext : Spelling kind lexeme text) (hrest : Rendering 1 ts rest) :
    Rendering least ((kind, lexeme) :: ts) (blanks ++ (remark ++ (text ++ rest)))

/-! ### A token is read as it was written -/

theorem literalText_literalBody (value : List Char) : LiteralText (literalBody value) value := by
  induction value with
  | nil => exact .nil
  | cons c value ih =>
    rw [literalBody, List.flatMap_cons, ← literalBody]
    split
    · exact .escaped c ih
    · next hplain =>
      rw [not_or] at hplain
      exact .plain hplain.1 hplain.2 ih

/-- The source ends here, or it goes on with what is written behind a token. -/
def Separated (rest : List Char) : Prop :=
  ∀ c ∈ rest.head?, (c = ' ' ∨ c = '\t' ∨ c = '\r') ∨ c = '#'

theorem Separated.breaks {p : Char → Bool} {rest : List Char} (h : Separated rest)
    (hspace : p ' ' = false) (htab : p '\t' = false) (hreturn : p '\r' = false)
    (hcomment : p '#' = false) : Breaks p rest := by
  intro c hc
  rcases h c hc with (rfl | rfl | rfl) | rfl
  · exact hspace
  · exact htab
  · exact hreturn
  · exact hcomment

theorem separated_of_rendering {ts : List (TokenKind × String)} {cs : List Char}
    (h : Rendering 1 ts cs) : Separated cs := by
  have hblank : ∀ {least : ℕ} {blanks : List Char} (rest : List Char), Blanks least blanks →
      blanks ≠ [] → Separated (blanks ++ rest) := by
    intro least blanks rest hblanks hne c hc
    rw [List.head?_append_of_ne_nil _ hne] at hc
    exact .inl (hblanks.2 c (List.mem_of_mem_head? hc))
  cases h with
  | @ending _ blanks remark hblanks hremark =>
    by_cases hne : blanks = []
    · subst hne
      intro c hc
      cases hremark with
      | none => simp at hc
      | comment =>
        obtain rfl := Option.some.inj hc
        exact .inr rfl
    · exact hblank _ hblanks hne
  | token hblanks => exact hblank _ hblanks (List.ne_nil_of_length_pos hblanks.1)

/-- A reserved word has the letters of a name. -/
theorem letters_of_keyword? {kind : TokenKind} {word : String}
    (h : TokenKind.keyword? word = some kind) :
    ∃ c text, word = String.ofList (c :: text) ∧ opensName c = true ∧
      ∀ d ∈ text, continuesName d = true := by
  unfold TokenKind.keyword? at h
  split at h
  all_goals first
    | exact ⟨_, _, rfl, rfl, by simp [continuesName, isAlphabetic, isAscii]⟩
    | cases h

theorem tokenText_of_spelling {kind : TokenKind} {lexeme : String} {text rest : List Char}
    (h : Spelling kind lexeme text) (hrest : Separated rest) : TokenText kind lexeme text rest := by
  have hword : Breaks continuesName rest :=
    hrest.breaks (by decide) (by decide) (by decide) (by decide)
  cases h with
  | symbol h => exact .symbol h fun _ => hrest.breaks rfl rfl rfl rfl
  | keyword h =>
    obtain ⟨c, text, rfl, hfirst, htext⟩ := letters_of_keyword? h
    rw [String.toList_ofList]
    exact .word hfirst htext hword (.inl h)
  | number hfirst htext => exact .number hfirst htext (hrest.breaks rfl rfl rfl rfl)
  | name hfirst htext hname => exact .word hfirst htext hword (.inr ⟨hname, rfl⟩)
  | string value => exact .string (literalText_literalBody value)
  | newline => exact .newline

/-! ### A source in gaps and tokens -/

/-- The kind and the lexeme of a piece, if it is a token. -/
def Piece.lexeme? : Piece → Option (TokenKind × String)
  | token kind lexeme => some (kind, lexeme)
  | _ => none

/-- A source falls into gaps and the texts of these tokens. -/
def FallsInto (source : List Char) (ts : List (TokenKind × String)) : Prop :=
  ∃ cuts, Divides source cuts ∧ (∀ cut ∈ cuts, cut.Fits .strict) ∧
    cuts.filterMap (Piece.lexeme? ·.piece) = ts

section Parts

variable {kind : TokenKind} {lexeme : String} {ts : List (TokenKind × String)}
  {text rest blanks remark : List Char}

theorem fallsInto_nil : FallsInto [] [] :=
  ⟨[], rfl, List.forall_mem_nil _, rfl⟩

theorem FallsInto.of_gap (h : GapText text rest) (hrest : FallsInto rest ts) :
    FallsInto (text ++ rest) ts := by
  obtain ⟨cuts, hdivides, hfits, hts⟩ := hrest
  exact ⟨⟨.gap, text, rest⟩ :: cuts, ⟨rfl, hdivides⟩, List.forall_mem_cons.mpr ⟨h, hfits⟩, hts⟩

theorem FallsInto.of_token (h : TokenText kind lexeme text rest) (hrest : FallsInto rest ts) :
    FallsInto (text ++ rest) ((kind, lexeme) :: ts) := by
  obtain ⟨cuts, hdivides, hfits, rfl⟩ := hrest
  exact ⟨⟨.token kind lexeme, text, rest⟩ :: cuts, ⟨rfl, hdivides⟩,
    List.forall_mem_cons.mpr ⟨h, hfits⟩, rfl⟩

theorem FallsInto.of_blanks {least : ℕ} (h : Blanks least blanks) (hrest : FallsInto rest ts) :
    FallsInto (blanks ++ rest) ts := by
  obtain ⟨-, hblanks⟩ := h
  induction blanks with
  | nil => exact hrest
  | cons c blanks ih =>
    obtain ⟨hc, hblanks⟩ := List.forall_mem_cons.mp hblanks
    have hblank : GapText [c] (blanks ++ rest) := .blank hc
    have hcons := FallsInto.of_gap hblank (ih hblanks)
    exact hcons

theorem FallsInto.of_remark (h : Remark remark) (hend : remark ≠ [] → Breaks (· != '\n') rest)
    (hrest : FallsInto rest ts) : FallsInto (remark ++ rest) ts := by
  cases h with
  | none => exact hrest
  | comment hbody => exact FallsInto.of_gap (.comment hbody (hend (List.cons_ne_nil _ _))) hrest

end Parts

/-- A source that is written for tokens falls into their texts. The induction is on how it is
written. -/
theorem fallsInto_of_rendering {least : ℕ} {ts : List (TokenKind × String)} {cs : List Char}
    (h : Rendering least ts cs) : FallsInto cs ts := by
  induction h with
  | ending hblanks hremark =>
    refine FallsInto.of_blanks hblanks ?_
    have hend := FallsInto.of_remark hremark (fun _ _ hc => by cases hc) fallsInto_nil
    rwa [List.append_nil] at hend
  | token hblanks hremark hline htext hrest ih =>
    refine FallsInto.of_blanks hblanks (FallsInto.of_remark hremark ?_ ?_)
    · -- a comment ends with its line
      intro hne c hc
      obtain rfl := hline hne
      cases htext with
      | newline =>
        obtain rfl := Option.some.inj hc
        rfl
      | symbol h => cases h
      | keyword h =>
        unfold TokenKind.keyword? at h
        split at h <;> cases h
    · exact FallsInto.of_token (tokenText_of_spelling htext (separated_of_rendering hrest)) ih

theorem map_located {cuts : List Cut} : ∀ text : List Char,
    ((located text cuts).filterMap Piece.token?).map (fun t => (t.kind, t.lexeme))
      = cuts.filterMap (Piece.lexeme? ·.piece) := by
  induction cuts with
  | nil => exact fun _ => rfl
  | cons first cuts ih =>
    intro text
    rw [filterMap_located_cons, List.map_append, ih, List.filterMap_cons]
    cases first.piece <;> rfl

/-- What is written for a list of tokens is read as these tokens, whatever is written between them,
and no character of it is skipped or an error. -/
theorem tokenize_of_rendering {ts : List (TokenKind × String)} {source : String}
    (h : Rendering 0 ts source.toList) (mode : LexMode) :
    ∃ lexed, tokenize mode source = .ok lexed ∧ lexed.skipped = #[] ∧
      lexed.tokens.toList.map (fun t => (t.kind, t.lexeme)) = ts ++ [(.eof, "")] := by
  obtain ⟨cuts, hdivides, hfits, rfl⟩ := fallsInto_of_rendering h
  obtain ⟨lexed, hrun, hskipped, htokens⟩ := tokenize_of_divides hdivides hfits mode
  refine ⟨lexed, hrun, Array.toList_inj.mp hskipped, ?_⟩
  rw [htokens, List.map_append, map_located]
  rfl

/-- A literal with a mark in it, a comment at the end of its line, and one at the end of the
source. -/
theorem tokenize_of_rendering_of_two_lines :
    let source := "s =\t\"a\\\"\" # c\n let\r#"
    let ts : List (TokenKind × String) := [(.identifier, "s"), (.assign, "="), (.string, "a\""),
      (.newline, "\\n"), (.letWord, "let")]
    Rendering 0 ts source.toList ∧ ∀ mode, ∃ lexed, tokenize mode source = .ok lexed ∧
      lexed.skipped = #[] ∧
      lexed.tokens.toList.map (fun t => (t.kind, t.lexeme)) = ts ++ [(.eof, "")] := by
  intro source ts
  have hspace : Blanks 1 [' '] := ⟨le_refl _, by simp⟩
  have htab : Blanks 1 ['\t'] := ⟨le_refl _, by simp⟩
  have hend : Rendering 1 [] (['\r'] ++ ['#']) :=
    .ending ⟨Nat.zero_le _, by simp⟩ (.comment List.not_mem_nil)
  have hlet : Rendering 1 [(.letWord, "let")] ([' '] ++ ([] ++ ("let".toList ++ _))) :=
    .token hspace .none (absurd rfl) (.keyword rfl) hend
  have hline : Rendering 1 ((.newline, "\\n") :: _) ([' '] ++ ("# c".toList ++ (['\n'] ++ _))) :=
    .token hspace (.comment (by decide)) (fun _ => rfl) .newline hlet
  have hstring :
      Rendering 1 ((.string, "a\"") :: _) (['\t'] ++ ([] ++ ("\"a\\\"\"".toList ++ _))) :=
    .token htab .none (absurd rfl) (.string ['a', '"']) hline
  have hassign : Rendering 1 ((.assign, "=") :: _) ([' '] ++ ([] ++ ("=".toList ++ _))) :=
    .token hspace .none (absurd rfl) (.symbol rfl) hstring
  have hname : Spelling .identifier (String.ofList ['s']) ['s'] :=
    .name rfl (List.forall_mem_nil _) rfl
  have hwhole : Rendering 0 ts ([] ++ ([] ++ (['s'] ++ _))) :=
    .token ⟨le_refl _, List.forall_mem_nil _⟩ .none (absurd rfl) hname hassign
  have hsource : Rendering 0 ts source.toList := by simpa [source] using hwhole
  exact ⟨hsource, tokenize_of_rendering hsource⟩

end StackScript
