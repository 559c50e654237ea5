import Mathlib.Data.Prod.Lex
import StackScript.Proofs.SourceDivision

/-!
The two modes of the lexer.

A source falls into the same pieces in both modes. They differ only at a character that begins
nothing: the lenient mode goes on behind it as behind a blank, and the strict mode ends there. With
a space in the place of each such character a source has the same tokens in the strict mode that it
had in the lenient one, at the same positions: no token gets longer or shorter where a space has
come to stand behind it.

* `blanked`: a source with spaces in the place of some of its characters, which are given with their
  positions;
* `Position.key`: positions in the order of the text, with `key_lt_advance`;
* `blankedPieces`: the pieces, with a space for each character that begins nothing;
* `fits_blankedPieces`, `tokens_blankedPieces`, `blankedFrom_eq`: they are pieces of the strict
  mode, of the same tokens, and of the source with spaces;
* `tokenize_strict_of_lenient`: what the strict mode makes of a source, and of that with spaces.
-/

namespace StackScript

/-- A text, whose first character stands at a position, with a space in the place of each marked
character. -/
def blankedFrom (marked : List (Char × Position)) : Position → List Char → List Char
  | _, [] => []
  | p, c :: cs => (if (c, p) ∈ marked then ' ' else c) :: blankedFrom marked (p.advance c) cs

/-- A source with a space in the place of each marked character. -/
def blanked (marked : List (Char × Position)) (source : String) : String :=
  String.ofList (blankedFrom marked .start source.toList)

/-! ### Positions in order -/

/-- Positions are compared by line, and within a line by column. -/
def Position.key (p : Position) : ℕ ×ₗ ℕ :=
  toLex (p.line, p.column)

theorem Position.key_lt_advance (p : Position) (c : Char) : p.key < (p.advance c).key := by
  unfold key advance
  rw [Prod.Lex.toLex_lt_toLex]
  split
  · exact .inl (Nat.lt_succ_self _)
  · exact .inr ⟨rfl, Nat.lt_succ_self _⟩

theorem Position.key_le_advanceBy (text : List Char) :
    ∀ p : Position, p.key ≤ (p.advanceBy text).key := by
  induction text with
  | nil => exact fun p => le_refl _
  | cons c cs ih => exact fun p => (p.key_lt_advance c).le.trans (ih (p.advance c))

theorem Position.key_le_behind (text added : List Char) :
    (behind text).key ≤ (behind (text ++ added)).key := by
  rw [← advanceBy_behind]
  exact key_le_advanceBy added _

/-- Every character that is skipped behind a text stands behind that text. -/
theorem key_le_of_skipped (cuts : List Cut) (text : List Char) :
    ∀ s ∈ (located text cuts).filterMap Piece.skipped?,
      (Position.behind text).key ≤ s.2.key := by
  rintro ⟨c, p⟩ hs
  obtain ⟨before, -, -, -, rfl, -⟩ := exists_cut_of_skipped hs
  exact Position.key_le_behind text before

/-- A text stays as it is where nothing in it is marked. -/
theorem blankedFrom_append {marked : List (Char × Position)} (rest : List Char) (text : List Char) :
    ∀ p : Position, (∀ s ∈ marked, s.2.key < p.key ∨ (p.advanceBy text).key ≤ s.2.key) →
      blankedFrom marked p (text ++ rest) = text ++ blankedFrom marked (p.advanceBy text) rest := by
  induction text with
  | nil => exact fun p _ => rfl
  | cons c cs ih =>
    intro p hmarked
    have hnext := p.key_lt_advance c
    have hunmarked : (c, p) ∉ marked := by
      intro hmem
      rcases hmarked _ hmem with h | h
      · exact lt_irrefl _ h
      · exact absurd (h.trans_lt hnext) (Position.key_le_advanceBy cs _).not_gt
    rw [List.cons_append, blankedFrom, if_neg hunmarked, ih]
    · rfl
    · intro s hs
      exact (hmarked s hs).imp_left fun h => h.trans hnext

/-! ### Spaces for characters that begin nothing -/

/-- The text that pieces cover. -/
def covered (cuts : List Cut) : List Char :=
  cuts.flatMap (·.text)

theorem covered_cons (first : Cut) (cuts : List Cut) :
    covered (first :: cuts) = first.text ++ covered cuts :=
  List.flatMap_cons

theorem covered_of_divides {cuts : List Cut} :
    ∀ {cs : List Char}, Divides cs cuts → covered cuts = cs := by
  induction cuts with
  | nil =>
    intro cs h
    exact h.symm
  | cons first cuts ih =>
    intro cs h
    rw [covered_cons, ih h.2, h.1]

/-- The piece in front of another rest, with a space if it is a character that begins nothing. -/
def Cut.blanked (cut : Cut) (rest : List Char) : Cut :=
  match cut.piece with
  | .stray _ => ⟨.gap, [' '], rest⟩
  | piece => ⟨piece, cut.text, rest⟩

/-- The pieces, with a space for each character that begins nothing. -/
def blankedPieces : List Cut → List Cut
  | [] => []
  | cut :: cuts => cut.blanked (covered (blankedPieces cuts)) :: blankedPieces cuts

theorem Cut.rest_blanked (cut : Cut) (rest : List Char) : (cut.blanked rest).rest = rest := by
  unfold blanked
  split <;> rfl

theorem divides_blankedPieces (cuts : List Cut) :
    Divides (covered (blankedPieces cuts)) (blankedPieces cuts) := by
  induction cuts with
  | nil => rfl
  | cons first cuts ih =>
    rw [blankedPieces, covered_cons, Divides, Cut.rest_blanked]
    exact ⟨rfl, ih⟩

/-- One text begins as another one does, or with a space where that does not begin with a line
feed. -/
def HeadKept (rest rest' : List Char) : Prop :=
  rest'.head? = rest.head? ∨ rest'.head? = some ' ' ∧ ∃ c, rest.head? = some c ∧ c ≠ '\n'

section Pieces

variable {mode : LexMode} {first : Cut} {cuts : List Cut} {cs text text' rest rest' : List Char}

theorem Breaks.of_headKept {p : Char → Bool} (h : Breaks p rest) (hp : p ' ' = false)
    (hkept : HeadKept rest rest') : Breaks p rest' := by
  intro c hc
  rw [Option.mem_def] at hc
  rcases hkept with hsame | ⟨hspace, -⟩
  · exact h c (hsame ▸ hc)
  · obtain rfl := Option.some.inj (hspace.symm.trans hc)
    exact hp

theorem GapText.of_headKept (h : GapText text rest) (hkept : HeadKept rest rest') :
    GapText text rest' := by
  cases h with
  | blank h => exact .blank h
  | comment hbody hrest =>
    refine .comment hbody ?_
    rcases hkept with hsame | ⟨-, c, hc, hne⟩
    · rwa [Breaks, hsame]
    · -- a comment goes on up to a line feed, where no space is put
      exact absurd (hrest c hc) (by simpa using hne)

theorem TokenText.of_headKept {kind : TokenKind} {lexeme : String}
    (h : TokenText kind lexeme text rest) (hkept : HeadKept rest rest') :
    TokenText kind lexeme text rest' := by
  refine h.of_breaks (fun p hspace _ hbreaks => hbreaks.of_headKept hspace hkept) ?_
  rintro - rfl
  rcases hkept with hsame | ⟨-, c, hc, -⟩
  · exact List.head?_eq_none_iff.mp hsame
  · cases hc

/-- What begins nothing is no line feed. -/
theorem BeginsNothing.ne_newline {c : Char} (h : BeginsNothing (c :: cs)) : c ≠ '\n' := by
  rintro rfl
  exact (h ['\n'] cs rfl).2 _ _ .newline

theorem fits_blanked (h : first.Fits mode) (hkept : HeadKept first.rest rest) :
    (first.blanked rest).Fits .strict := by
  rw [Cut.Fits] at h
  rw [Cut.blanked]
  cases hpiece : first.piece with
  | gap =>
    rw [hpiece] at h
    exact GapText.of_headKept h hkept
  | token kind lexeme =>
    rw [hpiece] at h
    exact TokenText.of_headKept h hkept
  | stray c => exact GapText.blank (.inl rfl)

theorem headKept_blankedPieces (hdivides : Divides cs cuts)
    (hfits : ∀ cut ∈ cuts, cut.Fits mode) : HeadKept cs (covered (blankedPieces cuts)) := by
  cases cuts with
  | nil =>
    left
    rw [show cs = [] from hdivides]
    rfl
  | cons first cuts =>
    have hfirst := hfits first List.mem_cons_self
    rw [blankedPieces, covered_cons, hdivides.1, Cut.blanked]
    obtain ⟨c, text, htext⟩ := List.exists_cons_of_ne_nil hfirst.text_ne_nil
    rw [Cut.Fits] at hfirst
    cases hpiece : first.piece with
    | gap => left; rw [htext]; rfl
    | token kind lexeme => left; rw [htext]; rfl
    | stray d =>
      rw [hpiece] at hfirst
      obtain ⟨-, hd, hnothing⟩ := hfirst
      rw [hd]
      exact .inr ⟨rfl, d, rfl, hnothing.ne_newline⟩

theorem fits_blankedPieces (hdivides : Divides cs cuts) (hfits : ∀ cut ∈ cuts, cut.Fits mode) :
    ∀ cut ∈ blankedPieces cuts, cut.Fits .strict := by
  induction cuts generalizing cs with
  | nil => exact List.forall_mem_nil _
  | cons first cuts ih =>
    obtain ⟨hfirst, hcuts⟩ := List.forall_mem_cons.mp hfits
    refine List.forall_mem_cons.mpr ⟨?_, ih hdivides.2 hcuts⟩
    exact fits_blanked hfirst (headKept_blankedPieces hdivides.2 hcuts)

/-- A space takes as much of its line as the character in whose place it stands. -/
theorem behind_blanked (h : first.Fits mode) (htext : Position.behind text' = .behind text)
    (rest : List Char) :
    Position.behind (text' ++ (first.blanked rest).text) = .behind (text ++ first.text) := by
  rw [← Position.advanceBy_behind, ← Position.advanceBy_behind, htext, Cut.blanked]
  rw [Cut.Fits] at h
  cases hpiece : first.piece with
  | gap => rfl
  | token kind lexeme => rfl
  | stray c =>
    rw [hpiece] at h
    obtain ⟨-, hc, hnothing⟩ := h
    rw [hc]
    show Position.advance _ ' ' = Position.advance _ c
    rw [Position.advance, Position.advance, if_neg (by decide), if_neg hnothing.ne_newline]

theorem tokens_blankedPieces (hfits : ∀ cut ∈ cuts, cut.Fits mode) :
    ∀ {text text' : List Char}, Position.behind text' = .behind text →
      (located text' (blankedPieces cuts)).filterMap Piece.token?
        = (located text cuts).filterMap Piece.token? := by
  induction cuts with
  | nil => exact fun _ => rfl
  | cons first cuts ih =>
    intro text text' htext
    obtain ⟨hfirst, hcuts⟩ := List.forall_mem_cons.mp hfits
    rw [blankedPieces, filterMap_located_cons, filterMap_located_cons,
      ih hcuts (behind_blanked hfirst htext _), htext, Cut.blanked]
    cases first.piece <;> rfl

theorem behind_covered_blankedPieces (hfits : ∀ cut ∈ cuts, cut.Fits mode) :
    ∀ {text text' : List Char}, Position.behind text' = .behind text →
      Position.behind (text' ++ covered (blankedPieces cuts)) = .behind (text ++ covered cuts) := by
  induction cuts with
  | nil =>
    intro text text' htext
    rw [blankedPieces, covered, List.flatMap_nil, List.append_nil, List.append_nil, htext]
  | cons first cuts ih =>
    intro text text' htext
    obtain ⟨hfirst, hcuts⟩ := List.forall_mem_cons.mp hfits
    rw [blankedPieces, covered_cons, covered_cons, ← List.append_assoc, ← List.append_assoc]
    exact ih hcuts (behind_blanked hfirst htext _)

/-- The characters that begin nothing are those in whose place a space is put, if the characters
marked before them all stand before the text. The induction is on the pieces. -/
theorem blankedFrom_eq {marked : List (Char × Position)} (hfits : ∀ cut ∈ cuts, cut.Fits mode) :
    ∀ {cs : List Char} (text : List Char) (early : List (Char × Position)), Divides cs cuts →
      marked = early ++ (located text cuts).filterMap Piece.skipped? →
      (∀ s ∈ early, s.2.key < (Position.behind text).key) →
      blankedFrom marked (.behind text) cs = covered (blankedPieces cuts) := by
  induction cuts with
  | nil =>
    intro cs text early hdivides _ _
    rw [show cs = [] from hdivides]
    rfl
  | cons first cuts ih =>
    intro cs text early hdivides hmarked hearly
    obtain ⟨hfirst, hcuts⟩ := List.forall_mem_cons.mp hfits
    rw [filterMap_located_cons] at hmarked
    rw [hdivides.1, blankedPieces, covered_cons, Cut.blanked]
    have hpositions := key_le_of_skipped cuts (text ++ first.text)
    have hnext := Position.key_le_behind text first.text
    rw [Cut.Fits] at hfirst
    cases hpiece : first.piece with
    | stray c =>
      rw [hpiece] at hmarked hfirst
      obtain ⟨-, hc, -⟩ := hfirst
      rw [hc] at hmarked ⊢
      have hmem : (c, Position.behind text) ∈ marked := by
        rw [hmarked]
        exact List.mem_append_right _ List.mem_cons_self
      have hrest := ih hcuts (text ++ [c]) (early ++ [(c, .behind text)]) hdivides.2
        (by rw [hmarked, List.append_assoc]; rfl)
      rw [List.singleton_append, List.singleton_append, blankedFrom, if_pos hmem,
        Position.advance_behind, hrest]
      have hlt := Position.key_lt_advance (.behind text) c
      rw [Position.advance_behind] at hlt
      intro s hs
      rcases List.mem_append.mp hs with hs | hs
      · exact (hearly s hs).trans hlt
      · rw [List.mem_singleton.mp hs]
        exact hlt
    | _ =>
      rw [hpiece] at hmarked
      have hrest := ih hcuts (text ++ first.text) early hdivides.2 hmarked
        fun s hs => (hearly s hs).trans_le hnext
      rw [blankedFrom_append, Position.advanceBy_behind, hrest]
      intro s hs
      rw [Position.advanceBy_behind]
      rw [hmarked, List.mem_append] at hs
      exact hs.imp (hearly s) (hpositions s)

end Pieces

/-! ### Both modes -/

/-- The strict mode has the tokens of a source where each character that begins nothing has been
replaced by a space. -/
theorem tokenize_blanked {mode : LexMode} {source : String} {cuts : List Cut}
    {marked : List (Char × Position)} (hdivides : Divides source.toList cuts)
    (hfits : ∀ cut ∈ cuts, cut.Fits mode)
    (hmarked : marked = (located [] cuts).filterMap Piece.skipped?) :
    ∃ lexed, tokenize .strict (blanked marked source) = .ok lexed ∧ lexed.skipped.toList = [] ∧
      lexed.tokens.toList = (located [] cuts).filterMap Piece.token?
        ++ [⟨.eof, "", .behind source.toList⟩] := by
  -- the source with spaces falls into the pieces with spaces
  have hblanked : (blanked marked source).toList = covered (blankedPieces cuts) := by
    rw [blanked, String.toList_ofList]
    exact blankedFrom_eq hfits [] [] hdivides hmarked (List.forall_mem_nil _)
  have hdivides' := divides_blankedPieces cuts
  rw [← hblanked] at hdivides'
  obtain ⟨lexed, hrun, hskipped, htokens⟩ :=
    tokenize_of_divides hdivides' (fits_blankedPieces hdivides hfits) .strict
  have hend : Position.behind ([] ++ covered (blankedPieces cuts))
      = .behind ([] ++ covered cuts) := behind_covered_blankedPieces hfits rfl
  rw [List.nil_append, List.nil_append, ← hblanked, covered_of_divides hdivides] at hend
  rw [tokens_blankedPieces hfits rfl, hend] at htokens
  exact ⟨lexed, hrun, hskipped, htokens⟩

/-- The lenient mode always has tokens. The strict mode has the same ones if no character is
skipped, and ends at the first one that is; and it has the same ones again, at the same positions,
where each of these characters has been replaced by a space. -/
theorem tokenize_strict_of_lenient (source : String) :
    ∃ lexed, tokenize .lenient source = .ok lexed ∧
      tokenize .strict source = (match lexed.skipped.toList with
        | [] => .ok lexed
        | (c, p) :: _ => .error (.unexpectedCharacter c p)) ∧
      tokenize .strict (blanked lexed.skipped.toList source)
        = .ok { tokens := lexed.tokens, skipped := #[] } := by
  have hdivides := divides_pieces source.toList
  have hfits : ∀ cut ∈ pieces source.toList, cut.Fits .lenient :=
    fun cut hcut => fits_pieces _ cut hcut fun _ _ => rfl
  have hlenient := scan_eq .lenient [] source.toList {}
  have hstrict := scan_eq .strict [] source.toList {}
  generalize hcuts : pieces source.toList = cuts at hdivides hfits hlenient hstrict
  generalize hlexed : (Lexed.addAll {} (located [] cuts)).add
    (.token .eof "", .behind ([] ++ source.toList)) = lexed at hlenient hstrict
  have hskipped : lexed.skipped.toList = (located [] cuts).filterMap Piece.skipped? := by
    rw [← hlexed, Lexed.skipped_add, Lexed.skipped_addAll]
    simp [Piece.skipped?]
  have htokens : lexed.tokens.toList = (located [] cuts).filterMap Piece.token?
      ++ [⟨.eof, "", .behind source.toList⟩] := by
    rw [← hlexed, Lexed.tokens_add, Lexed.tokens_addAll]
    rfl
  refine ⟨lexed, hlenient, ?_, ?_⟩
  · rw [hskipped]
    refine hstrict.trans ?_
    cases (located [] cuts).filterMap Piece.skipped? <;> rfl
  · obtain ⟨lexed', hrun, hskipped', htokens'⟩ := tokenize_blanked hdivides hfits hskipped
    rw [← htokens] at htokens'
    rw [hrun, Except.ok.injEq]
    obtain ⟨tokens', skipped'⟩ := lexed'
    rw [show tokens' = lexed.tokens from Array.toList_inj.mp htokens',
      show skipped' = #[] from Array.toList_inj.mp hskipped']

end StackScript
