import StackScript.Proofs.SourcePieces

/-!
A source falls into pieces in one way.

Wherever a source is divided into texts that fit, these are the pieces that are cut off it one by
one. So it is enough to divide a source somehow to know what all its tokens are, and which character
is the first that begins nothing.

* `cut_eq_of_fits`, `eq_pieces_of_divides`: pieces that fit are the pieces of the source;
* `skipped_of_fits`: where every piece is allowed in both modes, no character is skipped;
* `tokenize_of_divides`: the tokens of a source that has been divided.
-/

namespace StackScript

/-! ### The only division -/

theorem Cut.Fits.text_ne_nil {mode : LexMode} {first : Cut} (h : first.Fits mode) :
    first.text ≠ [] := by
  rw [Fits] at h
  cases hpiece : first.piece with
  | gap =>
    rw [hpiece] at h
    exact GapText.ne_nil h
  | token kind lexeme =>
    rw [hpiece] at h
    exact TokenText.ne_nil h
  | stray c =>
    rw [hpiece] at h
    rw [h.2.1]
    exact List.cons_ne_nil _ _

/-- A piece that fits is the one that is cut off. -/
theorem cut_eq_of_fits {mode : LexMode} {first : Cut} {c : Char} {cs : List Char}
    (h : first.Fits mode) (hwhole : first.text ++ first.rest = c :: cs) : cut c cs = first := by
  obtain ⟨piece, text, rest⟩ := first
  cases piece with
  | gap => exact cut_eq_of_gapText h hwhole
  | token kind lexeme => exact cut_eq_of_tokenText h hwhole
  | stray d =>
    obtain ⟨-, htext, hnothing⟩ := h
    replace htext : text = [d] := htext
    subst htext
    replace hwhole : d :: rest = c :: cs := hwhole
    obtain ⟨rfl, rfl⟩ := List.cons.inj hwhole
    have hcut : (cut d rest).Fits .lenient := fits_cut fun _ _ => rfl
    have hsource := cut_text_append_rest d rest
    have hnot := hnothing _ _ hsource.symm
    -- neither a gap nor a token is cut off
    generalize cut d rest = other at hcut hsource hnot ⊢
    obtain ⟨piece, text, rest'⟩ := other
    cases piece with
    | gap => exact absurd hcut hnot.1
    | token kind lexeme => exact absurd hcut (hnot.2 kind lexeme)
    | stray e =>
      obtain ⟨-, htext, -⟩ := hcut
      replace htext : text = [e] := htext
      subst htext
      replace hsource : e :: rest' = d :: rest := hsource
      obtain ⟨rfl, rfl⟩ := List.cons.inj hsource
      rfl

theorem eq_pieces_of_divides {mode : LexMode} {cuts : List Cut} :
    ∀ {cs : List Char}, Divides cs cuts → (∀ cut ∈ cuts, cut.Fits mode) → cuts = pieces cs := by
  induction cuts with
  | nil =>
    intro cs hdivides _
    rw [Divides] at hdivides
    rw [hdivides, pieces]
  | cons first cuts ih =>
    intro cs hdivides hfits
    obtain ⟨hwhole, hrest⟩ := hdivides
    rw [List.forall_mem_cons] at hfits
    obtain ⟨hfirst, hcuts⟩ := hfits
    obtain ⟨c, cs, rfl⟩ : ∃ c ds, cs = c :: ds := by
      rw [hwhole]
      exact List.exists_cons_of_ne_nil (List.append_ne_nil_of_left_ne_nil hfirst.text_ne_nil _)
    rw [pieces, cut_eq_of_fits hfirst hwhole.symm, ← ih hrest hcuts]

/-! ### Its tokens -/

/-- Where every piece is allowed in both modes, no character is skipped. -/
theorem skipped_of_fits {cuts : List Cut} (hfits : ∀ cut ∈ cuts, cut.Fits .strict) :
    ∀ text, (located text cuts).filterMap Piece.skipped? = [] := by
  induction cuts with
  | nil => exact fun _ => rfl
  | cons first cuts ih =>
    intro text
    obtain ⟨hfirst, hcuts⟩ := List.forall_mem_cons.mp hfits
    rw [filterMap_located_cons, ih hcuts]
    rw [Cut.Fits] at hfirst
    cases hpiece : first.piece with
    | gap => rfl
    | token kind lexeme => rfl
    | stray c =>
      rw [hpiece] at hfirst
      cases hfirst.1

/-- A source that is divided without characters to be skipped has the tokens of this division. -/
theorem tokenize_of_divides {source : String} {cuts : List Cut}
    (hdivides : Divides source.toList cuts) (hfits : ∀ cut ∈ cuts, cut.Fits .strict)
    (mode : LexMode) :
    ∃ lexed, tokenize mode source = .ok lexed ∧ lexed.skipped.toList = [] ∧
      lexed.tokens.toList = (located [] cuts).filterMap Piece.token?
        ++ [⟨.eof, "", .behind source.toList⟩] := by
  have hskipped := skipped_of_fits hfits []
  have hscan := scan_eq mode [] source.toList {}
  rw [← eq_pieces_of_divides hdivides hfits, hskipped] at hscan
  refine ⟨_, hscan.trans (by cases mode <;> rfl), ?_, ?_⟩
  · rw [Lexed.skipped_add, Lexed.skipped_addAll, hskipped]
    rfl
  · rw [Lexed.tokens_add, Lexed.tokens_addAll]
    rfl

end StackScript
