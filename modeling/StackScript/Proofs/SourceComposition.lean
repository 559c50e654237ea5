import StackScript.Proofs.InputComparison
import StackScript.Proofs.SourcePieces
import StackScript.Source

/-!
Sources one below the other.

A source that is a program stays one in front of a line feed and another source. Its last token may
stand anywhere before the line feed, and whatever the last statement leaves out (a semicolon, the
value of a return, an `else`) is not looked for in the source below. Only a string literal without a
closing mark would go on there. So the program of the two sources is both programs one after the
other, and an error in the lower source is the same one as many lines further down.

* `ClosesLiterals`: each string literal of a source has its closing mark;
* `scan_line`, `scan_move`: the pieces of a source in front of a line feed, and of one that begins
  elsewhere;
* `tokenize_lines`: the tokens of two sources one below the other;
* `parse_lines`: the program of such tokens;
* `programOf_lines`: the program of two sources one below the other.
-/

namespace StackScript

/-- The place a number of lines further down. -/
def Position.below (n : Nat) (p : Position) : Position :=
  ⟨p.line + n, p.column⟩

/-- The error at another place. -/
def LexError.move (f : Position → Position) : LexError → LexError
  | unexpectedCharacter c p => unexpectedCharacter c (f p)

/-- The error at another place, if it has one. -/
def ScriptError.move (f : Position → Position) : ScriptError → ScriptError
  | lexical e => lexical (e.move f)
  | syntactic e => syntactic (e.move f)
  | runtime e => runtime e

/-! ### Pieces in front of a line feed -/

/-- The piece is a string literal. -/
def Piece.isLiteral : Piece → Bool
  | token .string _ => true
  | _ => false

/-- If the piece is a string literal, it has its closing mark. -/
def Cut.ClosesLiteral (cut : Cut) : Prop :=
  cut.piece.isLiteral = true →
    ∃ text value, LiteralText text value ∧ cut.text = '"' :: (text ++ ['"'])

/-- Each string literal of the source has its closing mark. -/
inductive ClosesLiterals : List Char → Prop where
  | nil : ClosesLiterals []
  | cons {c : Char} {cs : List Char} (h : (cut c cs).ClosesLiteral)
    (hrest : ClosesLiterals (cut c cs).rest) : ClosesLiterals (c :: cs)

/-- The text behind an opening mark goes on to a closing mark, and no further. -/
def endsAtMark : List Char → Bool
  | [] => false
  | c :: cs =>
    if c = '"' then cs.isEmpty
    else if c = '\\' then
      match cs with
      | [] => false
      | _ :: ds => endsAtMark ds
    else endsAtMark cs

theorem endsAtMark_of_literalText {text value : List Char} (h : LiteralText text value) :
    endsAtMark (text ++ ['"']) = true := by
  induction h with
  | nil => rfl
  | plain hmark hescape _ ih =>
    rw [List.cons_append, endsAtMark.eq_def]
    simpa [hmark, hescape] using ih
  | escaped c _ ih => simpa [endsAtMark] using ih

theorem exists_literalText_of_endsAtMark {cs : List Char} (h : endsAtMark cs = true) :
    ∃ text value, LiteralText text value ∧ cs = text ++ ['"'] := by
  fun_induction endsAtMark cs with
  | case1 => cases h
  | case2 cs => exact ⟨[], [], .nil, by simpa using h⟩
  | case3 => cases h
  | case4 d ds hmark ih =>
    obtain ⟨text, value, hvalue, rfl⟩ := ih h
    exact ⟨_, _, .escaped d hvalue, rfl⟩
  | case5 c cs hmark hescape ih =>
    obtain ⟨text, value, hvalue, rfl⟩ := ih h
    exact ⟨_, _, .plain hmark hescape hvalue, rfl⟩

theorem closed_literal_iff {cs : List Char} :
    cs.head? = some '"' ∧ endsAtMark cs.tail = true ↔
      ∃ text value, LiteralText text value ∧ cs = '"' :: (text ++ ['"']) := by
  constructor
  · rintro ⟨hhead, htail⟩
    obtain ⟨text, value, hvalue, htext⟩ := exists_literalText_of_endsAtMark htail
    exact ⟨text, value, hvalue, by rw [← htext, List.cons_head?_tail hhead]⟩
  · rintro ⟨text, value, hvalue, rfl⟩
    exact ⟨rfl, endsAtMark_of_literalText hvalue⟩

instance (cut : Cut) : Decidable cut.ClosesLiteral :=
  decidable_of_iff (cut.piece.isLiteral = true →
    cut.text.head? = some '"' ∧ endsAtMark cut.text.tail = true)
    (forall_congr' fun _ => closed_literal_iff)

theorem closesLiterals_cons {c : Char} {cs : List Char} :
    ClosesLiterals (c :: cs) ↔ (cut c cs).ClosesLiteral ∧ ClosesLiterals (cut c cs).rest :=
  ⟨fun | .cons h hrest => ⟨h, hrest⟩, fun h => .cons h.1 h.2⟩

instance decidableClosesLiterals : (cs : List Char) → Decidable (ClosesLiterals cs)
  | [] => isTrue .nil
  | c :: cs =>
    have := decidableClosesLiterals (cut c cs).rest
    decidable_of_iff _ closesLiterals_cons.symm
termination_by cs => cs.length
decreasing_by exact cut_rest_length_lt c cs

section Pieces

variable {mode : LexMode} {p : Char → Bool} {c : Char} {cs text rest more : List Char}

theorem Breaks.append_newline (h : Breaks p rest) (hp : p '\n' = false) :
    Breaks p (rest ++ '\n' :: more) := by
  cases rest with
  | nil =>
    intro c hc
    obtain rfl := Option.some.inj hc
    exact hp
  | cons d rest => exact h

theorem GapText.append_newline (h : GapText text rest) : GapText text (rest ++ '\n' :: more) := by
  cases h with
  | blank h => exact .blank h
  | comment hbody hrest => exact .comment hbody (hrest.append_newline (by decide))

theorem TokenText.append_newline {kind : TokenKind} {lexeme : String}
    (h : TokenText kind lexeme text rest) (hkind : kind ≠ .string) :
    TokenText kind lexeme text (rest ++ '\n' :: more) :=
  h.of_breaks (fun _ _ hp hrest => hrest.append_newline hp) fun h => absurd h hkind

/-- A character that begins nothing still begins nothing if no equality sign comes to stand behind
it. -/
theorem cut_of_stray {d : Char} (h : (cut c cs).piece = .stray d) (more : List Char) :
    cut c (cs ++ '\n' :: more) = ⟨.stray d, [c], cs ++ '\n' :: more⟩ := by
  by_cases hblank : isBlank c = true
  · rw [cut.eq_def, if_pos hblank] at h
    cases h
  by_cases hcomment : c = '#'
  · rw [cut.eq_def, if_neg hblank, if_pos hcomment] at h
    cases h
  by_cases hnewline : c = '\n'
  · rw [cut.eq_def, if_neg hblank, if_neg hcomment, if_pos hnewline] at h
    cases h
  by_cases hdigit : c.isDigit = true
  · rw [cut_number hdigit] at h
    cases h
  by_cases hmark : c = '"'
  · rw [hmark, cut_string] at h
    cases h
  by_cases hname : opensName c = true
  · rw [cut_word hname] at h
    cases h
  rw [cut.eq_def, if_neg hblank, if_neg hcomment, if_neg hnewline, if_neg hdigit, if_neg hmark,
    if_neg hname] at h ⊢
  split at h
  · cases h
  · cases h
  · cases h
  · cases h
  · next c cs _ _ _ hassign hequal hbang hnone =>
    obtain rfl := Piece.stray.inj h
    cases cs with
    | nil => split <;> simp_all
    | cons e cs => split <;> simp_all

/-- The first piece of a source ends before a line feed that is put behind the source. -/
theorem cut_append_newline (h : (cut c cs).ClosesLiteral) (more : List Char) :
    cut c (cs ++ '\n' :: more)
      = ⟨(cut c cs).piece, (cut c cs).text, (cut c cs).rest ++ '\n' :: more⟩ := by
  have hwhole := cut_text_append_rest c cs
  have hlonger : (cut c cs).text ++ ((cut c cs).rest ++ '\n' :: more) = c :: (cs ++ '\n' :: more) := by
    rw [← List.append_assoc, hwhole, List.cons_append]
  have hfits : (cut c cs).Fits .lenient := fits_cut fun _ _ => rfl
  rw [Cut.Fits] at hfits
  cases hpiece : (cut c cs).piece with
  | gap =>
    rw [hpiece] at hfits
    exact cut_eq_of_gapText (GapText.append_newline hfits) hlonger
  | token kind lexeme =>
    rw [hpiece] at hfits
    by_cases hkind : kind = .string
    · -- a literal goes on to its closing mark, whatever stands behind it
      subst hkind
      obtain ⟨body, value, hvalue, htext⟩ := h (by rw [hpiece]; rfl)
      rw [htext] at hwhole hlonger ⊢
      have hcut := cut_eq_of_tokenText (.string hvalue) hwhole
      rw [hcut] at hpiece
      rw [← hpiece]
      exact cut_eq_of_tokenText (.string hvalue) hlonger
    · exact cut_eq_of_tokenText (TokenText.append_newline hfits hkind) hlonger
  | stray d =>
    rw [hpiece] at hfits
    obtain ⟨-, htext, -⟩ := hfits
    rw [htext] at hwhole hlonger ⊢
    have hrest : (cut c cs).rest = cs := (List.cons.inj hwhole).2
    obtain rfl : d = c := (List.cons.inj hwhole).1
    rw [hrest]
    exact cut_of_stray hpiece more

end Pieces

/-! ### Scans -/

/-- No token of a source ends the input. -/
theorem TokenText.ne_eof {kind : TokenKind} {lexeme : String} {text rest : List Char}
    (h : TokenText kind lexeme text rest) : kind ≠ .eof := by
  rintro rfl
  cases h with
  | symbol h => cases h
  | word _ _ _ hkind =>
    obtain hkind | ⟨-, hkind⟩ := hkind
    · unfold TokenKind.keyword? at hkind
      split at hkind <;> cases hkind
    · cases hkind

/-- What is done elsewhere, and then all that is done here. -/
def Lexed.after (l : Lexed) (f : Position → Position) (done : Lexed) : Lexed where
  tokens := l.tokens ++ done.tokens.map (·.move f)
  skipped := l.skipped ++ done.skipped.map fun s => (s.1, f s.2)

section Scans

variable {mode : LexMode} {p : Position} {cs more : List Char} {done lexed : Lexed}
  {f : Position → Position}

theorem Lexed.after_add (l done : Lexed) (piece : Piece) (p : Position) :
    (l.after f done).add (piece, f p) = l.after f (done.add (piece, p)) := by
  cases piece with
  | gap => rfl
  | token kind lexeme => simp [after, add, Token.move]
  | stray c => simp [after, add]

theorem Position.advanceBy_move (hf : ∀ p c, f (Position.advance p c) = (f p).advance c)
    (text : List Char) : (f p).advanceBy text = f (p.advanceBy text) := by
  induction text generalizing p with
  | nil => rfl
  | cons c cs ih =>
    have hcs := ih (p := p.advance c)
    rw [hf] at hcs
    exact hcs

/-- A scan does not depend on where the source begins, nor on what has been done before it. -/
theorem scan_move (hf : ∀ p c, f (Position.advance p c) = (f p).advance c) (l : Lexed)
    (p : Position) (cs : List Char) (done : Lexed) :
    scan mode (f p) cs (l.after f done)
      = ((scan mode p cs done).map (l.after f)).mapError (LexError.move f) := by
  cases cs with
  | nil =>
    rw [scan, scan]
    exact congrArg Except.ok (Lexed.after_add l done (.token .eof "") p)
  | cons c cs =>
    rw [scan_cons, scan_cons, Position.advanceBy_move hf]
    generalize (cut c cs).piece = piece
    have ih := scan_move hf l (p.advanceBy (cut c cs).text) (cut c cs).rest (done.add (piece, p))
    split
    · rfl
    · rw [Lexed.after_add]
      exact ih
termination_by cs.length
decreasing_by exact cut_rest_length_lt _ _

/-- In front of a line feed a source is scanned as it is alone, and the scan goes on behind the line
feed instead of ending the input. -/
theorem scan_line (more : List Char) (hclosed : ClosesLiterals cs)
    (h : scan mode p cs done = .ok lexed) :
    ∃ done' : Lexed, lexed = done'.add (.token .eof "", p.advanceBy cs) ∧
      scan mode p (cs ++ '\n' :: more) done
        = scan mode ((p.advanceBy cs).advance '\n') more
            (done'.add (.token .newline "\\n", p.advanceBy cs)) := by
  induction hclosed generalizing p done with
  | nil =>
    rw [scan] at h
    obtain rfl := Except.ok.inj h
    refine ⟨done, rfl, ?_⟩
    rw [List.nil_append, scan_cons]
    rfl
  | @cons c cs hcut _ ih =>
    rw [List.cons_append, scan_cons, cut_append_newline hcut]
    rw [scan_cons] at h
    have hstep : p.advanceBy (c :: cs) = (p.advanceBy (cut c cs).text).advanceBy (cut c cs).rest := by
      rw [← cut_text_append_rest c cs]
      exact List.foldl_append
    rw [hstep]
    generalize (cut c cs).piece = piece at h ⊢
    split at h
    · cases h
    · next hstray =>
      obtain ⟨done', hlexed, hrest⟩ := ih h
      refine ⟨done', hlexed, ?_⟩
      rw [← hrest]

end Scans

/-! ### Tokens -/

section Tokens

variable {mode : LexMode} {cuts : List Cut} {lexed : Lexed}

theorem ne_eof_of_mem_located (hfits : ∀ cut ∈ cuts, cut.Fits mode) (text : List Char) :
    ∀ t ∈ (located text cuts).filterMap Piece.token?, t.kind ≠ .eof := by
  intro t ht
  obtain ⟨before, cut, hcut, hpiece, -⟩ := exists_cut_of_token ht
  have htext := hfits cut hcut
  rw [Cut.Fits, hpiece] at htext
  exact TokenText.ne_eof htext

/-- The end of the input is the last token, and no other. -/
theorem tokenize_ended {source : String} (h : tokenize mode source = .ok lexed) :
    ∃ ts, lexed.tokens.toList = ts ++ [⟨.eof, "", .behind source.toList⟩] ∧
      ∀ t ∈ ts, t.kind ≠ .eof := by
  obtain ⟨cuts, -, hfits, htokens, -⟩ := scan_pieces [] source.toList {} h
  exact ⟨_, by simpa using htokens, ne_eof_of_mem_located hfits []⟩

/-- How many lines the second of two sources comes to stand below its own first one. -/
def linesOf (source : String) : Nat :=
  1 + source.toList.count '\n'

/-- The tokens of two sources one below the other: those of the first without its end, a line feed,
and those of the second. -/
theorem tokenize_lines {s₁ : String} (s₂ : String) (hclosed : ClosesLiterals s₁.toList)
    (h : tokenize mode s₁ = .ok lexed) :
    ∃ (ts : List Token) (last newline : Token), lexed.tokens.toList = ts ++ [last] ∧
      (∀ t ∈ ts, t.kind ≠ .eof) ∧ last.kind = .eof ∧ newline.kind = .newline ∧
      (tokenize mode (s₁ ++ "\n" ++ s₂)).map (·.tokens.toList)
        = ((tokenize mode s₂).map fun l =>
            ts ++ newline :: l.tokens.toList.map (·.move (.below (linesOf s₁)))).mapError
          (LexError.move (.below (linesOf s₁))) := by
  obtain ⟨ts, htokens, hts⟩ := tokenize_ended h
  obtain ⟨done, hlexed, hscan⟩ := scan_line s₂.toList hclosed h
  have hp : Position.advanceBy .start s₁.toList = .behind s₁.toList :=
    Position.advanceBy_behind [] s₁.toList
  rw [hp] at hlexed hscan
  subst hlexed
  have hdone : done.tokens.toList = ts := by
    rw [Lexed.tokens_add] at htokens
    exact (List.append_inj' htokens rfl).1
  refine ⟨ts, _, ⟨.newline, "\\n", .behind s₁.toList⟩, htokens, hts, rfl, rfl, ?_⟩
  have hstart : (Position.behind s₁.toList).advance '\n' = Position.below (linesOf s₁) .start := by
    rw [Position.advance_behind, Position.behind, Position.below, Position.start, linesOf]
    simp [Nat.add_comm]
  have hadvance : ∀ p c, Position.below (linesOf s₁) (p.advance c)
      = (Position.below (linesOf s₁) p).advance c := by
    intro p c
    unfold Position.advance Position.below
    split
    · simp only [Position.mk.injEq, and_true]
      omega
    · rfl
  have hsource : (s₁ ++ "\n" ++ s₂).toList = s₁.toList ++ '\n' :: s₂.toList := by simp
  generalize hfirst : done.add _ = first at hscan
  have hafter : first.after (.below (linesOf s₁)) {} = first := by simp [Lexed.after]
  have hfirst : first.tokens.toList = ts ++ [⟨.newline, "\\n", .behind s₁.toList⟩] := by
    rw [← hfirst, Lexed.tokens_add, hdone]
    rfl
  rw [tokenize, hsource, hscan, hstart, ← hafter, scan_move hadvance, tokenize]
  cases scan mode .start s₂.toList {} with
  | error e => rfl
  | ok l =>
    show Except.ok (first.after _ l).tokens.toList = Except.ok _
    rw [Lexed.after, Array.toList_append, Array.toList_map, hfirst, List.append_assoc]
    rfl

end Tokens

/-! ### Programs -/

namespace Parser

section Programs

variable {f : Position → Position} {last : Token} {ending : List Token} {n : Nat}
  {item item' : Production Node}

theorem closed_append_eof (ts : List Token) {last : Token} (h : last.kind = .eof) :
    closed (ts ++ [last]) = ts ++ [last] := by
  rw [closed, List.getLast?_append, List.getLast?_singleton]
  exact if_pos h

theorem alike_append {ts : List Token} (h : ∀ t ∈ ts, t.kind ≠ .eof) :
    Alike f last ending (ts ++ [last]) (ts.map (·.move f) ++ ending) := by
  induction ts with
  | nil => exact .ends
  | cons t ts ih =>
    rw [List.forall_mem_cons] at h
    exact .cons h.1 (ih h.2)

theorem map_fst_cons (a : Node) (r : Except SyntaxError (List Node × List Token)) :
    Except.map (·.1) (r >>= fun q => .ok (a :: q.1, q.2)) = (r.map (·.1)).map (a :: ·) := by
  cases r <;> rfl

/-- Statements up to the end of the input are the same ones elsewhere. -/
theorem manyUntil_eof_move (hend : Ending f last ending) (heof : (next ending).kind = .eof)
    (hitem : Compares f last ending (AlikeAfter f last ending) n 1 item item') :
    ∀ (bound bound' : Nat) {ts us : List Token}, Alike f last ending ts us → ts.length ≤ n →
      ts.length ≤ bound → ts.length ≤ bound' →
      (manyUntil .eof item' bound' us).map (·.1)
        = ((manyUntil .eof item bound ts).map (·.1)).mapError (SyntaxError.move f) := by
  intro bound
  induction bound with
  | zero =>
    intro bound' ts us halike _ hts
    exact absurd (List.length_eq_zero_iff.mp (by omega)) halike.ne_nil
  | succ bound ih =>
    intro bound' ts us halike hlength hts hts'
    have hpos := List.length_pos_iff.mpr halike.ne_nil
    obtain ⟨bound', rfl⟩ : ∃ m, bound' = m + 1 := ⟨bound' - 1, by omega⟩
    have hfirst := hitem ts us halike hlength
    rw [manyUntil_succ, manyUntil_succ]
    cases halike with
    | ends =>
      rw [if_pos heof, if_pos (show (next [last]).kind = .eof from hend.eof)]
      rfl
    | @cons t ts us ht halike =>
      rw [if_neg (show (next (t :: ts)).kind ≠ .eof from ht),
        if_neg (show (next (t.move f :: us)).kind ≠ .eof from ht)]
      generalize item (t :: ts) = r at hfirst ⊢
      generalize item' (t.move f :: us) = r' at hfirst ⊢
      cases hfirst with
      | failed h =>
        obtain rfl | h := h
        · rfl
        · exact nomatch h.symm.trans heof
      | @value a rest rest' hrest hle =>
        obtain hrest | ⟨hnewline, -, -⟩ := hrest
        · have hrec := ih bound' hrest (by omega) (by omega) (by omega)
          show Except.map _ (manyUntil .eof item' bound' rest' >>= fun q => .ok (a :: q.1, q.2))
            = Except.mapError _ (Except.map _ (manyUntil .eof item bound rest >>= fun q =>
                .ok (a :: q.1, q.2)))
          rw [map_fst_cons, map_fst_cons, hrec]
          cases Except.map (·.1) (manyUntil .eof item bound rest) <;> rfl
        · exact nomatch hnewline.symm.trans heof

/-- Statements up to the end of the input are followed by those below where it goes on. The lines do
not begin with a line feed, since each statement takes those behind it. -/
theorem manyUntil_eof_line (hnewline : (next ending).kind = .newline) (heof : last.kind = .eof)
    (hitem : Compares f last ending (AlikeAfter f last ending) n 1 item item')
    (hdrops : ∀ ts a rest, item' ts = .ok (a, rest) → (next rest).kind ≠ .newline) :
    ∀ (bound bound' : Nat) {ts us : List Token} {as : List Node} {rest : List Token},
      AlikeAfter f last ending ts us → (next us).kind ≠ .newline → ts.length ≤ n →
      ts.length ≤ bound' → manyUntil .eof item bound ts = .ok (as, rest) →
      ∃ m, bound' ≤ m + ts.length ∧ (manyUntil .eof item' bound' us).map (·.1)
        = ((manyUntil .eof item' m (ending.dropWhile (·.kind = .newline))).map (·.1)).map
          (as ++ ·) := by
  intro bound
  induction bound with
  | zero =>
    intro bound' ts us as rest _ _ _ _ hrun
    cases hrun
  | succ bound ih =>
    intro bound' ts us as rest halike hus hlength hts' hrun
    have hpos := List.length_pos_iff.mpr halike.ne_nil
    obtain ⟨bound', rfl⟩ : ∃ m, bound' = m + 1 := ⟨bound' - 1, by omega⟩
    rw [manyUntil_succ] at hrun
    obtain halike | ⟨-, rfl, rfl⟩ := halike
    · have hfirst := hitem ts us halike hlength
      cases halike with
      | ends => exact absurd hnewline hus
      | @cons t ts us ht halike =>
        rw [if_neg (show (next (t :: ts)).kind ≠ .eof from ht)] at hrun
        obtain ⟨⟨a, rest₁⟩, hrun₁, hrun⟩ := exists_of_bind_ok hrun
        obtain ⟨q, hq, hrun⟩ := exists_of_bind_ok hrun
        cases hrun
        rw [manyUntil_succ, if_neg (show (next (t.move f :: us)).kind ≠ .eof from ht)]
        have hdropped := hdrops (t.move f :: us)
        rw [hrun₁] at hfirst
        generalize item' (t.move f :: us) = r' at hfirst hdropped ⊢
        cases hfirst with
        | @value a rest₁ rest' hrest hle =>
          obtain ⟨m, hm, hsame⟩ := ih bound' hrest (hdropped a rest' rfl) (by omega) (by omega) hq
          refine ⟨m, by omega, ?_⟩
          show Except.map _ (manyUntil .eof item' bound' rest' >>= fun q => .ok (a :: q.1, q.2)) = _
          rw [map_fst_cons, hsame]
          cases Except.map (·.1) (manyUntil .eof item' m _) <;> rfl
    · -- the first input has ended
      rw [if_pos (show (next [last]).kind = .eof from heof)] at hrun
      cases hrun
      refine ⟨bound' + 1, Nat.le_add_right _ _, ?_⟩
      cases manyUntil .eof item' (bound' + 1) _ <;> rfl

theorem next_dropNewlines_ne (ts : List Token) :
    (next (ts.dropWhile (·.kind = .newline))).kind ≠ .newline := by
  have hhead := List.head?_dropWhile_not (fun t : Token => decide (t.kind = .newline)) ts
  rw [next, List.headD_eq_head?_getD]
  generalize (ts.dropWhile _).head? = t at hhead
  cases t with
  | none => decide
  | some t => simpa using hhead

theorem line_drops {ts rest : List Token} {a : Node} (h : line item ts = .ok (a, rest)) :
    (next rest).kind ≠ .newline := by
  have h : (item ts >>= fun r => Except.ok (r.1, r.2.dropWhile (·.kind = .newline)))
      = .ok (a, rest) := h
  obtain ⟨r, -, h⟩ := exists_of_bind_ok h
  cases h
  exact next_dropNewlines_ne r.2

theorem parse_eq {ts : List Token} {last : Token} (h : last.kind = .eof) :
    parse (ts ++ [last])
      = (manyUntil .eof (line (statement ((ts ++ [last]).length + 1) ((ts ++ [last]).length + 1)))
          ((ts ++ [last]).length + 1) ((ts ++ [last]).dropWhile (·.kind = .newline))).map (·.1) := by
  rw [parse, closed_append_eof ts h]
  rfl

theorem Alike.dropNewlines_of_eof {ts us : List Token} (hend : Ending f last ending)
    (heof : (next ending).kind = .eof) (h : Alike f last ending ts us) :
    Alike f last ending (ts.dropWhile (·.kind = .newline)) (us.dropWhile (·.kind = .newline)) := by
  obtain h | ⟨hnewline, -, -⟩ := h.dropNewlines hend
  · exact h
  · exact nomatch hnewline.symm.trans heof

/-- A program goes on behind a line feed. The run over both is compared with the one over the first
program up to the line feed, and from there on with the one over the second. -/
theorem parse_lines {ts us : List Token} {last newline last' : Token} {p₁ : Program}
    (hts : ∀ t ∈ ts, t.kind ≠ .eof) (hlast : last.kind = .eof) (hnewline : newline.kind = .newline)
    (hus : ∀ t ∈ us, t.kind ≠ .eof) (hlast' : last'.kind = .eof)
    (h : parse (ts ++ [last]) = .ok p₁) :
    parse (ts ++ newline :: (us ++ [last']).map (·.move f))
      = ((parse (us ++ [last'])).map (p₁ ++ ·)).mapError (SyntaxError.move f) := by
  have hlonger : ts ++ newline :: (us ++ [last']).map (·.move f)
      = (ts ++ newline :: us.map (·.move f)) ++ [last'.move f] := by simp
  rw [hlonger, parse_eq (show (last'.move f).kind = .eof from hlast'), ← hlonger, parse_eq hlast']
  rw [parse_eq hlast] at h
  -- the first program, up to the line feed
  have hend : Ending id last (newline :: (us ++ [last']).map (·.move f)) := ⟨hlast, .inr hnewline⟩
  have halike : Alike id last (newline :: (us ++ [last']).map (·.move f)) (ts ++ [last]) _ :=
    alike_append hts
  rw [show ts.map (·.move id) = ts from List.map_id ts] at halike
  have hsize : (ts ++ newline :: (us ++ [last']).map (·.move f)).length
      = (ts ++ [last]).length + (us ++ [last']).length := by simp; omega
  generalize (ts ++ newline :: (us ++ [last']).map (·.move f)).length = size at hsize ⊢
  generalize ts ++ newline :: (us ++ [last']).map (·.move f) = whole at halike ⊢
  have hitem := compares_line hend (compares_statement hend (n := (ts ++ [last]).length)
    (show (ts ++ [last]).length ≤ (ts ++ [last]).length + 1 by omega)
    (show (ts ++ [last]).length ≤ size + 1 by omega) ((ts ++ [last]).length + 1) (size + 1)
    (by omega) (by omega))
  generalize ts ++ [last] = first at *
  have hshort := length_dropNewlines_le first
  cases hrun : manyUntil .eof (line (statement (first.length + 1) (first.length + 1)))
      (first.length + 1) (first.dropWhile (·.kind = .newline)) with
  | error e =>
    rw [hrun] at h
    cases h
  | ok q =>
    rw [hrun] at h
    obtain rfl : q.1 = p₁ := Except.ok.inj h
    have hnext : (next (newline :: (us ++ [last']).map (·.move f))).kind = .newline := hnewline
    obtain ⟨m, hm, hsame⟩ := manyUntil_eof_line hnext hlast hitem (fun _ _ _ => line_drops) _
      (size + 1) (halike.dropNewlines hend) (next_dropNewlines_ne _) (by omega) (by omega) hrun
    -- the second program
    have hend' : Ending f last' [last'.move f] := ⟨hlast', .inl ⟨[], rfl⟩⟩
    have hitem' := compares_line hend' (compares_statement hend' (n := (us ++ [last']).length)
      (show (us ++ [last']).length ≤ (us ++ [last']).length + 1 by omega)
      (show (us ++ [last']).length ≤ size + 1 by omega) ((us ++ [last']).length + 1) (size + 1)
      (by omega) (by omega))
    have halike' : Alike f last' [last'.move f] (us ++ [last']) _ := alike_append hus
    have halike' := halike'.dropNewlines_of_eof hend' hlast'
    have hshort' := length_dropNewlines_le (us ++ [last'])
    have hmove := manyUntil_eof_move hend' hlast' hitem' ((us ++ [last']).length + 1) m halike'
      (by omega) (by omega) (by omega)
    rw [hsame, List.dropWhile_cons_of_pos (by simpa using hnewline), List.map_append,
      List.map_singleton, hmove]
    cases Except.map (·.1) (manyUntil .eof _ _ _) <;> rfl

end Programs

end Parser

/-! ### Sources -/

theorem programOf_eq (mode : LexMode) (source : String) :
    (Source.programOf mode source).1
      = ((tokenize mode source).map (·.tokens.toList)).mapError .lexical >>= fun ts =>
          (parse ts).mapError .syntactic := by
  rw [Source.programOf, Source.tokensOf]
  cases tokenize mode source <;> rfl

theorem programOf_append {mode : LexMode} {s₁ : String} (s₂ : String) {p₁ : Program}
    (h : (Source.programOf mode s₁).1 = .ok p₁) (hclosed : ClosesLiterals s₁.toList) :
    (Source.programOf mode (s₁ ++ "\n" ++ s₂)).1
      = ((Source.programOf mode s₂).1.map (p₁ ++ ·)).mapError
          (ScriptError.move (.below (linesOf s₁))) := by
  rw [programOf_eq] at h ⊢
  rw [programOf_eq]
  cases hfirst : tokenize mode s₁ with
  | error e =>
    rw [hfirst] at h
    cases h
  | ok lexed₁ =>
    obtain ⟨ts, last, newline, htokens, hts, hlast, hnewline, hlines⟩ :=
      tokenize_lines s₂ hclosed hfirst
    have hparse : parse (ts ++ [last]) = .ok p₁ := by
      rw [hfirst] at h
      have h : (parse lexed₁.tokens.toList).mapError ScriptError.syntactic = .ok p₁ := h
      rw [htokens] at h
      cases hp : parse (ts ++ [last]) with
      | error e =>
        rw [hp] at h
        cases h
      | ok p =>
        rw [hp] at h
        exact congrArg Except.ok (Except.ok.inj h)
    rw [hlines]
    cases hsecond : tokenize mode s₂ with
    | error e => rfl
    | ok lexed₂ =>
      obtain ⟨us, hus, hnot⟩ := tokenize_ended hsecond
      have hwhole := Parser.parse_lines (f := .below (linesOf s₁)) hts hlast hnewline hnot
        (show Token.kind ⟨.eof, "", .behind s₂.toList⟩ = .eof from rfl) hparse
      rw [← hus] at hwhole
      show (parse (ts ++ newline :: lexed₂.tokens.toList.map _)).mapError _
        = (((parse lexed₂.tokens.toList).mapError ScriptError.syntactic).map _).mapError _
      rw [hwhole]
      cases parse lexed₂.tokens.toList <;> rfl

/-- Sources compose at line boundaries. Below a source that is a program, and whose literals are
closed, another source means what it means alone: its program comes behind the first one, or its
error is the same one further down. -/
theorem programOf_lines {mode : LexMode} {s₁ s₂ : String} {p₁ : Program}
    (h : (Source.programOf mode s₁).1 = .ok p₁) (hclosed : ClosesLiterals s₁.toList) :
    (Source.programOf mode (s₁ ++ "\n" ++ s₂)).1 = match (Source.programOf mode s₂).1 with
      | .ok p₂ => .ok (p₁ ++ p₂)
      | .error e => .error (e.move (.below (linesOf s₁))) := by
  rw [programOf_append s₂ h hclosed]
  cases (Source.programOf mode s₂).1 <;> rfl

/-- A literal over two lines and a comment in front of a parenthesis that is not closed. -/
theorem programOf_lines_of_open_parenthesis :
    let s₁ := "return \"a\n\" # b"
    let e : SyntaxError := .unexpectedToken (.token .rightParen) .eof ⟨1, 3⟩
    (Source.programOf .strict s₁).1 = .ok [.ret (some (.string "a\n"))] ∧
      ClosesLiterals s₁.toList ∧
      (Source.programOf .strict "(x").1 = .error (.syntactic e) ∧
      (Source.programOf .strict (s₁ ++ "\n" ++ "(x")).1
        = .error (.syntactic (.unexpectedToken (.token .rightParen) .eof ⟨3, 3⟩)) := by
  intro s₁ e
  have h₁ : (Source.programOf .strict s₁).1 = .ok [.ret (some (.string "a\n"))] := by cbv
  have hclosed : ClosesLiterals s₁.toList := of_decide_eq_true (by cbv)
  have h₂ : (Source.programOf .strict "(x").1 = .error (.syntactic e) := by cbv
  have hlines : linesOf s₁ = 2 := by cbv
  refine ⟨h₁, hclosed, h₂, ?_⟩
  rw [programOf_lines h₁ hclosed, h₂, hlines]
  rfl

end StackScript
