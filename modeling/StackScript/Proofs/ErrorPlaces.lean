import Mathlib
import StackScript.Proofs.CorrectPrefix
import StackScript.Proofs.SourceComposition
import StackScript.Source

/-!
Errors are shown at the characters that they are about.

The lexer counts lines and columns as it goes through a source, and a diagnostic takes the line that
it shows from the whole source, by the number. Both go by line feeds. They differ at the end of a
line only: the line that is shown is without its carriage return, so that an error at the line feed
behind one has no column in it, and the caret stands one place further to the left.

* `lastLine`, `getElem?_splitOn`: the line of a place in a source, as a piece between line feeds;
* `sourceLine_eq`: the line that is shown is such a piece without its carriage return;
* `Shows`, `shows_behind`, `snippet_eq`: which line is shown for a place, and where the caret stands;
* `place_of_stray`, `place_of_token`, `names_of_parse`: characters that are not allowed and tokens
  stand at their positions, and an error of the parser is about a token;
* `ScriptError.PointsAt`: what stands at the place of an error;
* `program_error_shown`: the errors of a source, as they are printed.
-/

namespace StackScript

/-! ### Lines -/

/-- What stands behind the last line feed of a text. -/
def lastLine (text : List Char) : List Char :=
  (text.reverse.takeWhile (· != '\n')).reverse

/-- A line without the carriage return at its end. -/
def withoutReturn (line : List Char) : List Char :=
  if line.getLast? = some '\r' then line.dropLast else line

theorem breaks_newline (rest : List Char) : Breaks (· != '\n') ('\n' :: rest) := by
  rintro c ⟨⟩
  rfl

/-- A text up to its first line feed. -/
theorem takeWhile_newline {text : List Char} (h : '\n' ∉ text) (rest : List Char) :
    (text ++ '\n' :: rest).takeWhile (· != '\n') = text :=
  takeWhile_of_breaks (ne_newline_of_not_mem h) (breaks_newline rest)

theorem takeWhile_all {text : List Char} (h : '\n' ∉ text) :
    text.takeWhile (· != '\n') = text :=
  List.takeWhile_eq_self_iff.mpr (ne_newline_of_not_mem h)

theorem lastLine_of_not_mem {text : List Char} (h : '\n' ∉ text) : lastLine text = text := by
  rw [lastLine, takeWhile_all (by simpa using h), List.reverse_reverse]

/-- A text falls into what is above its last line, and this line. -/
theorem eq_append_lastLine {text : List Char} (h : '\n' ∈ text) :
    ∃ above, text = above ++ '\n' :: lastLine text := by
  obtain ⟨l, r, hsplit, hnot⟩ := List.eq_append_cons_of_mem (List.mem_reverse.mpr h)
  have htext : text = r.reverse ++ '\n' :: l.reverse := by
    rw [← List.reverse_reverse text, hsplit]
    simp
  exact ⟨r.reverse, by rwa [lastLine, hsplit, takeWhile_newline hnot]⟩

theorem not_mem_lastLine (text : List Char) : '\n' ∉ lastLine text := by
  intro h
  rw [lastLine, List.mem_reverse] at h
  exact absurd (List.mem_takeWhile_imp h) (by decide)

theorem length_splitOn (cs : List Char) : (cs.splitOn '\n').length = cs.count '\n' + 1 := by
  induction cs with
  | nil => rfl
  | cons c cs ih =>
    rw [List.splitOn_cons_eq_if_modifyHead, List.count_cons]
    by_cases hc : (c == '\n') = true
    · rw [if_pos hc, if_pos hc, List.length_cons, ih]
    · rw [if_neg hc, if_neg hc, List.length_modifyHead, ih]

/-- The first piece of a text ends before the first line feed. -/
theorem getElem?_zero_splitOn (cs : List Char) :
    (cs.splitOn '\n')[0]? = some (cs.takeWhile (· != '\n')) := by
  by_cases h : '\n' ∈ cs
  · obtain ⟨l, r, rfl, hnot⟩ := List.eq_append_cons_of_mem h
    rw [List.splitOn_append_cons_self_of_not_mem hnot, takeWhile_newline hnot]
    rfl
  · rw [List.splitOn_eq_singleton h, takeWhile_all h]
    rfl

/-- The piece with a given place in it: what stands before the place in its line, and what stands
behind it. -/
theorem getElem?_splitOn (before rest : List Char) :
    ((before ++ rest).splitOn '\n')[before.count '\n']?
      = some (lastLine before ++ rest.takeWhile (· != '\n')) := by
  have hline : ∀ line : List Char, '\n' ∉ line →
      ((line ++ rest).splitOn '\n')[0]? = some (line ++ rest.takeWhile (· != '\n')) := by
    intro line hnot
    rw [getElem?_zero_splitOn, List.takeWhile_append_of_pos (ne_newline_of_not_mem hnot)]
  by_cases h : '\n' ∈ before
  · obtain ⟨above, habove⟩ := eq_append_lastLine h
    have hcount : before.count '\n' = (above.splitOn '\n').length := by
      rw [habove, List.count_append, List.count_cons_self,
        List.count_eq_zero_of_not_mem (not_mem_lastLine before), length_splitOn]
    have hsplit : (before ++ rest).splitOn '\n'
        = above.splitOn '\n' ++ (lastLine before ++ rest).splitOn '\n' := by
      conv_lhs => rw [habove]
      rw [List.append_assoc, List.cons_append, List.splitOn_append_cons_self]
    rw [hsplit, hcount, List.getElem?_append_right (Nat.le_refl _), Nat.sub_self,
      hline _ (not_mem_lastLine before)]
  · rw [List.count_eq_zero_of_not_mem h, lastLine_of_not_mem h, hline before h]

/-- A line of a source is the piece with its index; all pieces but the last are ended by a line feed,
and lose the carriage return before it. -/
theorem sourceLine_eq (cs : List Char) (n : Nat) :
    sourceLine cs n = match (cs.splitOn '\n')[n]? with
      | some line => if n + 1 < (cs.splitOn '\n').length then withoutReturn line else line
      | none => [] := by
  induction n generalizing cs with
  | zero =>
    have hfirst : sourceLine cs 0 = firstLine cs := by cases cs <;> rfl
    rw [hfirst, firstLine, getElem?_zero_splitOn]
    by_cases h : '\n' ∈ cs
    · have hlong : 0 + 1 < (cs.splitOn '\n').length := by
        have := List.count_pos_iff.mpr h
        rw [length_splitOn]
        omega
      simp only [if_pos hlong, withoutReturn, List.contains_iff_mem.mpr h, Bool.true_and,
        decide_eq_true_eq]
    · simp [List.splitOn_eq_singleton h, h]
  | succ n ih =>
    by_cases h : '\n' ∈ cs
    · obtain ⟨l, r, rfl, hnot⟩ := List.eq_append_cons_of_mem h
      have hrest : afterFirstLine (l ++ '\n' :: r) = r := by
        rw [afterFirstLine, dropWhile_of_breaks (ne_newline_of_not_mem hnot) (breaks_newline r)]
        rfl
      have hnext : sourceLine (l ++ '\n' :: r) (n + 1) = sourceLine r n := by
        rw [sourceLine, hrest]
        simp
      rw [hnext, ih, List.splitOn_append_cons_self_of_not_mem hnot, List.getElem?_cons_succ,
        List.length_cons]
      simp only [Nat.add_lt_add_iff_right]
    · have hrest : afterFirstLine cs = [] := by
        rw [afterFirstLine, List.dropWhile_eq_nil_iff.mpr (ne_newline_of_not_mem h)]
        rfl
      rw [List.splitOn_eq_singleton h]
      cases cs with
      | nil => rfl
      | cons c cs =>
        rw [sourceLine, hrest, sourceLine]
        · rfl
        · exact List.cons_ne_nil c cs

/-! ### The line that is shown, and the caret -/

/-- The place is at the line feed of a line that ends with a carriage return and a line feed. -/
def AtReturn (before rest : List Char) : Prop :=
  before.getLast? = some '\r' ∧ rest.head? = some '\n'

/-- How a place in a source is shown: the line of its position is a piece between line feeds, and is
shown without the carriage return before the line feed; the caret stands in the column of the
position, or directly behind the line where this has no such column. -/
structure Shows (before rest shown : List Char) (caret : Nat) : Prop where
  line : ∃ line, ((before ++ rest).splitOn '\n')[(Position.behind before).line - 1]? = some line ∧
    shown = if (Position.behind before).line < ((before ++ rest).splitOn '\n').length
      then withoutReturn line else line
  column : ¬ AtReturn before rest → caret = (Position.behind before).column - 1
  behind : AtReturn before rest → caret = shown.length ∧
    caret + 2 = (Position.behind before).column

theorem column_behind (before : List Char) :
    (Position.behind before).column = (lastLine before).length + 1 := by
  rw [lastLine, List.length_reverse]
  exact Nat.add_comm _ _

theorem line_behind (before : List Char) :
    (Position.behind before).line = before.count '\n' + 1 :=
  Nat.add_comm _ _

/-- There is another line behind a place if there is a line feed. -/
theorem line_behind_lt (before rest : List Char) :
    (Position.behind before).line < ((before ++ rest).splitOn '\n').length ↔ '\n' ∈ rest := by
  rw [line_behind, length_splitOn, List.count_append, ← List.count_pos_iff]
  omega

theorem getLast?_lastLine {before : List Char} :
    (lastLine before).getLast? = some '\r' ↔ before.getLast? = some '\r' := by
  rw [lastLine, List.getLast?_reverse, List.head?_takeWhile, List.head?_reverse,
    Option.filter_eq_some_iff]
  exact ⟨And.left, fun h => ⟨h, rfl⟩⟩

theorem length_le_withoutReturn (line : List Char) :
    line.length ≤ (withoutReturn line).length + 1 := by
  unfold withoutReturn
  split
  · rw [List.length_dropLast]
    omega
  · exact Nat.le_succ _

/-- The line that is shown has the column of the place, unless that is the line feed behind a
carriage return. -/
theorem length_lastLine_le {before rest : List Char} (h : ¬ AtReturn before rest)
    (hmore : '\n' ∈ rest) : (lastLine before).length
      ≤ (withoutReturn (lastLine before ++ rest.takeWhile (· != '\n'))).length := by
  obtain ⟨text, more, rfl, hnot⟩ := List.eq_append_cons_of_mem hmore
  rw [takeWhile_newline hnot]
  cases text with
  | nil =>
    have hreturn : (lastLine before).getLast? ≠ some '\r' := fun hlast =>
      h ⟨getLast?_lastLine.mp hlast, rfl⟩
    rw [List.append_nil, withoutReturn, if_neg hreturn]
  | cons c text =>
    have hlength := length_le_withoutReturn (lastLine before ++ c :: text)
    rw [List.length_append, List.length_cons] at hlength
    omega

/-- Every place in a source is shown that way. -/
theorem shows_behind (before rest : List Char) :
    let p := Position.behind before
    let shown := sourceLine (before ++ rest) (p.line - 1)
    Shows before rest shown (min (p.column - 1) shown.length) := by
  intro p shown
  have hpiece := getElem?_splitOn before rest
  have hline : p.line - 1 = before.count '\n' := by
    rw [line_behind, Nat.add_sub_cancel]
  have hshown : shown = if p.line < ((before ++ rest).splitOn '\n').length
      then withoutReturn (lastLine before ++ rest.takeWhile (· != '\n'))
      else lastLine before ++ rest.takeWhile (· != '\n') := by
    have hsource := sourceLine_eq (before ++ rest) (before.count '\n')
    rw [hpiece] at hsource
    rw [← line_behind] at hsource
    show sourceLine (before ++ rest) (p.line - 1) = _
    rw [hline]
    exact hsource
  refine ⟨⟨_, by rw [hline]; exact hpiece, hshown⟩, fun hat => ?_, fun hat => ?_⟩
  · rw [column_behind, Nat.add_sub_cancel]
    refine Nat.min_eq_left ?_
    rw [hshown]
    split
    · next hmore => exact length_lastLine_le hat ((line_behind_lt before rest).mp hmore)
    · rw [List.length_append]
      exact Nat.le_add_right _ _
  · -- the carriage return is the last character of the line, and is not shown
    obtain ⟨more, rfl⟩ := List.head?_eq_some_iff.mp hat.2
    have hlast := getLast?_lastLine.mpr hat.1
    have hmore := (line_behind_lt before ('\n' :: more)).mpr List.mem_cons_self
    have hlength : shown.length = (lastLine before).length - 1 := by
      rw [hshown, if_pos hmore, List.takeWhile_cons_of_neg (by decide), List.append_nil,
        withoutReturn, if_pos hlast, List.length_dropLast]
    have hpos : 0 < (lastLine before).length :=
      List.length_pos_iff.mpr (List.ne_nil_of_mem (List.mem_of_getLast? hlast))
    rw [column_behind, Nat.add_sub_cancel]
    omega

/-! ### The text of a diagnostic -/

/-- So many spaces. -/
def blanks (n : Nat) : String :=
  String.ofList (List.replicate n ' ')

/-- The snippet of a diagnostic, with the line that is shown and the spaces in front of the caret. -/
def drawn (p : Position) (shown : List Char) (caret : Nat) : String :=
  let number := toString p.line
  let gutter := blanks number.length
  gutter ++ " |\n"
    ++ number ++ " | " ++ String.ofList shown ++ "\n"
    ++ gutter ++ " | " ++ blanks caret ++ "^\n"

theorem spaces_eq (n : Nat) : Diagnostic.spaces n = blanks n := by
  rw [Diagnostic.spaces, padLeft, String.append_empty]
  rfl

theorem snippet_eq {source : String} {before rest : List Char}
    (h : source.toList = before ++ rest) : ∃ shown caret, Shows before rest shown caret ∧
      Diagnostic.snippet source (.behind before) = drawn (.behind before) shown caret := by
  refine ⟨_, _, shows_behind before rest, ?_⟩
  rw [Diagnostic.snippet, spaces_eq, spaces_eq, h]
  rfl

/-! ### What stands at the place of an error -/

section Places

variable {mode : LexMode} {source : String}

/-- A character that is not allowed stands at the position that is reported. -/
theorem place_of_stray {c : Char} {p : Position}
    (h : tokenize mode source = .error (.unexpectedCharacter c p)) :
    ∃ before rest, source.toList = before ++ c :: rest ∧ p = .behind before := by
  have hrun := scan_eq mode [] source.toList {}
  rw [show scan mode (.behind []) source.toList {} = _ from h] at hrun
  split at hrun
  · next d q hhead =>
    cases hrun
    obtain ⟨before, cut, hcut, hpiece, rfl, hsplit⟩ :=
      exists_cut_of_skipped (List.mem_of_head? hhead)
    -- a piece that begins nothing is a single character, in whichever mode
    have hfits : cut.Fits .lenient := fits_pieces _ cut hcut fun _ _ => rfl
    rw [Cut.Fits, hpiece] at hfits
    refine ⟨before, cut.rest, ?_, rfl⟩
    rw [hsplit _ (divides_pieces source.toList), hfits.2.1, List.singleton_append]
  · cases hrun

/-- A token of a source stands at its position: its text does, or, for the end of the input, nothing
any more. -/
theorem place_of_token {lexed : Lexed} {t : Token} (h : tokenize mode source = .ok lexed)
    (ht : t ∈ lexed.tokens.toList) :
    ∃ before rest, source.toList = before ++ rest ∧ t.position = .behind before ∧
      (t.kind = .eof ∧ rest = [] ∨
        ∃ text more, rest = text ++ more ∧ TokenText t.kind t.lexeme text more) := by
  obtain ⟨cuts, hdivides, hfits, htokens, -⟩ := scan_pieces [] source.toList {} h
  rw [htokens, List.mem_append, List.mem_singleton] at ht
  obtain ht | rfl := ht
  · obtain ⟨before, cut, hcut, hpiece, hp, hsplit⟩ := exists_cut_of_token ht
    have htext := hfits cut hcut
    rw [Cut.Fits, hpiece] at htext
    exact ⟨before, _, hsplit _ hdivides, hp, .inr ⟨cut.text, cut.rest, rfl, htext⟩⟩
  · exact ⟨source.toList, [], (List.append_nil _).symm, rfl, .inl ⟨rfl, rfl⟩⟩

/-- An error of the parser is about one of the tokens. -/
theorem names_of_parse {lexed : Lexed} {e : SyntaxError} (h : tokenize mode source = .ok lexed)
    (hparse : parse lexed.tokens.toList = .error e) : ∃ t ∈ lexed.tokens.toList, e.Names t := by
  obtain ⟨ts, htokens, -⟩ := tokenize_ended h
  have hfeed := Parser.feedAll_of_parse lexed.tokens.toList
  rw [hparse, htokens, Parser.closed_append_eof ts rfl] at hfeed
  obtain ⟨before, t, after, stack, hsplit, -, hstuck⟩ := Parser.feedAll_error hfeed
  refine ⟨t, ?_, Parser.names_of_feed hstuck⟩
  rw [htokens, hsplit]
  exact List.mem_append_right _ List.mem_cons_self

end Places

theorem SyntaxError.Names.position_eq {e : SyntaxError} {t : Token} (h : e.Names t) :
    e.position = t.position := by
  cases e with
  | unexpectedToken expected found p => exact h.2
  | invalidNumber lexeme p => exact h.2.2

/-- What the error of a source is about: a character in front of the rest of the source, or a token
whose text is there, or the end of the input where nothing is left. -/
def ScriptError.PointsAt (mode : LexMode) (source : String) (p : Position) (rest : List Char) :
    ScriptError → Prop
  | .lexical e => ∃ c, e = .unexpectedCharacter c p ∧ rest.head? = some c
  | .syntactic e => ∃ lexed, tokenize mode source = .ok lexed ∧
      ∃ t ∈ lexed.tokens.toList, e.Names t ∧ t.position = p ∧
        (t.kind = .eof ∧ rest = [] ∨
          ∃ text more, rest = text ++ more ∧ TokenText t.kind t.lexeme text more)
  | .runtime _ => False

/-- The stages before a run fail at a place in the source, and at what stands there. -/
theorem exists_place_of_programOf {mode : LexMode} {source : String} {e : ScriptError}
    (h : (Source.programOf mode source).1 = .error e) (filename : String) :
    ∃ before rest, source.toList = before ++ rest ∧
      (e.diagnostic filename).position = some (.behind before) ∧
      e.PointsAt mode source (.behind before) rest := by
  rw [programOf_eq] at h
  cases htokens : tokenize mode source with
  | error e' =>
    rw [htokens] at h
    obtain rfl := Except.error.inj h
    obtain ⟨c, p⟩ := e'
    obtain ⟨before, rest, hplace, rfl⟩ := place_of_stray htokens
    exact ⟨before, c :: rest, hplace, rfl, c, rfl, rfl⟩
  | ok lexed =>
    rw [htokens] at h
    have h : (parse lexed.tokens.toList).mapError ScriptError.syntactic = .error e := h
    cases hparse : parse lexed.tokens.toList with
    | ok program =>
      rw [hparse] at h
      cases h
    | error e' =>
      rw [hparse] at h
      obtain rfl := Except.error.inj h
      obtain ⟨t, ht, hnames⟩ := names_of_parse htokens hparse
      obtain ⟨before, rest, hplace, hposition, hstands⟩ := place_of_token htokens ht
      refine ⟨before, rest, hplace, ?_, lexed, htokens, t, ht, hnames, hposition, hstands⟩
      rw [← hposition, ← hnames.position_eq]
      rfl

/-! ### Errors of a source -/

/-- The stages before a run fail at a place in the source, and the error is about what stands there:
a character that is not allowed, a token, or the end. It is printed with the line of this place, and
with a caret in its column. -/
theorem program_error_shown {s : Source} {e : ScriptError} {notices : List Notice}
    (h : s.program = (.error e, notices)) :
    ∃ before rest shown caret,
      let p := Position.behind before
      let d := e.diagnostic s.filename
      s.text.toList = before ++ rest ∧ d.position = some p ∧ e.PointsAt s.mode s.text p rest ∧
      Shows before rest shown caret ∧
      e.format s.text s.filename
        = "error[" ++ d.kind.shown ++ "]: " ++ d.message ++ "\n"
          ++ ("  --> " ++ s.filename ++ s!":{p.line}:{p.column}\n" ++ drawn p shown caret)
          ++ d.help.elim "" fun help => "help: " ++ help ++ "\n" := by
  obtain ⟨before, rest, hplace, hposition, hpoints⟩ :=
    exists_place_of_programOf (congrArg Prod.fst h) s.filename
  obtain ⟨shown, caret, hshows, hsnippet⟩ := snippet_eq hplace
  refine ⟨before, rest, shown, caret, hplace, hposition, hpoints, hshows, ?_⟩
  have hfile : (e.diagnostic s.filename).filename = s.filename := by cases e <;> rfl
  have hnotes : (e.diagnostic s.filename).notes = [] := by cases e <;> rfl
  have hplaced : (e.diagnostic s.filename).place s.text
      = "  --> " ++ s.filename
        ++ s!":{(Position.behind before).line}:{(Position.behind before).column}\n"
        ++ drawn (.behind before) shown caret := by
    rw [Diagnostic.place, hposition, hfile, ← hsnippet]
  rw [ScriptError.format, Diagnostic.format, hplaced, hnotes, List.map_nil, String.join_nil,
    String.append_empty]
  cases (e.diagnostic s.filename).help <;> rfl

/-- A parenthesis is not closed before the end of a line, which is a carriage return and a line feed. -/
theorem program_error_shown_of_open_parenthesis :
    let s : Source := { text := "x = (y\r\nz", filename := "a.cdx" }
    let e := ScriptError.syntactic (.unexpectedToken (.token .rightParen) .newline ⟨1, 8⟩)
    s.program = (.error e, []) ∧
      ∃ before rest shown caret, s.text.toList = before ++ rest ∧
        Position.behind before = ⟨1, 8⟩ ∧ e.PointsAt .lenient s.text ⟨1, 8⟩ rest ∧
        Shows before rest shown caret := by
  intro s e
  have hprogram : s.program = (.error e, []) := by cbv
  obtain ⟨before, rest, shown, caret, hplace, hposition, hpoints, hshows, -⟩ :=
    program_error_shown hprogram
  have hp : Position.behind before = ⟨1, 8⟩ := (Option.some.inj hposition).symm
  rw [hp] at hpoints
  exact ⟨hprogram, before, rest, shown, caret, hplace, hp, hpoints, hshows⟩

/-- The caret stands behind the line, one place to the left of the column. -/
example : (ScriptError.syntactic (.unexpectedToken (.token .rightParen) .newline ⟨1, 8⟩)).format
    "x = (y\r\nz" "a.cdx" = "error[parse]: expected ')', found newline at line 1\n" ++
      "  --> a.cdx:1:8\n  |\n1 | x = (y\n  |       ^\n" := by
  decide +kernel

end StackScript
