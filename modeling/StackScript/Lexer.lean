import StackScript.Text.Escaped
import StackScript.Token

/-!
From source text to tokens.

The source is cut from the left into pieces, each of at least one character: a gap (blank or
comment), the text of one token, or a stray character that starts no token. The pieces put together
again are the source, so nothing is lost and every position follows from the text before it.

* `Piece`, `Cut`: a piece with its text and what is left of the source; `cut` takes the first one;
* `LexMode`: whether a stray character is skipped (and recorded) or ends the scan with an error;
* `tokenize`: all tokens of a source, closed by an end-of-input token;
* `cut_text_append_rest`, `cut_rest_length_lt`: a cut loses no character and always advances.

Design notes: a string literal has no escapes with a meaning. A backslash stands for the character
after it, whatever that is, and the literal ends at the first quotation mark without a backslash,
or at the end of the source.
-/

namespace StackScript

/-- What becomes of a character that starts no token. -/
inductive LexMode where
  /-- It is skipped. -/
  | lenient
  /-- It is an error. -/
  | strict
deriving DecidableEq

/-- Why a source has no tokens. -/
inductive LexError where
  /-- In strict mode, a character that starts no token. -/
  | unexpectedCharacter (c : Char) (position : Position)
deriving DecidableEq

namespace LexError

/-- Where the error is. -/
def position : LexError → Position
  | unexpectedCharacter _ p => p

/-- The error in words. -/
def message : LexError → String
  | unexpectedCharacter c p =>
    "unexpected character " ++ shownChar c ++ s!" at line {p.line}, column {p.column}"

end LexError

/-! ### Pieces -/

/-- What a piece of the source amounts to. -/
inductive Piece where
  | gap
  | token (kind : TokenKind) (lexeme : String)
  | stray (c : Char)

/-- The first piece of a source, the text it covers, and the source after it. -/
structure Cut where
  piece : Piece
  text : List Char
  rest : List Char

/-- The characters that separate tokens within a line. -/
def isBlank (c : Char) : Bool :=
  c = ' ' || c = '\t' || c = '\r'

/-- The tokens of one character that start no longer token. -/
def punctuation? : Char → Option TokenKind
  | '+' => some .plus
  | '-' => some .minus
  | '*' => some .star
  | '/' => some .slash
  | '(' => some .leftParen
  | ')' => some .rightParen
  | '\x7b' => some .leftBrace
  | '\x7d' => some .rightBrace
  | ';' => some .semicolon
  | ',' => some .comma
  | '<' => some .less
  | '>' => some .greater
  | _ => none

/-- A string literal after its opening mark: the text it denotes, the characters it covers (the
closing mark included, if there is one), and the rest. -/
def stringLiteral : List Char → List Char × List Char × List Char
  | [] => ([], [], [])
  | c :: cs =>
    if c = '"' then ([], [c], cs)
    else if c = '\\' then
      match cs with
      | [] => ([], [c], [])
      | d :: ds =>
        let (value, text, rest) := stringLiteral ds
        (d :: value, c :: d :: text, rest)
    else
      let (value, text, rest) := stringLiteral cs
      (c :: value, c :: text, rest)

/-- A word is a reserved word or a name. -/
def wordKind (word : String) : TokenKind :=
  (TokenKind.keyword? word).getD .identifier

/-- The first piece of the source `c :: cs`. -/
def cut (c : Char) (cs : List Char) : Cut :=
  if isBlank c then ⟨.gap, [c], cs⟩
  else if c = '#' then ⟨.gap, c :: cs.takeWhile (· != '\n'), cs.dropWhile (· != '\n')⟩
  else if c = '\n' then ⟨.token .newline "\\n", [c], cs⟩
  else if c.isDigit then
    let text := c :: cs.takeWhile continuesNumber
    ⟨.token .number (String.ofList text), text, cs.dropWhile continuesNumber⟩
  else if c = '"' then
    let (value, text, rest) := stringLiteral cs
    ⟨.token .string (String.ofList value), c :: text, rest⟩
  else if opensName c then
    let text := c :: cs.takeWhile continuesName
    let word := String.ofList text
    ⟨.token (wordKind word) word, text, cs.dropWhile continuesName⟩
  else
    match punctuation? c, c, cs with
    | some kind, _, _ => ⟨.token kind (String.singleton c), [c], cs⟩
    | none, '=', '=' :: rest => ⟨.token .equal "==", ['=', '='], rest⟩
    | none, '!', '=' :: rest => ⟨.token .notEqual "!=", ['!', '='], rest⟩
    | none, '=', _ => ⟨.token .assign "=", [c], cs⟩
    | none, _, _ => ⟨.stray c, [c], cs⟩

theorem stringLiteral_text_append_rest (cs : List Char) :
    (stringLiteral cs).2.1 ++ (stringLiteral cs).2.2 = cs := by
  fun_induction stringLiteral cs <;> simp_all

/-- No character is lost: the text of a piece and the rest are the source. -/
theorem cut_text_append_rest (c : Char) (cs : List Char) :
    (cut c cs).text ++ (cut c cs).rest = c :: cs := by
  unfold cut
  repeat' split
  all_goals simp_all [List.takeWhile_append_dropWhile]
  rename_i h _ _
  have := stringLiteral_text_append_rest cs
  simp_all

/-- A piece has a first character. -/
theorem cut_text_ne_nil (c : Char) (cs : List Char) : (cut c cs).text ≠ [] := by
  unfold cut
  repeat' split
  all_goals simp

/-- Every cut leaves less of the source. -/
theorem cut_rest_length_lt (c : Char) (cs : List Char) :
    (cut c cs).rest.length < (c :: cs).length := by
  have h := congrArg List.length (cut_text_append_rest c cs)
  have := List.length_pos_iff.2 (cut_text_ne_nil c cs)
  simp only [List.length_append] at h
  omega

/-! ### Scanning -/

/-- The result of a scan: the tokens, and the characters that were skipped, in source order. -/
structure Lexed where
  tokens : Array Token := #[]
  skipped : Array (Char × Position) := #[]

/-- Scan the source `cs`, whose first character stands at `p`, after what is `done`. -/
def scan (mode : LexMode) (p : Position) (cs : List Char) (done : Lexed) :
    Except LexError Lexed :=
  match cs with
  | [] => .ok { done with tokens := done.tokens.push ⟨.eof, "", p⟩ }
  | c :: cs =>
    let first := cut c cs
    let next := p.advanceBy first.text
    match first.piece, mode with
    | .gap, _ => scan mode next first.rest done
    | .token kind lexeme, _ =>
      scan mode next first.rest { done with tokens := done.tokens.push ⟨kind, lexeme, p⟩ }
    | .stray c, .lenient =>
      scan mode next first.rest { done with skipped := done.skipped.push (c, p) }
    | .stray c, .strict => .error (.unexpectedCharacter c p)
termination_by cs.length
decreasing_by all_goals exact cut_rest_length_lt _ _

/-- The tokens of a source, the last of them the end of the input. -/
def tokenize (mode : LexMode) (source : String) : Except LexError Lexed :=
  scan mode .start source.toList {}

end StackScript
