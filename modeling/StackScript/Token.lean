import StackScript.Position

/-!
Tokens: what the lexer hands to the parser.

* `TokenKind`: the kinds of token, with `TokenKind.keyword?` for the reserved words and
  `TokenKind.shown` for the words that an error message uses for a kind;
* `Token`: a kind, the lexeme it was read from, and where that begins.
-/

namespace StackScript

/-- The kinds of token. A line feed is a token of its own, because it ends statements. -/
inductive TokenKind where
  | letWord | funcWord | ifWord | elseWord | whileWord | returnWord | printWord
  | number | string | identifier
  | plus | minus | star | slash | assign | equal | notEqual | less | greater
  | leftParen | rightParen | leftBrace | rightBrace | semicolon | comma
  | newline | eof
deriving DecidableEq

namespace TokenKind

/-- The kind of a reserved word; every other word is a name. -/
def keyword? : String → Option TokenKind
  | "let" => some .letWord
  | "func" => some .funcWord
  | "if" => some .ifWord
  | "else" => some .elseWord
  | "while" => some .whileWord
  | "return" => some .returnWord
  | "print" => some .printWord
  | _ => none

/-- A kind as error messages and the token table name it. -/
def shown : TokenKind → String
  | letWord => "'let'"
  | funcWord => "'func'"
  | ifWord => "'if'"
  | elseWord => "'else'"
  | whileWord => "'while'"
  | returnWord => "'return'"
  | printWord => "'print'"
  | number => "number"
  | string => "string"
  | identifier => "identifier"
  | plus => "'+'"
  | minus => "'-'"
  | star => "'*'"
  | slash => "'/'"
  | assign => "'='"
  | equal => "'=='"
  | notEqual => "'!='"
  | less => "'<'"
  | greater => "'>'"
  | leftParen => "'('"
  | rightParen => "')'"
  | leftBrace => "'\x7b'"
  | rightBrace => "'\x7d'"
  | semicolon => "';'"
  | comma => "','"
  | newline => "newline"
  | eof => "end of input"

end TokenKind

/-- A token with the text it was read from and the position of its first character. -/
structure Token where
  kind : TokenKind
  lexeme : String
  position : Position
deriving DecidableEq

end StackScript
