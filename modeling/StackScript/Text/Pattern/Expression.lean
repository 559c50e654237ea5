import StackScript.Text.Pattern
import StackScript.Text.Pattern.Fault

/-!
Expressions: patterns as they are written.

What an expression matches hangs on the flags that are set where it stands, so literals, classes and
places are kept as they are written, with the part of the text that is named if they are at fault.

* `ClassExpression`: what stands in brackets;
* `Expression`: a whole pattern.
-/

namespace StackScript

/-- The flags of patterns. -/
inductive PatternFlag where
  /-- Letters match in both cases. -/
  | anyCase
  /-- Places at the ends of a text are those at the ends of its lines. -/
  | multiLine
  /-- The point matches line feeds too. -/
  | allCharacters
  /-- Repetitions prefer to be short, which does not matter here. -/
  | preferShort
  /-- Characters are those of Unicode. -/
  | unicode
  /-- Carriage returns end lines too. -/
  | returns
  /-- White space and comments may stand anywhere. -/
  | spaced
deriving DecidableEq

/-- What may stand in a list of flags. -/
inductive FlagItem where
  /-- The flags from here on are taken back. -/
  | negation
  | flag (f : PatternFlag)
deriving DecidableEq

/-- What a list of flags says about one of them, if it is there. -/
def FlagItem.setting? (f : PatternFlag) : (negated : Bool) → List FlagItem → Option Bool
  | _, [] => none
  | _, .negation :: items => setting? f true items
  | negated, .flag g :: items => if f = g then some (!negated) else setting? f negated items

/-- A character that stands for itself. -/
structure PatternLiteral where
  char : Char
  part : Span
  /-- It is written as two hexadecimal digits. -/
  isByte : Bool := false

/-- Classes with an escape of their own. -/
inductive ClassKind where
  | digit | space | word

/-- What joins two parts of a class. -/
inductive ClassOperation where
  | intersection | difference | symmetricDifference

/-- What stands in brackets. -/
inductive ClassExpression where
  | empty
  | literal (l : PatternLiteral)
  | range (first last : PatternLiteral)
  /-- A class with a name, which holds ASCII characters only. -/
  | ascii (letters : Letters) (negated : Bool) (part : Span)
  | kind (k : ClassKind) (negated : Bool) (part : Span)
  /-- A property of Unicode. -/
  | property (part : Span)
  | union (a b : ClassExpression)
  /-- Two parts, and where each of them stands. -/
  | operation (op : ClassOperation) (a b : ClassExpression) (aPart bPart : Span)
  | brackets (a : ClassExpression) (negated : Bool) (part : Span)

/-- Places as they are written. -/
inductive PlaceExpression where
  | textStart | textEnd | lineStart | lineEnd
  | word (w : WordPlace)

/-- Patterns as they are written. -/
inductive Expression where
  | empty
  /-- Flags for all that follows in the same group. -/
  | flags (items : List FlagItem)
  | literal (l : PatternLiteral)
  /-- Any character. -/
  | point (part : Span)
  | place (p : PlaceExpression) (part : Span)
  | kind (k : ClassKind) (negated : Bool) (part : Span)
  | property (part : Span)
  | brackets (c : ClassExpression) (negated : Bool) (part : Span)
  | repeated (e : Expression) (least : Nat) (most : Option Nat)
  | group (items : List FlagItem) (e : Expression)
  | sequence (a b : Expression)
  | choice (a b : Expression)
deriving Inhabited

namespace Expression

/-- Expressions one after the other. -/
def ofItems : List Expression → Expression
  | [] => empty
  | [e] => e
  | e :: es => sequence e (ofItems es)

/-- Expressions to choose from. -/
def ofChoices : List Expression → Expression
  | [] => empty
  | [e] => e
  | e :: es => choice e (ofChoices es)

end Expression

end StackScript
