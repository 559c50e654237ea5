import StackScript.Position

/-!
Faults of patterns: why a text is no pattern.

* `Span`: a part of the text, by its positions;
* `FaultKind`, `FaultKind.message`: what is wrong, and that in words;
* `PatternFault.message`: the text with marks under the parts that are at fault, and what is wrong.
-/

namespace StackScript

/-- A part of a text, from a position up to but not including another one. -/
structure Span where
  first : Position
  last : Position
deriving DecidableEq

/-- What is wrong with a part of a text that should be a pattern. -/
inductive FaultKind where
  | classEscapeInvalid | classRangeInvalid | classRangeLiteral | classUnclosed
  | decimalEmpty | decimalInvalid
  | hexEmpty | hexInvalid | hexInvalidDigit
  | escapeUnfinished | escapeUnrecognized
  | flagDanglingNegation | flagDuplicate | flagRepeatedNegation | flagUnfinished | flagUnrecognized
  | nameDuplicate | nameEmpty | nameInvalid | nameUnfinished
  | groupUnclosed | groupUnopened
  | countInvalid | countEmpty | countUnclosed | repetitionMissing
  | wordPlaceUnclosed | wordPlaceUnrecognized | wordPlaceUnfinished
  | propertyInvalid | backreference | lookAround
  /-- The faults that depend on flags. -/
  | unicodeNotAllowed | invalidText | propertyNotFound | classNotFound | caseUnavailable
deriving DecidableEq

/-- What is wrong, in words. -/
def FaultKind.message : FaultKind → String
  | classEscapeInvalid => "invalid escape sequence found in character class"
  | classRangeInvalid => "invalid character class range, the start must be <= the end"
  | classRangeLiteral => "invalid range boundary, must be a literal"
  | classUnclosed => "unclosed character class"
  | decimalEmpty => "decimal literal empty"
  | decimalInvalid => "decimal literal invalid"
  | hexEmpty => "hexadecimal literal empty"
  | hexInvalid => "hexadecimal literal is not a Unicode scalar value"
  | hexInvalidDigit => "invalid hexadecimal digit"
  | escapeUnfinished => "incomplete escape sequence, reached end of pattern prematurely"
  | escapeUnrecognized => "unrecognized escape sequence"
  | flagDanglingNegation => "dangling flag negation operator"
  | flagDuplicate => "duplicate flag"
  | flagRepeatedNegation => "flag negation operator repeated"
  | flagUnfinished => "expected flag but got end of regex"
  | flagUnrecognized => "unrecognized flag"
  | nameDuplicate => "duplicate capture group name"
  | nameEmpty => "empty capture group name"
  | nameInvalid => "invalid capture group character"
  | nameUnfinished => "unclosed capture group name"
  | groupUnclosed => "unclosed group"
  | groupUnopened => "unopened group"
  | countInvalid => "invalid repetition count range, the start must be <= the end"
  | countEmpty => "repetition quantifier expects a valid decimal"
  | countUnclosed => "unclosed counted repetition"
  | repetitionMissing => "repetition operator missing expression"
  | wordPlaceUnclosed =>
    "special word boundary assertion is either unclosed or contains an invalid character"
  | wordPlaceUnrecognized =>
    "unrecognized special word boundary assertion, valid choices are: "
      ++ "start, end, start-half or end-half"
  | wordPlaceUnfinished =>
    "found either the beginning of a special word boundary or a bounded repetition on a \\b "
      ++ "with an opening brace, but no closing brace"
  | propertyInvalid => "invalid Unicode character class"
  | backreference => "backreferences are not supported"
  | lookAround => "look-around, including look-ahead and look-behind, is not supported"
  | unicodeNotAllowed => "Unicode not allowed here"
  | invalidText => "pattern can match invalid UTF-8"
  | propertyNotFound => "Unicode property not found"
  | classNotFound =>
    "Unicode-aware Perl class not found (make sure the unicode-perl feature is enabled)"
  | caseUnavailable =>
    "Unicode-aware case insensitivity matching is not available "
      ++ "(make sure the unicode-case feature is enabled)"

/-- Why a text is no pattern. -/
inductive PatternFault where
  /-- Something is wrong with a part of the text; another part may have to do with it. -/
  | malformed (kind : FaultKind) (part : Span) (other : Option Span)
  /-- The pattern asks for what cannot be decided. -/
  | undecidable
  | tooLarge (limit : Nat)
deriving DecidableEq

namespace PatternFault

/-- The lines of a text; a line feed at its end opens no further line. -/
def linesOf (text : String) : List String :=
  let lines := text.splitOn "\n"
  let lines := if lines.getLast? = some "" then lines.dropLast else lines
  lines.map fun l => if l.endsWith "\r" then String.ofList l.toList.dropLast else l

/-- The numbers of the lines are as wide as the last of them, and left out in a text of one line. A
line feed at the end of a text counts as a line. -/
def numberWidth (text : String) : Nat :=
  let count := (linesOf text).length + if text.endsWith "\n" then 1 else 0
  if count ≤ 1 then 0 else (toString count).length

/-- A number at the right edge of a field. -/
def numberField (width n : Nat) : String :=
  let digits := toString n
  String.ofList (List.replicate (width - digits.length) ' ') ++ digits

/-- What stands before a line. -/
def margin (width line : Nat) : String :=
  if width = 0 then "    " else numberField width line ++ ": "

/-- Marks under parts of a line that are in order, from a column on. -/
def marksFrom (column : Nat) : List Span → String
  | [] => ""
  | s :: rest =>
    let blanks := s.first.column - column
    let marks := max 1 (s.last.column - s.first.column)
    String.ofList (List.replicate blanks ' ' ++ List.replicate marks '^')
      ++ marksFrom (column + blanks + marks) rest

/-- A line of the text, and the marks under the parts in it. -/
def markedLine (width : Nat) (parts : List Span) (number : Nat) (line : String) : String :=
  let parts := parts.filter (·.first.line = number)
  margin width number ++ line ++ "\n"
    ++ if parts.isEmpty then ""
      else
        String.ofList (List.replicate (if width = 0 then 4 else width + 2) ' ')
          ++ marksFrom 1 parts ++ "\n"

/-- The lines of a text from a number on, with the marks under them. -/
def markedLines (width : Nat) (parts : List Span) : (number : Nat) → List String → String
  | _, [] => ""
  | number, line :: lines =>
    markedLine width parts number line ++ markedLines width parts (number + 1) lines

/-- Where a part begins and ends that is longer than a line. -/
def longPart (s : Span) : String :=
  s!"on line {s.first.line} (column {s.first.column}) through line "
    ++ s!"{s.last.line} (column {s.last.column - 1})\n"

/-- Parts in the order of their positions. -/
def ordered (parts : List Span) : List Span :=
  parts.mergeSort fun a b =>
    a.first.line < b.first.line || (a.first.line = b.first.line && a.first.column ≤ b.first.column)

/-- The line between the text and what is said about it, in a text of several lines. -/
def divider : String := String.ofList (List.replicate 79 '~') ++ "\n"

/-- The fault of a text in words. -/
def message (text : String) : PatternFault → String
  | malformed kind part other =>
    let parts := ordered (part :: other.toList)
    let short := parts.filter fun s => s.first.line = s.last.line
    let long := parts.filter fun s => s.first.line != s.last.line
    let marked := markedLines (numberWidth text) short 1 (linesOf text)
    let shown :=
      if text.toList.contains '\n' then
        divider ++ marked ++ divider ++ String.join (long.map longPart)
      else marked
    "regex parse error:\n" ++ shown ++ "error: " ++ kind.message
  | undecidable => "error building NFA"
  | tooLarge limit => s!"Compiled regex exceeds size limit of {limit} bytes."

end PatternFault

end StackScript
