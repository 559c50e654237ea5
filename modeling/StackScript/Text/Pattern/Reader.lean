import StackScript.Text.CharClass
import StackScript.Text.Numeral
import StackScript.Text.Pattern.Expression

/-!
Reading patterns: characters, escapes and counts.

* `PatternReader`: readers take a part of a pattern, and know where they are in its text;
* `PatternReader.escape`: what a backslash and the characters behind it stand for;
* `PatternReader.decimal`: a count.
-/

namespace StackScript

/-- Where a reader is: what is left of the text, and its position; whether white space is skipped; and
the names of groups so far. -/
structure PatternCursor where
  rest : List Char
  position : Position := Position.start
  spaced : Bool := false
  names : List (String × Span) := []

/-- A reader takes a part of a pattern, or finds a fault in it. -/
abbrev PatternReader (α : Type) := StateT PatternCursor (Except PatternFault) α

namespace PatternReader

/-! ### Moving on -/

/-- Report a fault. -/
def fault {α : Type} (kind : FaultKind) (part : Span) (other : Option Span := none) :
    PatternReader α :=
  throw (.malformed kind part other)

/-- The character that stands next, if there is one. -/
def peek : PatternReader (Option Char) := do return (← get).rest.head?

/-- The position of what stands next. -/
def here : PatternReader Position := do return (← get).position

/-- The empty part of the text before what stands next. -/
def spanHere : PatternReader Span := do return ⟨← here, ← here⟩

/-- The part of the text that the next character is. -/
def spanNext : PatternReader Span := do
  let c ← get
  return ⟨c.position, c.position.advance (c.rest.headD ' ')⟩

/-- Take a character. -/
def bump : PatternReader Unit :=
  modify fun c =>
    match c.rest with
    | [] => c
    | d :: rest => { c with rest, position := c.position.advance d }

/-- Take so many characters. -/
def bumps : (count : Nat) → PatternReader Unit
  | 0 => return ()
  | count + 1 => do
    bump
    bumps count

/-- The number of characters that are white space or belong to a comment, which runs from a hash to the
end of the line. -/
def blankLength : (comment : Bool) → List Char → Nat
  | _, [] => 0
  | true, c :: cs => blankLength (c != '\n') cs + 1
  | false, c :: cs =>
    if isWhiteSpace c then blankLength false cs + 1
    else if c = '#' then blankLength true cs + 1
    else 0

/-- Take white space and comments, where they are skipped. -/
def skipBlanks : PatternReader Unit := do
  let c ← get
  if c.spaced then bumps (blankLength false c.rest)

/-- Take a character and blanks, and say whether anything is left. -/
def bumpOver : PatternReader Bool := do
  bump
  skipBlanks
  return !(← get).rest.isEmpty

/-- The character behind the next one, and behind blanks. -/
def peekOver : PatternReader (Option Char) := do
  let c ← get
  let rest := c.rest.drop 1
  return (if c.spaced then rest.drop (blankLength false rest) else rest).head?

/-- Take a text if it stands next. -/
def bumpIf (text : String) : PatternReader Bool := do
  if text.toList.isPrefixOf (← get).rest then
    bumps text.length
    return true
  else return false

/-- Take characters of a kind. -/
def bumpWhile (p : Char → Bool) : PatternReader Unit := do
  bumps ((← get).rest.takeWhile p).length

/-! ### Escapes -/

/-- The characters with a meaning of their own, which a backslash takes away. -/
def metaCharacters : List Char := "\\.+*?()|[]\x7b\x7d^$#&-~".toList

/-- A backslash may stand before these characters without a need. -/
def isEscapable (c : Char) : Bool :=
  metaCharacters.contains c || (isAscii c && !c.isAlphanum && c != '<' && c != '>')

/-- Take so many hexadecimal digits; the text goes on where each of them stands. -/
def hexDigitsFrom : (count value : Nat) → (first : Bool) → PatternReader Nat
  | 0, value, _ => return value
  | count + 1, value, first => do
    if !first then
      if !(← bumpOver) then fault .escapeUnfinished (← spanHere)
    match (← peek).bind hexValue? with
    | some d => hexDigitsFrom count (16 * value + d) false
    | none => fault .hexInvalidDigit (← spanNext)

/-- The literal of a character by its number. -/
def hexLiteral (value : Nat) (digits part : Span) (isByte : Bool) : PatternReader Expression :=
  if value.isValidChar then return .literal ⟨Char.ofNat value, part, isByte⟩
  else fault .hexInvalid digits

/-- Take a character by a number of so many digits. -/
def hexFixed (start : Position) (count : Nat) : PatternReader Expression := do
  let first ← here
  let value ← hexDigitsFrom count 0 true
  discard bumpOver
  hexLiteral value ⟨first, ← here⟩ ⟨start, ← here⟩ (count = 2)

/-- Take hexadecimal digits up to a brace; there are fewer than `bound`. -/
def hexBracedFrom : (bound : Nat) → List Nat → PatternReader (List Nat)
  | 0, ds => return ds
  | bound + 1, ds => do
    if !(← bumpOver) then return ds
    match ← peek with
    | some '\x7d' => return ds
    | c =>
      match c.bind hexValue? with
      | some d => hexBracedFrom bound (ds ++ [d])
      | none => fault .hexInvalidDigit (← spanNext)

/-- Take a character by a number between braces. -/
def hexBraced (start : Position) : PatternReader Expression := do
  let brace ← here
  let first := (← spanNext).last
  let ds ← hexBracedFrom ((← get).rest.length + 1) []
  let last ← here
  if (← peek).isNone then fault .escapeUnfinished ⟨brace, last⟩
  discard bumpOver
  if ds.isEmpty then fault .hexEmpty ⟨brace, ← here⟩
  hexLiteral (ds.foldl (fun n d => 16 * n + d) 0) ⟨first, last⟩ ⟨start, ← here⟩ false

/-- Take a character by its number, after the backslash. -/
def hex (start : Position) (count : Nat) : PatternReader Expression := do
  if !(← bumpOver) then fault .escapeUnfinished (← spanHere)
  if (← peek) = some '\x7b' then hexBraced start else hexFixed start count

/-- Take characters up to a closing brace; there are fewer than `bound`. -/
def bumpToBrace : (bound : Nat) → PatternReader Unit
  | 0 => return ()
  | bound + 1 => do
    if ← bumpOver then
      if (← peek) != some '\x7d' then bumpToBrace bound

/-- Take a property of Unicode, after the backslash. -/
def property (start : Position) : PatternReader Expression := do
  if !(← bumpOver) then fault .escapeUnfinished (← spanHere)
  match ← peek with
  | some '\x7b' => do
    bumpToBrace ((← get).rest.length + 1)
    if (← peek).isNone then fault .escapeUnfinished (← spanHere)
    bump
  | some '\\' => fault .propertyInvalid (← spanNext)
  | _ => discard bumpOver
  return .property ⟨start, ← here⟩

/-- The characters in the name of a place. -/
def inPlaceName (c : Char) : Bool := c.isAlpha || c = '-'

/-- Take the name of a place; there are fewer than `bound` characters in it. -/
def placeNameFrom : (bound : Nat) → List Char → PatternReader (List Char)
  | 0, name => return name
  | bound + 1, name => do
    match ← peek with
    | some c =>
      if inPlaceName c then do
        discard bumpOver
        placeNameFrom bound (name ++ [c])
      else return name
    | none => return name

/-- Take the name of a place around a word, which stands in braces, unless a count stands there. -/
def wordPlace (start : Position) : PatternReader WordPlace := do
  let before ← get
  if before.rest.head? != some '\x7b' then return .edge
  if !(← bumpOver) then fault .wordPlaceUnfinished ⟨start, ← here⟩
  if !(← peek).any inPlaceName then
    set before
    return .edge
  let first ← here
  let name ← placeNameFrom before.rest.length []
  let last ← here
  if (← peek) != some '\x7d' then fault .wordPlaceUnclosed ⟨before.position, last⟩
  bump
  match String.ofList name with
  | "start" => return .start
  | "end" => return .stop
  | "start-half" => return .startHalf
  | "end-half" => return .stopHalf
  | _ => fault .wordPlaceUnrecognized ⟨first, last⟩

/-- What a letter behind a backslash stands for; the letter has been taken. -/
def letterEscape (c : Char) (start : Position) : PatternReader Expression := do
  let part := ⟨start, ← here⟩
  match c with
  | 'a' => return .literal ⟨Char.ofNat 7, part, false⟩
  | 'f' => return .literal ⟨Char.ofNat 12, part, false⟩
  | 't' => return .literal ⟨'\t', part, false⟩
  | 'n' => return .literal ⟨'\n', part, false⟩
  | 'r' => return .literal ⟨'\r', part, false⟩
  | 'v' => return .literal ⟨Char.ofNat 11, part, false⟩
  | 'd' => return .kind .digit false part
  | 's' => return .kind .space false part
  | 'w' => return .kind .word false part
  | 'D' => return .kind .digit true part
  | 'S' => return .kind .space true part
  | 'W' => return .kind .word true part
  | 'A' => return .place .textStart part
  | 'z' => return .place .textEnd part
  | 'b' => do
    let w ← wordPlace start
    return .place (.word w) ⟨start, ← here⟩
  | 'B' => return .place (.word .noEdge) part
  | '<' => return .place (.word .start) part
  | '>' => return .place (.word .stop) part
  | _ => fault .escapeUnrecognized part

/-- Take an escape. -/
def escape : PatternReader Expression := do
  let start ← here
  bump
  match ← peek with
  | none => fault .escapeUnfinished ⟨start, ← here⟩
  | some c =>
    if c.isDigit then fault .backreference ⟨start, (← spanNext).last⟩
    else if c = 'x' then hex start 2
    else if c = 'u' then hex start 4
    else if c = 'U' then hex start 8
    else if c = 'p' || c = 'P' then property start
    else do
      bump
      if isEscapable c then return .literal ⟨c, ⟨start, ← here⟩, false⟩
      else letterEscape c start

/-! ### Counts -/

/-- Take decimal digits; there are fewer than `bound`. -/
def digitsFrom : (bound : Nat) → List Char → PatternReader (List Char)
  | 0, ds => return ds
  | bound + 1, ds => do
    match ← peek with
    | some c =>
      if c.isDigit then do
        discard bumpOver
        digitsFrom bound (ds ++ [c])
      else return ds
    | none => return ds

/-- Take a count of at most 32 bits, with the white space around it. What is wrong with it is handed
on, as another fault may come first. -/
def decimal : PatternReader (Except PatternFault Nat) := do
  bumpWhile isWhiteSpace
  let first ← here
  let ds ← digitsFrom ((← get).rest.length + 1) []
  let part := ⟨first, ← here⟩
  bumpWhile isWhiteSpace
  skipBlanks
  let value := ds.foldl (fun n d => 10 * n + (d.toNat - '0'.toNat)) 0
  if ds.isEmpty then return .error (.malformed .countEmpty part none)
  else if Nat.pow 2 32 ≤ value then return .error (.malformed .decimalInvalid part none)
  else return .ok value

/-- Take the counts that stand between braces, the least one and, if there is one, the most. -/
def countRange (unclosed : PatternReader Unit) : PatternReader (Nat × Option Nat) := do
  let least ← decimal
  match ← peek with
  | some ',' => do
    if !(← bumpOver) then unclosed
    if (← peek) = some '\x7d' then return ((← least), none)
    else do
      let least ← least
      return (least, some (← (← decimal)))
  | some _ => do
    let least ← least
    return (least, some least)
  | none => do
    unclosed
    return (0, none)

/-- How often something is repeated: the count that is in braces, up to the closing one. -/
def count (start : Position) : PatternReader (Nat × Option Nat) := do
  let unclosed : PatternReader Unit := do fault .countUnclosed ⟨start, ← here⟩
  if !(← bumpOver) then unclosed
  let range ← countRange unclosed
  if (← peek) != some '\x7d' then unclosed
  return range

end PatternReader

end StackScript
