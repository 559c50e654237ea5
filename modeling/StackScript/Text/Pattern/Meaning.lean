import StackScript.Text.Pattern.Parser

/-!
The meaning of expressions: the pattern of a text.

Flags decide what literals, classes and places match. Only characters of ASCII can be classified and
compared without regard to case, and only under the flag that confines classes to them; the flag must
not be used to match what is no text.

* `Expression.pattern`: the pattern of an expression under the flags that are set before it;
* `Pattern.ofText`: the pattern of a text, or what is wrong with it.
-/

namespace StackScript

/-- The flags that are set. -/
structure PatternFlags where
  anyCase : Bool := false
  multiLine : Bool := false
  allCharacters : Bool := false
  unicode : Bool := true
  returns : Bool := false

namespace PatternFlags

/-- Flags changed by a list of them. -/
def apply (f : PatternFlags) (items : List FlagItem) : PatternFlags :=
  { anyCase := (FlagItem.setting? .anyCase false items).getD f.anyCase
    multiLine := (FlagItem.setting? .multiLine false items).getD f.multiLine
    allCharacters := (FlagItem.setting? .allCharacters false items).getD f.allCharacters
    unicode := (FlagItem.setting? .unicode false items).getD f.unicode
    returns := (FlagItem.setting? .returns false items).getD f.returns }

/-- A fault in a part of a text. -/
def fault {α : Type} (kind : FaultKind) (part : Span) : Except PatternFault α :=
  .error (.malformed kind part none)

/-! ### Classes -/

/-- The characters of a class in either case, if case does not matter. -/
def inCase (f : PatternFlags) (part : Span) (letters : Letters) : Except PatternFault Letters :=
  if !f.anyCase || letters = .ranges [] then .ok letters
  else if f.unicode then fault .caseUnavailable part
  else .ok (.anyCase letters)

/-- The characters that are not in a class. -/
def negate (f : PatternFlags) (negated : Bool) (part : Span) (letters : Letters) :
    Except PatternFault Letters :=
  if !negated then .ok letters
  else if f.unicode then .ok (.complement letters)
  else fault .invalidText part

/-- The code point of a literal in a class. -/
def classLiteral (f : PatternFlags) (l : PatternLiteral) : Except PatternFault Nat :=
  if f.unicode || isAscii l.char then .ok l.char.toNat
  else if l.isByte then fault .invalidText l.part
  else fault .unicodeNotAllowed l.part

/-- The ASCII characters of a kind. -/
def kindLetters : ClassKind → Letters
  | .digit => .ranges [(0x30, 0x39)]
  | .space => .ranges [(0x09, 0x0d), (0x20, 0x20)]
  | .word => Letters.word

/-- The characters of a kind, or all others. -/
def kind (f : PatternFlags) (k : ClassKind) (negated : Bool) (part : Span) :
    Except PatternFault Letters :=
  if f.unicode then fault .classNotFound part
  else if negated then fault .invalidText part
  else .ok (kindLetters k)

/-- The characters with a property. -/
def property (f : PatternFlags) (part : Span) : Except PatternFault Letters :=
  if f.unicode then fault .propertyNotFound part else fault .unicodeNotAllowed part

/-- The characters of two parts of a class that are joined. -/
def joinLetters : ClassOperation → Letters → Letters → Letters
  | .intersection => .intersection
  | .difference => .difference
  | .symmetricDifference => .symmetricDifference

/-- The characters of a class. -/
def letters (f : PatternFlags) : ClassExpression → Except PatternFault Letters
  | .empty => .ok (.ranges [])
  | .literal l => do
    let n ← f.classLiteral l
    return .ranges [(n, n)]
  | .range a b => do return .ranges [(← f.classLiteral a, ← f.classLiteral b)]
  | .ascii ls negated part => do f.negate negated part (← f.inCase part ls)
  | .kind k negated part => f.kind k negated part
  | .property part => f.property part
  | .union a b => do return .union (← f.letters a) (← f.letters b)
  | .operation op a b aPart bPart => do
    let a ← f.letters a
    let b ← f.letters b
    let b ← f.inCase bPart b
    let a ← f.inCase aPart a
    return joinLetters op a b
  | .brackets a negated part => do f.negate negated part (← f.inCase part (← f.letters a))

/-! ### Single characters and places -/

/-- The character that a literal stands for, in either case if case does not matter. -/
def literal (f : PatternFlags) (l : PatternLiteral) : Except PatternFault Letters :=
  if f.unicode then f.inCase l.part (.single l.char)
  else if l.isByte && !isAscii l.char then fault .invalidText l.part
  else f.inCase l.part (.single l.char)

/-- The characters that a point stands for. -/
def point (f : PatternFlags) (part : Span) : Except PatternFault Letters :=
  if !f.unicode then fault .invalidText part
  else if f.allCharacters then .ok (.complement (.ranges []))
  else if f.returns then .ok (.complement (.ranges [(0x0a, 0x0a), (0x0d, 0x0d)]))
  else .ok (.complement (.ranges [(0x0a, 0x0a)]))

/-- The place that is asked for. -/
def place (f : PatternFlags) : PlaceExpression → Place
  | .textStart => .textStart
  | .textEnd => .textEnd
  | .lineStart => if f.multiLine then .lineStart f.returns else .textStart
  | .lineEnd => if f.multiLine then .lineEnd f.returns else .textEnd
  | .word w => .word w f.unicode

end PatternFlags

/-! ### Patterns -/

namespace Expression

/-- The pattern of an expression. Flags hold from where they are set to the end of the group. -/
def pattern : Expression → StateT PatternFlags (Except PatternFault) Pattern
  | empty => return .empty
  | flags items => do
    modify (·.apply items)
    return .empty
  | literal l => do return .one (← (← get).literal l)
  | point part => do return .one (← (← get).point part)
  | place p _ => do return .place ((← get).place p)
  | kind k negated part => do return .one (← (← get).kind k negated part)
  | property part => do return .one (← (← get).property part)
  | brackets c negated part => do return .one (← (← get).letters (.brackets c negated part))
  | repeated e least most => do return .repeated (← e.pattern) least most
  | group items e => do
    let f ← get
    set (f.apply items)
    let p ← e.pattern
    set f
    return p
  | sequence a b => do return .sequence (← a.pattern) (← b.pattern)
  | choice a b => do return .choice (← a.pattern) (← b.pattern)

end Expression

/-- The pattern of a text. -/
def Pattern.ofText (text : String) : Except PatternFault Pattern := do
  let e ← Expression.ofText text
  let p ← e.pattern.run' {}
  if p.asksAllScripts then throw .undecidable
  else if sizeLimit < p.size then throw (.tooLarge sizeLimit)
  else return p

end StackScript
