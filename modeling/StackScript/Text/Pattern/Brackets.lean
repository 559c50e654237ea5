import StackScript.Text.Pattern.Reader

/-!
Reading patterns: what stands in brackets.

A class in brackets holds characters, ranges, escapes and further classes, and operations between these;
all operations bind alike, from left to right.

* `PatternReader.brackets`: the class that begins at a bracket.
-/

namespace StackScript

namespace PatternReader

/-- A part of a class and where it stands. -/
structure ClassPart where
  expression : ClassExpression
  part : Span

/-- The beginning of a class: where it stands, and whether the class is negated. -/
structure ClassOpening where
  part : Span
  negated : Bool

/-- The pairs of code points of the classes that have names. -/
def namedClasses : List (String × List (Nat × Nat)) :=
  [("alnum", [(0x30, 0x39), (0x41, 0x5a), (0x61, 0x7a)]),
   ("alpha", [(0x41, 0x5a), (0x61, 0x7a)]),
   ("ascii", [(0x00, 0x7f)]),
   ("blank", [(0x09, 0x09), (0x20, 0x20)]),
   ("cntrl", [(0x00, 0x1f), (0x7f, 0x7f)]),
   ("digit", [(0x30, 0x39)]),
   ("graph", [(0x21, 0x7e)]),
   ("lower", [(0x61, 0x7a)]),
   ("print", [(0x20, 0x7e)]),
   ("punct", [(0x21, 0x2f), (0x3a, 0x40), (0x5b, 0x60), (0x7b, 0x7e)]),
   ("space", [(0x09, 0x0d), (0x20, 0x20)]),
   ("upper", [(0x41, 0x5a)]),
   ("word", [(0x30, 0x39), (0x41, 0x5a), (0x5f, 0x5f), (0x61, 0x7a)]),
   ("xdigit", [(0x30, 0x39), (0x41, 0x46), (0x61, 0x66)])]

/-- The name of a class in brackets and colons, whether it is negated, and how long all that is. -/
def namedClassAhead? : List Char → Option (List (Nat × Nat) × Bool × Nat)
  | '[' :: ':' :: cs =>
    let (negated, cs) := match cs with
      | '^' :: cs => (true, cs)
      | cs => (false, cs)
    let name := cs.takeWhile (· != ':')
    match cs.drop name.length with
    | ':' :: ']' :: _ =>
      (namedClasses.find? (·.1 = String.ofList name)).map fun c =>
        (c.2, negated, name.length + if negated then 5 else 4)
    | _ => none
  | _ => none

/-- Take a class by its name, if one stands next. -/
def namedClass? : PatternReader (Option ClassPart) := do
  match namedClassAhead? (← get).rest with
  | none => return none
  | some (pairs, negated, length) => do
    let first ← here
    bumps length
    let part := ⟨first, ← here⟩
    return some ⟨.ascii (.ranges pairs) negated part, part⟩

/-- Take a character that stands for itself, whatever it is. -/
def plainLiteral : PatternReader PatternLiteral := do
  let part ← spanNext
  let c ← peek
  bump
  return ⟨c.getD ' ', part, false⟩

/-- Take a character or an escape. -/
def classPrimitive : PatternReader Expression := do
  if (← peek) = some '\\' then escape else return .literal (← plainLiteral)

/-- What may stand in a class by itself. -/
def asClassPart : Expression → PatternReader ClassPart
  | .literal l => return ⟨.literal l, l.part⟩
  | .kind k negated part => return ⟨.kind k negated part, part⟩
  | .property part => return ⟨.property part, part⟩
  | .place _ part => fault .classEscapeInvalid part
  | _ => fault .classEscapeInvalid (⟨Position.start, Position.start⟩)

/-- What may be the end of a range. -/
def asRangeEnd : Expression → PatternReader PatternLiteral
  | .literal l => return l
  | .kind _ _ part => fault .classRangeLiteral part
  | .property part => fault .classRangeLiteral part
  | .place _ part => fault .classRangeLiteral part
  | _ => fault .classRangeLiteral (⟨Position.start, Position.start⟩)

/-- Where an escape or a character in a class stands. -/
def partOf : Expression → Span
  | .literal l => l.part
  | .kind _ _ part => part
  | .property part => part
  | .place _ part => part
  | _ => ⟨Position.start, Position.start⟩

/-- Take a character, a range or an escape. A dash before the closing bracket or another dash is no sign
of a range. -/
def classItem (opening : ClassOpening) : PatternReader ClassPart := do
  let first ← classPrimitive
  skipBlanks
  match ← peek with
  | none => fault .classUnclosed opening.part
  | some c =>
    let next ← peekOver
    if c != '-' || next = some ']' || next = some '-' then asClassPart first
    else do
      if !(← bumpOver) then fault .classUnclosed opening.part
      let last ← classPrimitive
      let part := ⟨(partOf first).first, (partOf last).last⟩
      let a ← asRangeEnd first
      let b ← asRangeEnd last
      if b.char < a.char then fault .classRangeInvalid part
      return ⟨.range a b, part⟩

/-- Take dashes at the beginning of a class, which stand for themselves; there are fewer than `bound`. -/
def leadingDashes (start : Position) : (bound : Nat) → List ClassPart → PatternReader (List ClassPart)
  | 0, items => return items
  | bound + 1, items => do
    if (← peek) = some '-' then do
      let l : PatternLiteral := ⟨'-', ← spanNext, false⟩
      if !(← bumpOver) then fault .classUnclosed ⟨start, start⟩
      leadingDashes start bound (⟨.literal l, l.part⟩ :: items)
    else return items

/-- Take the beginning of a class, with the characters that stand for themselves only there. The parts
of the class are collected the last one first. -/
def classOpening : PatternReader (ClassOpening × List ClassPart) := do
  let start ← here
  if !(← bumpOver) then fault .classUnclosed ⟨start, ← here⟩
  let negated := (← peek) = some '^'
  if negated then
    if !(← bumpOver) then fault .classUnclosed ⟨start, ← here⟩
  let dashes ← leadingDashes start ((← get).rest.length + 1) []
  if dashes.isEmpty && (← peek) = some ']' then do
    let l : PatternLiteral := ⟨']', ← spanNext, false⟩
    if !(← bumpOver) then fault .classUnclosed ⟨start, ← here⟩
    return (⟨⟨start, ← here⟩, negated⟩, [⟨.literal l, l.part⟩])
  else return (⟨⟨start, ← here⟩, negated⟩, dashes)

/-- The union of parts, which are given the last one first, behind a position. -/
def unionOf (behind : Position) (items : List ClassPart) : ClassPart :=
  items.foldl
    (fun u item =>
      match u.expression with
      | .empty => item
      | e => ⟨.union item.expression e, ⟨item.part.first, u.part.last⟩⟩)
    ⟨.empty, ⟨behind, behind⟩⟩

/-- A part of a class that an operation joins to what follows. -/
structure ClassOperand where
  left : ClassPart
  operation : ClassOperation

/-- The parts of a class up to here. -/
def joined (left : Option ClassOperand) (u : ClassPart) : ClassPart :=
  match left with
  | none => u
  | some ⟨a, op⟩ => ⟨.operation op a.expression u.expression a.part u.part, ⟨a.part.first, u.part.last⟩⟩

/-- The operation that two equal characters stand for. -/
def classOperation? : List Char → Option ClassOperation
  | '&' :: '&' :: _ => some .intersection
  | '-' :: '-' :: _ => some .difference
  | '~' :: '~' :: _ => some .symmetricDifference
  | _ => none

/-- Take the rest of a class and its closing bracket. What has been taken is an operand, perhaps, and
the parts behind it, which begin behind a position. -/
def classRest (opening : ClassOpening) :
    (fuel : Nat) → Option ClassOperand → Position → List ClassPart → PatternReader ClassPart
  | 0, _, _, _ => fault .classUnclosed opening.part
  | fuel + 1, left, behind, items => do
    skipBlanks
    let all := joined left (unionOf behind items)
    match classOperation? (← get).rest, ← peek with
    | some op, _ => do
      bumps 2
      classRest opening fuel (some ⟨all, op⟩) (← here) []
    | none, none => fault .classUnclosed opening.part
    | none, some ']' => do
      bump
      let part := ⟨opening.part.first, ← here⟩
      return ⟨.brackets all.expression opening.negated part, part⟩
    | none, some '[' => do
      match ← namedClass? with
      | some item => classRest opening fuel left behind (item :: items)
      | none => do
        let (inner, innerItems) ← classOpening
        let item ← classRest inner fuel none inner.part.last innerItems
        classRest opening fuel left behind (item :: items)
    | none, some _ => do
      let item ← classItem opening
      classRest opening fuel left behind (item :: items)

/-- Take a class in brackets. -/
def brackets : PatternReader Expression := do
  let fuel := (← get).rest.length + 1
  let (opening, items) ← classOpening
  match ← classRest opening fuel none opening.part.last items with
  | ⟨.brackets c negated part, _⟩ => return .brackets c negated part
  | ⟨_, part⟩ => return .brackets .empty false part

end PatternReader

end StackScript
