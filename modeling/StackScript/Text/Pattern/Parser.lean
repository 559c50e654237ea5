import StackScript.Text.Pattern.Brackets

/-!
Reading patterns: groups, repetitions and choices.

* `Expression.ofText`: the expression of a whole text, or the fault that is found first.
-/

namespace StackScript

namespace PatternReader

/-! ### Groups -/

/-- What a parenthesis opens: flags for what follows, or a group with flags of its own. -/
inductive GroupOpening where
  | flags (items : List FlagItem)
  | group (items : List FlagItem)

/-- The characters in the name of a group. -/
def inGroupName (first : Bool) (c : Char) : Bool :=
  if first then c = '_' || isAlphabetic c
  else c = '_' || c = '.' || c = '[' || c = ']' || isAlphabetic c || isNumeric c

/-- Take the characters in the name of a group; there are fewer than `bound`. -/
def groupNameFrom : (bound : Nat) → List Char → PatternReader (List Char)
  | 0, name => return name
  | bound + 1, name => do
    match ← peek with
    | none => return name
    | some '>' => return name
    | some c =>
      if inGroupName name.isEmpty c then do
        bump
        groupNameFrom bound (name ++ [c])
      else fault .nameInvalid (← spanNext)

/-- Take the name of a group, which no other group may have. -/
def groupName : PatternReader Unit := do
  let first ← here
  let name ← groupNameFrom ((← get).rest.length + 1) []
  let last ← here
  if (← peek).isNone then fault .nameUnfinished (← spanHere)
  bump
  if name.isEmpty then fault .nameEmpty ⟨first, first⟩
  let name := String.ofList name
  let part := ⟨first, last⟩
  match (← get).names.find? (·.1 = name) with
  | some other => fault .nameDuplicate part other.2
  | none => modify fun c => { c with names := c.names ++ [(name, part)] }

/-- The flag of a letter. -/
def flag? : Char → Option PatternFlag
  | 'i' => some .anyCase
  | 'm' => some .multiLine
  | 's' => some .allCharacters
  | 'U' => some .preferShort
  | 'u' => some .unicode
  | 'R' => some .returns
  | 'x' => some .spaced
  | _ => none

/-- What a character in a list of flags stands for. -/
def flagItem? : Char → Option FlagItem
  | '-' => some .negation
  | c => (flag? c).map .flag

/-- Take flags up to a colon or a closing parenthesis; there are fewer than `bound`. The last of the
items so far comes first. -/
def flagsFrom : (bound : Nat) → List (FlagItem × Span) → PatternReader (List FlagItem)
  | 0, items => return (items.map (·.1)).reverse
  | bound + 1, items => do
    let part ← spanNext
    match ← peek with
    | none => fault .flagUnfinished part
    | some c =>
      if c = ':' || c = ')' then
        match items with
        | (.negation, part) :: _ => fault .flagDanglingNegation part
        | items => return (items.map (·.1)).reverse
      else
        match flagItem? c with
        | none => fault .flagUnrecognized part
        | some item => do
          if let some other := items.find? (·.1 = item) then
            let kind := if item = .negation then .flagRepeatedNegation else .flagDuplicate
            fault kind part other.2
          bump
          if (← peek).isNone then fault .flagUnfinished (← spanHere)
          flagsFrom bound ((item, part) :: items)

/-- Take what a parenthesis opens. -/
def groupOpening (opening : Span) : PatternReader GroupOpening := do
  bump
  skipBlanks
  for ahead in ["?=", "?!", "?<=", "?<!"] do
    if ← bumpIf ahead then fault .lookAround ⟨opening.first, ← here⟩
  let inner ← spanHere
  if ← bumpIf "?P<" then do
    groupName
    return .group []
  else if ← bumpIf "?<" then do
    groupName
    return .group []
  else if ← bumpIf "?" then do
    if (← peek).isNone then fault .groupUnclosed opening
    let items ← flagsFrom ((← get).rest.length + 1) []
    let close ← peek
    bump
    if close = some ')' then
      if items.isEmpty then fault .repetitionMissing inner
      return .flags items
    else return .group items
  else return .group []

/-! ### Repetitions -/

/-- The items before a repetition, the last one first, and what is repeated, which must not be missing. -/
def repeatable : List Expression → PatternReader (Expression × List Expression)
  | .flags _ :: _ => do fault .repetitionMissing (← spanHere)
  | e :: items => return (e, items)
  | [] => do fault .repetitionMissing (← spanHere)

/-- Take a mark that repeats what stands before it, and a question mark behind that, which does not
matter. -/
def repetition (items : List Expression) (least : Nat) (most : Option Nat) :
    PatternReader (List Expression) := do
  let (e, items) ← repeatable items
  bump
  discard (bumpIf "?")
  return .repeated e least most :: items

/-- Take a count that repeats what stands before it. -/
def countedRepetition (items : List Expression) : PatternReader (List Expression) := do
  let (e, items) ← repeatable items
  let start ← here
  let (least, most) ← count start
  if ← bumpOver then discard (bumpIf "?")
  if most.any (· < least) then fault .countInvalid ⟨start, ← here⟩
  return .repeated e least most :: items

/-! ### Whole patterns -/

/-- A group that is open: where it was opened, and with which flags; whether blanks were skipped before
it; and what stands before it in the group that it is in. -/
structure OpenGroup where
  opening : Span
  flags : List FlagItem
  spaced : Bool
  choices : List Expression
  items : List Expression

/-- The expression of choices and items, which are given the last one first. -/
def closed (choices items : List Expression) : Expression :=
  .ofChoices ((Expression.ofItems items.reverse :: choices).reverse)

/-- Set whether blanks are skipped, if flags say so. -/
def setSpaced (items : List FlagItem) : PatternReader Unit :=
  modify fun c => { c with spaced := (FlagItem.setting? .spaced false items).getD c.spaced }

/-- Take the rest of a pattern inside open groups. The choices and items of the innermost group are
given the last one first. Every round takes a character at least. -/
def patternFrom : (fuel : Nat) → List OpenGroup → (choices items : List Expression) →
    PatternReader Expression
  | 0, _, choices, items => return closed choices items
  | fuel + 1, groups, choices, items => do
    skipBlanks
    match ← peek with
    | none =>
      match groups with
      | [] => return closed choices items
      | g :: _ => fault .groupUnclosed g.opening
    | some '(' => do
      let opening ← spanNext
      match ← groupOpening opening with
      | .flags fs => do
        setSpaced fs
        patternFrom fuel groups choices (.flags fs :: items)
      | .group fs => do
        let spaced := (← get).spaced
        setSpaced fs
        patternFrom fuel (⟨opening, fs, spaced, choices, items⟩ :: groups) [] []
    | some ')' =>
      match groups with
      | [] => fault .groupUnopened (← spanNext)
      | g :: groups => do
        modify fun c => { c with spaced := g.spaced }
        bump
        patternFrom fuel groups g.choices (.group g.flags (closed choices items) :: g.items)
    | some '|' => do
      bump
      patternFrom fuel groups (.ofItems items.reverse :: choices) []
    | some '[' => do patternFrom fuel groups choices ((← brackets) :: items)
    | some '?' => do patternFrom fuel groups choices (← repetition items 0 (some 1))
    | some '*' => do patternFrom fuel groups choices (← repetition items 0 none)
    | some '+' => do patternFrom fuel groups choices (← repetition items 1 none)
    | some '\x7b' => do patternFrom fuel groups choices (← countedRepetition items)
    | some '\\' => do patternFrom fuel groups choices ((← escape) :: items)
    | some '.' => do
      let part ← spanNext
      bump
      patternFrom fuel groups choices (.point part :: items)
    | some '^' => do
      let part ← spanNext
      bump
      patternFrom fuel groups choices (.place .lineStart part :: items)
    | some '$' => do
      let part ← spanNext
      bump
      patternFrom fuel groups choices (.place .lineEnd part :: items)
    | some _ => do patternFrom fuel groups choices (.literal (← plainLiteral) :: items)

end PatternReader

/-- The expression of a text. -/
def Expression.ofText (text : String) : Except PatternFault Expression :=
  (PatternReader.patternFrom (text.length + 1) [] [] []).run' { rest := text.toList }

end StackScript
