import StackScript.UnitText.Numeral

/-!
Foreign data: the data of fields that a unit does not have.

Such a field does not matter, but its datum has to be well formed: it is a truth value, a number, a
text, a character, an optional datum, a list, a dictionary, a word, or a group of items or of fields,
which may carry a word before it. Data are nested only so deep, in levels: an optional datum stands one
level below what it is in, and what is in a list, a dictionary or a group two.

* `foreign`: the reader of such a datum.
-/

namespace StackScript

namespace UnitText

/-- The readers of what is inside a datum: inside an optional one, and inside one of many parts. -/
structure Inner where
  optional : Reader Unit
  part : Reader Unit

/-- Take a key, a colon, and a value. -/
def foreignEntry (part : Reader Unit) : Reader Unit := do
  part
  space
  mark ':'
  space
  part

/-- What stands next is a word with a colon behind it. -/
def fieldAhead (cs : List Char) : Bool :=
  match (do discard word; space : Reader Unit) cs with
  | some (_, ':' :: _) => true
  | _ => false

/-- Take a group of items or of fields after its opening parenthesis. -/
def foreignGroup (part : Reader Unit) : Reader Unit := do
  space
  if fieldAhead (← get) then discard (parts ')' (foreignEntry part))
  else discard (parts ')' part)

/-- Take what follows the word for an optional datum: the datum in parentheses, or bare if that is
allowed. -/
def foreignOption (bareOptions : Bool) (datum : Reader Unit) : Reader Unit := do
  space
  if ← mark? '(' then
    space
    datum
    discard comma?
    mark ')'
  else if bareOptions then datum
  else failure

/-- Take what is in a datum of many parts, after its opening mark, if there is a level for that. -/
def inside (inner : Option Inner) (reader : Reader Unit → Reader Unit) : Reader Unit :=
  match inner with
  | some inner => reader inner.part
  | none => failure

/-- Take a datum that no word opens. -/
def foreignMarked (inner : Option Inner) : Reader Unit := fun cs =>
  match cs with
  | '(' :: cs => inside inner foreignGroup cs
  | '[' :: cs => inside inner (fun part => discard (parts ']' part)) cs
  | '\x7b' :: cs => inside inner (fun part => discard (parts '\x7d' (foreignEntry part))) cs
  | '.' :: _ => (discard float : Reader Unit) cs
  | '"' :: _ => (discard text : Reader Unit) cs
  | 'r' :: _ => (discard text : Reader Unit) cs
  | '\'' :: _ => (discard letter : Reader Unit) cs
  | c :: _ => if c.isDigit || c = '+' || c = '-' then number cs else none
  | [] => none

/-- Take a datum that a word opens, and the group behind the word, or another datum. -/
def foreignNamed (inner : Option Inner) : Reader Unit := fun cs =>
  match word cs with
  | none => foreignMarked inner cs
  | some (_, rest) =>
    (do
      space
      if ← mark? '(' then inside inner foreignGroup : Reader Unit) rest

/-- Take an empty group without space in it, for which no level is needed. -/
def emptyGroup? : Reader Bool := fun cs =>
  match cs with
  | '(' :: ')' :: rest => some (true, rest)
  | cs => some (false, cs)

/-- Take a datum, given the readers of what is inside it, if there is a level for that. -/
def foreignOver (bareOptions : Bool) (inner : Option Inner) : Reader Unit := do
  if (← anyKeyword? ["true", "false"]).isSome then return ()
  else if ← keyword? "Some" then
    match inner with
    | some inner => foreignOption bareOptions inner.optional
    | none => failure
  else if ← keyword? "None" then return ()
  else if ← emptyGroup? then return ()
  else if (← anyKeyword? ["inf", "-inf", "NaN"]).isSome then return ()
  else foreignNamed inner

/-- Take a datum with so many levels left for what is inside it. Whether an optional datum may be bare
is said by the attributes of the text. -/
def foreign (bareOptions : Bool) : (levels : Nat) → Reader Unit
  | 0 => foreignOver bareOptions none
  | 1 => foreignOver bareOptions (some ⟨foreign bareOptions 0, failure⟩)
  | levels + 2 =>
    foreignOver bareOptions
      (some ⟨foreign bareOptions (levels + 1), foreign bareOptions levels⟩)

end UnitText

end StackScript
