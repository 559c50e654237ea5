import StackScript.Text.Numeral

/-!
Reading the notation that units are stored in: its parts.

White space and comments may stand between any two parts of a datum. A comment runs from two slashes
to the end of the line, or between slash-star marks, which nest.

* `Reader`: readers take a part from the front of a text;
* `space`, `mark`, `keyword?`, `word`, `text`, `letter`: the readers of single parts;
* `parts`: the parts between two marks, with a comma behind each but the last, and perhaps behind that.
-/

namespace StackScript

namespace UnitText

/-- A reader takes a part from the front of a text, if the part is there. -/
abbrev Reader (α : Type) := StateT (List Char) Option α

/-! ### Space -/

/-- The characters that separate parts. -/
def isSpace (c : Char) : Bool :=
  c = ' ' || c = '\n' || c = '\t' || c = '\r'

/-- The text behind a comment between marks that is open at so many levels, none if it never ends. -/
def skipNested : (level : Nat) → List Char → Option (List Char)
  | 0, cs => some cs
  | _ + 1, [] => none
  | level + 1, c :: cs =>
    if c = '/' then
      match cs with
      | '*' :: cs => skipNested (level + 2) cs
      | cs => skipNested (level + 1) cs
    else if c = '*' then
      match cs with
      | '/' :: cs => skipNested level cs
      | cs => skipNested (level + 1) cs
    else skipNested (level + 1) cs
termination_by _ cs => cs.length

/-- The text behind white space and comments, of which there are fewer than `bound`. -/
def skipSpaceFrom : (bound : Nat) → List Char → Option (List Char)
  | 0, _ => none
  | bound + 1, cs =>
    match cs.dropWhile isSpace with
    | '/' :: '/' :: cs => skipSpaceFrom bound (cs.dropWhile (· != '\n'))
    | '/' :: '*' :: cs => (skipNested 1 cs).bind (skipSpaceFrom bound)
    | '/' :: _ => none
    | cs => some cs

/-- Take white space and comments. -/
def space : Reader Unit := fun cs =>
  (skipSpaceFrom (cs.length + 1) cs).map fun rest => ((), rest)

/-! ### Marks and words -/

/-- Take a character that has to stand next. -/
def mark (c : Char) : Reader Unit
  | d :: cs => if c = d then some ((), cs) else none
  | [] => none

/-- Take a character if it stands next, and say whether it did. -/
def mark? (c : Char) : Reader Bool
  | d :: cs => if c = d then some (true, cs) else some (false, d :: cs)
  | [] => some (false, [])

/-- Take a comma if one stands next, and the space around it. -/
def comma? : Reader Bool := do
  space
  let there ← mark? ','
  space
  return there

/-- The ASCII letters and the underscore open a word. -/
def opensWord (c : Char) : Bool := c.isAlpha || c = '_'

/-- Letters, digits and underscores continue a word. -/
def continuesWord (c : Char) : Bool := c.isAlphanum || c = '_'

/-- A word behind the mark for raw words may hold points and signs too. -/
def continuesRawWord (c : Char) : Bool :=
  continuesWord c || c = '.' || c = '+' || c = '-'

/-- Take a word. It must not run on into a point or a sign, unless it is marked as raw, and the marks of
a raw text are not part of a word. -/
def word : Reader String := fun cs =>
  match cs with
  | [] => none
  | 'r' :: '"' :: _ => none
  | 'r' :: '#' :: rest =>
    let name := rest.takeWhile continuesRawWord
    if name.isEmpty then none else some (String.ofList name, rest.dropWhile continuesRawWord)
  | c :: rest =>
    let name := c :: rest.takeWhile continuesWord
    let rest := rest.dropWhile continuesWord
    if opensWord c && !(rest.head?.any continuesRawWord) then some (String.ofList name, rest)
    else none

/-- Take a given word, which may have a sign, if it stands next and does not run on. -/
def keyword? (name : String) : Reader Bool := fun cs =>
  let rest := cs.drop name.length
  if cs.take name.length = name.toList && !(rest.head?.any continuesWord) then some (true, rest)
  else some (false, cs)

/-- Take one of several words, the first that stands next. -/
def anyKeyword? : List String → Reader (Option String)
  | [] => return none
  | name :: names => do
    if ← keyword? name then return some name else anyKeyword? names

/-! ### Texts and characters -/

/-- The value of up to `most` hexadecimal digits before a closing mark. -/
def hexBefore (close : Char) : (most : Nat) → (value : Nat) → List Char → Option (Nat × List Char)
  | 0, value, cs => some (value, cs)
  | _, _, [] => none
  | most + 1, value, c :: cs =>
    if c = close then some (value, c :: cs)
    else (hexValue? c).bind fun d => hexBefore close most (16 * value + d) cs

/-- The character with a number, if there is one. -/
def charOfNat? (n : Nat) : Option Char :=
  if n.isValidChar then some (Char.ofNat n) else none

/-- Take what follows a backslash: the character that the escape stands for. -/
def escape : Reader Char := fun cs =>
  match cs with
  | '\'' :: cs => some ('\'', cs)
  | '"' :: cs => some ('"', cs)
  | '\\' :: cs => some ('\\', cs)
  | 'n' :: cs => some ('\n', cs)
  | 'r' :: cs => some ('\r', cs)
  | 't' :: cs => some ('\t', cs)
  | '0' :: cs => some (Char.ofNat 0, cs)
  | 'x' :: a :: b :: cs =>
    match hexValue? a, hexValue? b with
    | some a, some b => some (Char.ofNat (16 * a + b), cs)
    | _, _ => none
  | 'u' :: '\x7b' :: '\x7d' :: _ => none
  | 'u' :: '\x7b' :: cs =>
    match hexBefore '\x7d' 6 0 cs with
    | some (n, '\x7d' :: cs) => (charOfNat? n).map fun c => (c, cs)
    | _ => none
  | _ => none

/-- Take a text after its opening mark, of fewer than `bound` characters. -/
def textBody : (bound : Nat) → Reader (List Char)
  | 0, _ => none
  | _, [] => none
  | bound + 1, c :: cs =>
    if c = '"' then some ([], cs)
    else if c = '\\' then
      (escape cs).bind fun (d, rest) =>
        (textBody bound rest).map fun (ds, rest) => (d :: ds, rest)
    else (textBody bound cs).map fun (ds, rest) => (c :: ds, rest)

/-- Take a text without escapes up to a mark followed by so many hashes. -/
def rawBody (hashes : Nat) : Reader (List Char)
  | [] => none
  | c :: cs =>
    if c = '"' && cs.take hashes = List.replicate hashes '#' then some ([], cs.drop hashes)
    else (rawBody hashes cs).map fun (ds, rest) => (c :: ds, rest)

/-- Take a text, with escapes between quotation marks, or raw behind the letter for that. -/
def text : Reader String := fun cs =>
  match cs with
  | '"' :: cs => (textBody (cs.length + 1) cs).map fun (ds, rest) => (String.ofList ds, rest)
  | 'r' :: cs =>
    let hashes := (cs.takeWhile (· = '#')).length
    match cs.drop hashes with
    | '"' :: cs => (rawBody hashes cs).map fun (ds, rest) => (String.ofList ds, rest)
    | _ => none
  | _ => none

/-- Take a single character between quotation marks. -/
def letter : Reader Char := fun cs =>
  match cs with
  | '\'' :: '\\' :: cs =>
    match escape cs with
    | some (c, '\'' :: rest) => some (c, rest)
    | _ => none
  | '\'' :: c :: '\'' :: rest => if c = '\'' then none else some (c, rest)
  | _ => none

/-! ### Lists -/

/-- Take parts up to a closing mark. There are fewer than `bound`. -/
def partsBelow {α : Type} (close : Char) (part : Reader α) : (bound : Nat) → Reader (List α)
  | 0 => failure
  | bound + 1 => do
    space
    if ← mark? close then return []
    let first ← part
    if ← comma? then return first :: (← partsBelow close part bound)
    mark close
    return [first]

/-- Take parts up to a closing mark. There are no more than there are characters. -/
def parts {α : Type} (close : Char) (part : Reader α) : Reader (List α) := fun cs =>
  partsBelow close part (cs.length + 1) cs

end UnitText

end StackScript
