import StackScript.Text.Numeral

/-!
JSON texts.

* `Json`: JSON data, objects with their members in order and with repeated names;
* `Json.Scalar`: the values of the members of an object that is written;
* `Json.writeString`, `Json.writeObject`: a text as a JSON string, and an object with a member to a line;
* `Json.read?`: the datum that a whole text stands for;
* `Json.Codec`: a writer of objects and a reader of data; `Json.standardCodec` is the one of this module.

Design notes: reading is strict. A text may not hold raw control characters, a number has no needless
zero in front, and only white space may follow the datum. An escape of half a surrogate pair alone
denotes no character, and a string with one is no text; such a string may stand for a value or name a
member nevertheless, so both hold an optional text.
-/

namespace StackScript

/-- JSON data. Numbers are kept as they are written. -/
inductive Json where
  | null
  | bool (b : Bool)
  | number (text : String)
  /-- A string, and the text that it is, none if an escape in it denotes no character. -/
  | string (text : Option String)
  | array (items : List Json)
  | object (members : List (Option String × Json))
deriving Inhabited

namespace Json

/-! ### Writing -/

/-- A character inside a JSON string. -/
def writeChar (c : Char) : List Char :=
  if c = '"' then ['\\', '"']
  else if c = '\\' then ['\\', '\\']
  else if c = '\n' then ['\\', 'n']
  else if c = '\r' then ['\\', 'r']
  else if c = '\t' then ['\\', 't']
  else if c = Char.ofNat 8 then ['\\', 'b']
  else if c = Char.ofNat 12 then ['\\', 'f']
  else if c.toNat < 0x20 then
    ['\\', 'u', '0', '0', hexDigit (c.toNat / 16), hexDigit (c.toNat % 16)]
  else [c]

/-- A text as a JSON string. -/
def writeString (s : String) : String :=
  String.ofList ('"' :: s.toList.flatMap writeChar ++ ['"'])

/-- The value of a member of an object that is written. -/
inductive Scalar where
  | null
  | bool (b : Bool)
  | text (s : String)

/-- The datum that a value is. -/
def Scalar.datum : Scalar → Json
  | null => .null
  | bool b => .bool b
  | text s => .string (some s)

@[simp] theorem Scalar.datum_bool (b : Bool) : (Scalar.bool b).datum = .bool b := rfl

@[simp] theorem Scalar.datum_text (s : String) : (Scalar.text s).datum = .string (some s) := rfl

/-- The text of a value. -/
def Scalar.write : Scalar → String
  | null => "null"
  | bool b => if b then "true" else "false"
  | text s => writeString s

/-- A member on a line of its own: its name, and its value. -/
def writeMember (m : String × Scalar) : String :=
  "\n  " ++ writeString m.1 ++ ": " ++ m.2.write

/-- An object with a member to a line. -/
def writeObject (members : List (String × Scalar)) : String :=
  if members.isEmpty then "\x7b\x7d"
  else "\x7b" ++ ",".intercalate (members.map writeMember) ++ "\n\x7d"

/-! ### Reading -/

/-- A reader takes a datum from the front of a text, if there is one. -/
abbrev Reader (α : Type) := List Char → Option (α × List Char)

/-- JSON white space. -/
def isSpace (c : Char) : Bool :=
  c = ' ' || c = '\n' || c = '\t' || c = '\r'

/-- A text from its first character on that is not white space. -/
def skipSpace (cs : List Char) : List Char :=
  cs.dropWhile isSpace

/-- A text after a word, if it begins with that word. -/
def dropWord? : (word : List Char) → List Char → Option (List Char)
  | [], cs => some cs
  | w :: ws, c :: cs => if w = c then dropWord? ws cs else none
  | _ :: _, [] => none

/-- The four hexadecimal digits of an escape. -/
def readUnit : Reader Nat
  | a :: b :: c :: d :: cs =>
    match hexValue? a, hexValue? b, hexValue? c, hexValue? d with
    | some a, some b, some c, some d => some (((a * 16 + b) * 16 + c) * 16 + d, cs)
    | _, _, _, _ => none
  | _ => none

/-- The first half of a surrogate pair. -/
def isLeading (u : Nat) : Bool := 0xd800 ≤ u && u < 0xdc00

/-- The second half of a surrogate pair. -/
def isTrailing (u : Nat) : Bool := 0xdc00 ≤ u && u < 0xe000

/-- A character by its code unit, together with the code unit after it when the two are a pair. The
answer is no character for half a pair alone. -/
def readCodePoint (cs : List Char) : Option (Option Char × List Char) :=
  match readUnit cs with
  | none => none
  | some (u, rest) =>
    if isLeading u then
      match rest with
      | '\\' :: 'u' :: more =>
        match readUnit more with
        | none => none
        | some (v, after) =>
          if isTrailing v then
            some (some (Char.ofNat (0x10000 + (u - 0xd800) * 0x400 + (v - 0xdc00))), after)
          else some (none, rest)
      | _ => some (none, rest)
    else if isTrailing u then some (none, rest)
    else some (some (Char.ofNat u), rest)

/-- The character that an escape stands for, after its backslash. -/
def readEscape : List Char → Option (Option Char × List Char)
  | '"' :: cs => some (some '"', cs)
  | '\\' :: cs => some (some '\\', cs)
  | '/' :: cs => some (some '/', cs)
  | 'b' :: cs => some (some (Char.ofNat 8), cs)
  | 'f' :: cs => some (some (Char.ofNat 12), cs)
  | 'n' :: cs => some (some '\n', cs)
  | 'r' :: cs => some (some '\r', cs)
  | 't' :: cs => some (some '\t', cs)
  | 'u' :: cs => readCodePoint cs
  | _ => none

/-- A string after its opening mark, of fewer than `bound` characters: none in place of its text when
an escape in it denotes no character. -/
def readStringBody : (bound : Nat) → Reader (Option (List Char))
  | 0, _ => none
  | _, [] => none
  | bound + 1, c :: cs =>
    if c = '"' then some (some [], cs)
    else if c = '\\' then
      match readEscape cs with
      | none => none
      | some (d, rest) =>
        (readStringBody bound rest).map fun (text, rest) =>
          (d.bind fun d => text.map (d :: ·), rest)
    else if c.toNat < 0x20 then none
    else (readStringBody bound cs).map fun (text, rest) => (text.map (c :: ·), rest)

/-- A string after its opening mark. -/
def readString (cs : List Char) : Option (Option String × List Char) :=
  (readStringBody (cs.length + 1) cs).map fun (text, rest) => (text.map String.ofList, rest)

/-- Digits, at least one. -/
def readDigits (cs : List Char) : Option (List Char × List Char) :=
  let ds := cs.takeWhile Char.isDigit
  if ds.isEmpty then none else some (ds, cs.dropWhile Char.isDigit)

/-- The whole part of a number: zero, or digits that do not begin with one. -/
def readWhole : Reader (List Char)
  | '0' :: '0' :: _ => none
  | '0' :: c :: cs => if c.isDigit then none else some (['0'], c :: cs)
  | cs => readDigits cs

/-- The fraction of a number, if it has one. -/
def readFraction : Reader (List Char)
  | '.' :: cs => (readDigits cs).map fun (ds, rest) => ('.' :: ds, rest)
  | cs => some ([], cs)

/-- The exponent of a number, if it has one. -/
def readExponent : Reader (List Char)
  | c :: cs =>
    if c = 'e' ∨ c = 'E' then
      let (sign, cs) := match cs with
        | '+' :: cs => (['+'], cs)
        | '-' :: cs => (['-'], cs)
        | cs => ([], cs)
      (readDigits cs).map fun (ds, rest) => (c :: sign ++ ds, rest)
    else some ([], c :: cs)
  | [] => some ([], [])

/-- A number. -/
def readNumber (cs : List Char) : Option (Json × List Char) := do
  let (sign, cs) := match cs with
    | '-' :: cs => (['-'], cs)
    | cs => ([], cs)
  let (whole, cs) ← readWhole cs
  let (fraction, cs) ← readFraction cs
  let (exponent, cs) ← readExponent cs
  return (.number (String.ofList (sign ++ whole ++ fraction ++ exponent)), cs)

/-- The items of an array, given how to read one, after the bracket or a comma. -/
def readItems (inner : Reader Json) : (bound : Nat) → Reader (List Json)
  | 0, _ => none
  | bound + 1, cs => do
    let (item, cs) ← inner cs
    match skipSpace cs with
    | ']' :: cs => return ([item], cs)
    | ',' :: cs => do
      let (items, cs) ← readItems inner bound cs
      return (item :: items, cs)
    | _ => none

/-- A member of an object: a name, a colon, and a value. -/
def readMember (inner : Reader Json) (cs : List Char) :
    Option ((Option String × Json) × List Char) := do
  match skipSpace cs with
  | '"' :: cs => do
    let (name, cs) ← readString cs
    match skipSpace cs with
    | ':' :: cs => do
      let (value, cs) ← inner cs
      return ((name, value), cs)
    | _ => none
  | _ => none

/-- The members of an object, after the brace or a comma. -/
def readMembers (inner : Reader Json) : (bound : Nat) → Reader (List (Option String × Json))
  | 0, _ => none
  | bound + 1, cs => do
    let (first, cs) ← readMember inner cs
    match skipSpace cs with
    | '\x7d' :: cs => return ([first], cs)
    | ',' :: cs => do
      let (members, cs) ← readMembers inner bound cs
      return (first :: members, cs)
    | _ => none

/-- A datum, given how to read the data inside it. -/
def readOver (bound : Nat) (inner : Reader Json) (cs : List Char) : Option (Json × List Char) :=
  match skipSpace cs with
  | '"' :: cs => (readString cs).map fun (text, rest) => (.string text, rest)
  | '[' :: cs =>
    match skipSpace cs with
    | ']' :: cs => some (.array [], cs)
    | cs => (readItems inner bound cs).map fun (items, rest) => (.array items, rest)
  | '\x7b' :: cs =>
    match skipSpace cs with
    | '\x7d' :: cs => some (.object [], cs)
    | cs => (readMembers inner bound cs).map fun (members, rest) => (.object members, rest)
  | 't' :: cs => (dropWord? "rue".toList cs).map fun rest => (.bool true, rest)
  | 'f' :: cs => (dropWord? "alse".toList cs).map fun rest => (.bool false, rest)
  | 'n' :: cs => (dropWord? "ull".toList cs).map fun rest => (.null, rest)
  | cs => readNumber cs

/-- A datum with fewer than `depth` levels of arrays and objects, none longer than `bound`. -/
def readDatum (bound : Nat) : (depth : Nat) → Reader Json
  | 0, _ => none
  | depth + 1, cs => readOver bound (readDatum bound depth) cs

/-- The datum of a text that holds nothing else. -/
def read? (text : String) : Option Json := do
  let cs := text.toList
  let bound := cs.length + 1
  let (datum, rest) ← readDatum bound bound cs
  if (skipSpace rest).isEmpty then some datum else none

/-! ### Codecs -/

/-- How objects are kept as text. -/
structure Codec where
  /-- The text of an object, if it can be written. -/
  write : List (String × Scalar) → Option String
  /-- The datum of a text, if the text holds one. -/
  read : String → Option Json

/-- Objects are written line by line, and reading is strict. -/
def standardCodec : Codec where
  write members := some (writeObject members)
  read := read?

end Json

end StackScript
