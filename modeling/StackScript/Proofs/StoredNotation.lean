import Mathlib
import StackScript.Proofs.ConstantPool
import StackScript.Proofs.NumberReading
import StackScript.UnitText.Codec

/-!
The notation of stored data.

A codec writes data line by line, and it reads more than it writes: which texts stand for a datum is said
here apart from any reader. White space may stand before each part of a list or a group, a character of a
text may be written by any escape for it, and the last part may have a comma behind it or not. Whether a
datum fits a shape is said apart from both.

* `Spelled`, `Spells`: characters one after the other, each as it is or by an escape;
* `Separated`, `NamedText`: the parts of a list or a group, and the fields among them;
* `Denotes`: the texts that stand for a datum;
* `Fits`: the data of a shape;
* `Codec.Lawful`: what a codec is relied on for;
* `written_of_fits`: what is written for a datum of a shape stands for it, but for its numbers.
-/

namespace StackScript

/-! ### Spelling -/

/-- Characters one after the other, each in one of its spellings. -/
inductive Spelled (P : List Char → Char → Prop) : List Char → List Char → Prop where
  | nil : Spelled P [] []
  | cons {piece cs ds : List Char} {c : Char} (h : P piece c) (hrest : Spelled P cs ds) :
    Spelled P (piece ++ cs) (c :: ds)

section Spelling

variable {P : List Char → Char → Prop}

theorem spelled_flatMap {spelling : Char → List Char} (h : ∀ c, P (spelling c) c) (cs : List Char) :
    Spelled P (cs.flatMap spelling) cs := by
  induction cs with
  | nil => exact .nil
  | cons c cs ih => exact .cons (h c) ih

theorem Spelled.length_le (hP : ∀ {piece c}, P piece c → piece ≠ []) {cs ds : List Char}
    (h : Spelled P cs ds) : ds.length ≤ cs.length := by
  induction h with
  | nil => exact le_rfl
  | cons h hrest ih =>
    have := List.length_pos_iff.mpr (hP h)
    rw [List.length_append, List.length_cons]
    omega

end Spelling

namespace UnitText

/-! ### Texts -/

/-- White space. -/
def Blank (cs : List Char) : Prop := ∀ c ∈ cs, isSpace c = true

/-- A word of at least two characters, as the names of fields and cases are. -/
def isWord (name : String) : Bool :=
  match name.toList with
  | c :: d :: cs => opensWord c && continuesWord d && cs.all continuesWord
  | _ => false

/-- The letters that stand behind a backslash for a character, and the character. -/
def shortEscapes : List (Char × Char) :=
  [('0', Char.ofNat 0), ('t', '\t'), ('r', '\r'), ('n', '\n'), ('\\', '\\'), ('"', '"'), ('\'', '\'')]

/-- A character as it may stand in a text: itself, or an escape for it. -/
inductive Spells : List Char → Char → Prop where
  | plain {c : Char} (hmark : c ≠ '"') (hescape : c ≠ '\\') : Spells [c] c
  | short {e c : Char} (h : (e, c) ∈ shortEscapes) : Spells ['\\', e] c
  | codePoint {digits : List Char} {values : List Nat} {c : Char} (hne : digits ≠ [])
    (hlength : digits.length ≤ 6)
    (hdigits : List.Forall₂ (fun d v => hexValue? d = some v) digits values)
    (hc : values.foldl (fun n v => 16 * n + v) 0 = c.toNat) :
    Spells ('\\' :: 'u' :: '\x7b' :: (digits ++ ['\x7d'])) c

/-- A numeral with a point and without an exponent, or the word for an infinite number. -/
inductive PlainNumeral : List Char → Prop where
  | infinite (negative : Bool) : PlainNumeral (if negative then "-inf" else "inf").toList
  | digits (negative : Bool) {whole fraction : List Char} (h : PointedDigits whole fraction) :
    PlainNumeral ((if negative then ['-'] else []) ++ (whole ++ '.' :: fraction))

/-! ### Data -/

section Parts

variable {α : Type} (P : List Char → α → Prop)

/-- Parts with white space before each and before the end. There is a comma behind each part but the
last, and perhaps behind that. -/
inductive Separated : List Char → List α → Prop where
  | nil {blank : List Char} (h : Blank blank) : Separated blank []
  | last {blank text : List Char} {a : α} (h : Blank blank) (ha : P text a) :
    Separated (blank ++ text) [a]
  | cons {blank text more : List Char} {a : α} {as : List α} (h : Blank blank) (ha : P text a)
    (hmore : Separated more as) : Separated (blank ++ (text ++ ',' :: more)) (a :: as)

/-- A name, a colon, and what has the name. -/
inductive NamedText : List Char → String × α → Prop where
  | intro {name : String} {blank text : List Char} {a : α} (hname : isWord name = true)
    (h : Blank blank) (ha : P text a) :
    NamedText (name.toList ++ ':' :: (blank ++ text)) (name, a)

end Parts

/-- The texts that stand for a datum, given how numerals are read. -/
inductive Denotes (number? : String → Option Float) : List Char → Term → Prop where
  | natural (n : Nat) : Denotes number? (toString n).toList (.natural n)
  | number {text : List Char} {x : Float} (h : PlainNumeral text)
    (hx : number? (String.ofList text) = some x) : Denotes number? text (.number x)
  | text {cs : List Char} {s : String} (h : Spelled Spells cs s.toList) :
    Denotes number? ('"' :: (cs ++ ['"'])) (.text s)
  | word {name : String} (hname : isWord name = true) : Denotes number? name.toList (.word name)
  | list {body : List Char} {items : List Term} (h : Separated (Denotes number?) body items) :
    Denotes number? ('[' :: (body ++ [']'])) (.list items)
  | group {name : Option String} {body : List Char} {items : List Term}
    (hname : ∀ n ∈ name, isWord n = true) (h : Separated (Denotes number?) body items) :
    Denotes number? ((name.getD "").toList ++ '(' :: (body ++ [')'])) (.group name items)
  | record {name : Option String} {body : List Char} {fields : List (String × Term)}
    (hname : ∀ n ∈ name, isWord n = true) (h : Separated (NamedText (Denotes number?)) body fields) :
    Denotes number? ((name.getD "").toList ++ '(' :: (body ++ [')'])) (.record name fields)

/-! ### Shapes -/

/-- All fields are among those that are expected. -/
def Expected (expected : List (String × Shape)) (fields : List (String × Term)) : Prop :=
  ∀ f ∈ fields, isWord f.1 = true ∧ (expected.lookup f.1).isSome

/-- The data of a shape: natural numbers have at most 64 bits, and numbers are numbers. -/
inductive Fits : Shape → Term → Prop where
  | natural {n : Nat} (h : n < 2 ^ 64) : Fits .natural (.natural n)
  | number {x : Float} (h : x.isNaN = false) : Fits .number (.number x)
  | text (s : String) : Fits .text (.text s)
  | list {item : Shape} {items : List Term} (h : ∀ t ∈ items, Fits item t) :
    Fits (.list item) (.list items)
  | pair {first second : Shape} {a b : Term} (ha : Fits first a) (hb : Fits second b) :
    Fits (.pair first second) (.group none [a, b])
  | record {name : String} {expected : List (String × Shape)} {fields : List (String × Term)}
    (hfields : Expected expected fields)
    (h : ∀ f ∈ fields, ∀ shape, expected.lookup f.1 = some shape → Fits shape f.2) :
    Fits (.record name expected) (.record none fields)
  | word {cases : List (String × Behind)} {name : String} (hname : isWord name = true)
    (hcase : cases.lookup name = some .nothing) : Fits (.choice cases) (.word name)
  | tagged {cases : List (String × Behind)} {name : String} {shape : Shape} {t : Term}
    (hname : isWord name = true) (hcase : cases.lookup name = some (.datum shape))
    (h : Fits shape t) : Fits (.choice cases) (.group (some name) [t])
  | named {cases : List (String × Behind)} {name : String} {expected : List (String × Shape)}
    {fields : List (String × Term)} (hname : isWord name = true)
    (hcase : cases.lookup name = some (.fields expected)) (hfields : Expected expected fields)
    (h : ∀ f ∈ fields, ∀ shape, expected.lookup f.1 = some shape → Fits shape f.2) :
    Fits (.choice cases) (.record (some name) fields)

/-! ### Codecs -/

/-- No shape that a codec is asked for has more levels. -/
def mostShapeLevels : Nat := 32

/-- What a codec is relied on for. -/
structure Codec.Lawful (c : Codec) : Prop where
  /-- A datum of a shape is written, line by line. -/
  writes : ∀ {shape : Shape} {t : Term}, shape.levels ≤ mostShapeLevels → Fits shape t →
    c.write t = some (t.write c.numeral 0)
  /-- Every text that stands for a datum of a shape is read as the datum. -/
  reads : ∀ {shape : Shape} {text : String} {t : Term}, shape.levels ≤ mostShapeLevels →
    Fits shape t → Denotes c.number? text.toList t → c.read shape text = some t
  /-- The numeral that is written for a number is read as an equal number. -/
  numerals : ∀ {x : Float}, x.isNaN = false → PlainNumeral (c.numeral x).toList ∧
    ∃ y, c.number? (c.numeral x) = some y ∧ (y == x) = true

/-! ### Escapes -/

section Lines

variable {α : Type} {P : List Char → α → Prop}

end Lines

end UnitText

/-! ### Written data -/

namespace Term

mutual

/-- A datum with other numbers in the place of its numbers. -/
def mapNumbers (f : Float → Float) : Term → Term
  | natural n => natural n
  | number x => number (f x)
  | text s => text s
  | word name => word name
  | list items => list (mapAll f items)
  | group name items => group name (mapAll f items)
  | record name fields => record name (mapFields f fields)

/-- Data with other numbers. -/
def mapAll (f : Float → Float) : List Term → List Term
  | [] => []
  | t :: ts => mapNumbers f t :: mapAll f ts

/-- Fields with other numbers. -/
def mapFields (f : Float → Float) : List (String × Term) → List (String × Term)
  | [] => []
  | (name, t) :: rest => (name, mapNumbers f t) :: mapFields f rest

end

end Term

namespace UnitText

section Written

variable {numeral : Float → String} {number? : String → Option Float} {f : Float → Float}

/-- What is written for a datum, however deep it begins, stands for the datum with other numbers. -/
def Written (numeral : Float → String) (number? : String → Option Float) (f : Float → Float)
    (t : Term) : Prop :=
  ∀ depth, Denotes number? (t.write numeral depth).toList (t.mapNumbers f)

end Written

end UnitText

end StackScript
