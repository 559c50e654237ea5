/-!
Patterns: regular expressions over characters.

A pattern matches parts of a text; what it asks for may also hang on what stands around the part, the
beginning of a line for instance. Only one thing is asked about it here: whether it matches anywhere in
a text. A text is taken character by character, and what a pattern leaves to be matched behind a
character is a list of patterns, one of which has to match there.

* `Letters`, `Place`: what a pattern asks of a single character, and of what stands around a place;
* `Pattern`: patterns;
* `Pattern.matchesEmpty`, `Pattern.behind`: whether a pattern matches nothing at all, and what it leaves
  behind a character;
* `Pattern.occursIn`: a pattern matches somewhere in a text.
-/

namespace StackScript

/-! ### Characters and places -/

/-- Sets of characters, by their code points. -/
inductive Letters where
  /-- The code points from the first to the second of a pair, for any pair. -/
  | ranges (pairs : List (Nat × Nat))
  | union (a b : Letters)
  | intersection (a b : Letters)
  | difference (a b : Letters)
  | symmetricDifference (a b : Letters)
  | complement (a : Letters)
  /-- Each ASCII letter of the set in both cases. -/
  | anyCase (a : Letters)
deriving DecidableEq

namespace Letters

/-- The set of a single character. -/
def single (c : Char) : Letters := ranges [(c.toNat, c.toNat)]

/-- The code point of an ASCII letter in the other case; all others stay. -/
def otherCase (n : Nat) : Nat :=
  if 0x41 ≤ n ∧ n ≤ 0x5a then n + 0x20
  else if 0x61 ≤ n ∧ n ≤ 0x7a then n - 0x20
  else n

/-- Membership of a code point. -/
def contains (n : Nat) : Letters → Bool
  | ranges pairs => pairs.any fun p => p.1 ≤ n && n ≤ p.2
  | union a b => a.contains n || b.contains n
  | intersection a b => a.contains n && b.contains n
  | difference a b => a.contains n && !b.contains n
  | symmetricDifference a b => a.contains n != b.contains n
  | complement a => !a.contains n
  | anyCase a => a.contains n || a.contains (otherCase n)

/-- The ASCII letters and digits and the underscore. -/
def word : Letters := ranges [(0x30, 0x39), (0x41, 0x5a), (0x5f, 0x5f), (0x61, 0x7a)]

end Letters

/-- Where a place stands to words. -/
inductive WordPlace where
  | edge | noEdge | start | stop | startHalf | stopHalf
deriving DecidableEq

/-- What a pattern may ask of a place in a text. -/
inductive Place where
  | textStart | textEnd
  /-- The beginning of a line; lines end with a line feed, or also with a carriage return or both. -/
  | lineStart (returns : Bool)
  | lineEnd (returns : Bool)
  /-- A place in or around a word, of the letters of all scripts or of ASCII. -/
  | word (w : WordPlace) (allScripts : Bool)
deriving DecidableEq

namespace Place

/-- A character belongs to a word. -/
def inWord (c : Option Char) : Bool := c.any fun c => Letters.word.contains c.toNat

/-- A place has the characters before and after it that are asked for. Words are those of ASCII. -/
def holds (before after : Option Char) : Place → Bool
  | textStart => before.isNone
  | textEnd => after.isNone
  | lineStart false => before.isNone || before = some '\n'
  | lineStart true =>
    before.isNone || before = some '\n' || (before = some '\r' && after != some '\n')
  | lineEnd false => after.isNone || after = some '\n'
  | lineEnd true =>
    after.isNone || after = some '\r' || (after = some '\n' && before != some '\r')
  | word .edge _ => inWord before != inWord after
  | word .noEdge _ => inWord before == inWord after
  | word .start _ => !inWord before && inWord after
  | word .stop _ => inWord before && !inWord after
  | word .startHalf _ => !inWord before
  | word .stopHalf _ => !inWord after

end Place

/-! ### Patterns -/

/-- Regular expressions. -/
inductive Pattern where
  | empty
  | one (letters : Letters)
  | place (p : Place)
  | sequence (a b : Pattern)
  | choice (a b : Pattern)
  /-- A pattern so many times, at most so often or without an end. -/
  | repeated (a : Pattern) (least : Nat) (most : Option Nat)
deriving DecidableEq

namespace Pattern

/-- A pattern matches nothing at all between two characters. -/
def matchesEmpty (before after : Option Char) : Pattern → Bool
  | empty => true
  | one _ => false
  | place p => p.holds before after
  | sequence a b => a.matchesEmpty before after && b.matchesEmpty before after
  | choice a b => a.matchesEmpty before after || b.matchesEmpty before after
  | repeated a least _ => least = 0 || a.matchesEmpty before after

/-- What a pattern leaves to be matched behind a character, any of these patterns. A repeated pattern
that may match nothing need not be matched again. -/
def behind (before : Option Char) (c : Char) : Pattern → List Pattern
  | empty => []
  | one letters => if letters.contains c.toNat then [empty] else []
  | place _ => []
  | sequence a b =>
    (a.behind before c).map (sequence · b)
      ++ if a.matchesEmpty before (some c) then b.behind before c else []
  | choice a b => a.behind before c ++ b.behind before c
  | repeated a least most =>
    if most = some 0 then []
    else
      let least := if a.matchesEmpty before (some c) then 0 else least - 1
      (a.behind before c).map (sequence · (repeated a least (most.map (· - 1))))

/-- A pattern or one of those that are left matches from here on, or the pattern further on. -/
def search (p : Pattern) (before : Option Char) (left : List Pattern) : List Char → Bool
  | [] => (p :: left).any (matchesEmpty before none)
  | c :: cs =>
    (p :: left).any (matchesEmpty before (some c))
      || p.search (some c) ((p :: left).flatMap (behind before c)).eraseDups cs

/-- A pattern matches somewhere in a text. -/
def occursIn (p : Pattern) (s : String) : Bool :=
  p.search none [] s.toList

/-! ### Limits -/

/-- A pattern asks about words of all scripts. -/
def asksAllScripts : Pattern → Bool
  | empty => false
  | one _ => false
  | place p =>
    match p with
    | .word _ allScripts => allScripts
    | _ => false
  | sequence a b => a.asksAllScripts || b.asksAllScripts
  | choice a b => a.asksAllScripts || b.asksAllScripts
  | repeated a _ _ => a.asksAllScripts

/-- The bytes that a pattern takes when it is unrolled, 32 for each character. -/
def size : Pattern → Nat
  | empty => 0
  | one _ => 32
  | place _ => 32
  | sequence a b => a.size + b.size
  | choice a b => a.size + b.size + 32
  | repeated a least most => a.size * max 1 (most.getD least)

/-- The bytes that a pattern may take. -/
def sizeLimit : Nat := 10485760

end Pattern

end StackScript
