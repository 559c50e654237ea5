/-!
Sets of characters given by their boundaries.

A set of code points that is a union of long ranges is held as its *inversion list*: the sorted
code points at which membership changes. A code point is in the set when an odd number of
boundaries lies at or below it.

* `CharSet.contains`: membership of a character.
-/

namespace StackScript

/-- A set of code points, as the code points at which membership changes. -/
structure CharSet where
  /-- The first boundary opens a range, the second closes it, the third opens the next. -/
  boundaries : Array Nat

/-- A character is in the set when the boundaries up to it are odd in number. -/
def CharSet.contains (s : CharSet) (c : Char) : Bool :=
  s.boundaries.foldl (fun inside b => if b ≤ c.toNat then !inside else inside) false

end StackScript
