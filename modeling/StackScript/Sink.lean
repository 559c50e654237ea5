/-!
Sinks: where printed text goes.

A sink keeps what was written to it. It may have room for a number of bytes only; the write that
does not fit keeps what fits and fails, and so does every later one.

* `Sink`: the text written so far and the room left;
* `Sink.write`: write a text, and say whether all of it was taken.
-/

namespace StackScript

/-- A receiver of text, with room for so many more bytes, or for any number of them. -/
structure Sink where
  written : String := ""
  room : Option Nat := none
deriving Inhabited

namespace Sink

/-- The reason that a sink gives for a failed write. -/
def fullReason : String := "sink full"

/-- The characters at the front of a text that fit into so many bytes. -/
def fitting : Nat → List Char → List Char
  | _, [] => []
  | room, c :: cs => if c.utf8Size ≤ room then c :: fitting (room - c.utf8Size) cs else []

/-- Write a text. The answer is whether all of it was taken; if not, the sink is full. -/
def write (sink : Sink) (text : String) : Bool × Sink :=
  match sink.room with
  | none => (true, { sink with written := sink.written ++ text })
  | some room =>
    if text.utf8ByteSize ≤ room then
      (true, ⟨sink.written ++ text, some (room - text.utf8ByteSize)⟩)
    else (false, ⟨sink.written ++ String.ofList (fitting room text.toList), some 0⟩)

end Sink

end StackScript
