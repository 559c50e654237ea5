import StackScript.Text.CharClass

/-!
Text without the control sequences of terminals.

A text that is shown may move the cursor, change colours or rename the window of the terminal that it
reaches. What does so is left out: control characters other than the blanks, and the sequences that an
escape character opens, as far as a terminal reads them.

* `Terminal`: how far a terminal has read, with `Terminal.Phase` for the sequence that it is in;
* `Terminal.Phase.next`: what a character makes of the sequence;
* `Terminal.shows`, `Terminal.after`: whether a character is shown, and the terminal behind it;
* `withoutControls`: the part of a text that is shown.
-/

namespace StackScript

/-- A blank that moves to another place: a tab, a line feed, a form feed or a carriage return. -/
def isBlankControl (c : Char) : Bool :=
  c.toNat = 0x09 || c.toNat = 0x0a || c.toNat = 0x0c || c.toNat = 0x0d

/-- Outside of sequences all characters are shown but the control characters of ASCII, and blanks
among these are shown too. -/
def isShownOutside (c : Char) : Bool :=
  if isAscii c then (0x20 ≤ c.toNat && c.toNat != 0x7f) || isBlankControl c else true

/-- A sequence with a body of any text is closed by the byte `9C`. In a text this is never a character
of its own, but a later byte of one above ASCII: six bits that are `1C`. -/
def closesBody (c : Char) : Bool :=
  let n := c.toNat
  (0x80 ≤ n && n % 0x40 = 0x1c) || (0x800 ≤ n && n / 0x40 % 0x40 = 0x1c)
    || (0x10000 ≤ n && n / 0x1000 % 0x40 = 0x1c)

namespace Terminal

/-- Where in a control sequence a terminal is. -/
inductive Phase where
  /-- Outside of sequences. -/
  | outside
  /-- Behind an escape character. -/
  | escape
  /-- Behind an escape character and signs that its last one follows. -/
  | escapeSigns
  /-- In a control sequence proper, which a letter ends. -/
  | control
  /-- In a command to the system that shows the terminal. -/
  | command
  /-- At the beginning of a text for the device. -/
  | device
  /-- In the numbers of a text for the device. -/
  | deviceNumbers
  /-- In the signs behind them. -/
  | deviceSigns
  /-- In a body of any text. -/
  | body
deriving DecidableEq

/-- The code of a character lies between two codes. -/
def between (low high : Nat) (c : Char) : Bool :=
  low ≤ c.toNat && c.toNat ≤ high

namespace Phase

/-- The phase behind an escape character and one more. -/
def afterEscape (c : Char) : Phase :=
  if c = '[' then control
  else if c = ']' then command
  else if c = 'P' then device
  else if c = 'X' || c = '^' || c = '_' then body
  else if between 0x20 0x2f c then escapeSigns
  else if between 0x30 0x7e c then outside
  else escape

/-- The phase behind a character that is not shown. Two characters cancel every sequence, and an
escape character opens one anywhere. -/
def next (phase : Phase) (c : Char) : Phase :=
  if c.toNat = 0x18 || c.toNat = 0x1a then outside
  else if c.toNat = 0x1b then escape
  else
    match phase with
    | outside => outside
    | escape => afterEscape c
    | escapeSigns => if between 0x30 0x7e c then outside else escapeSigns
    | control => if between 0x40 0x7e c then outside else control
    | command => if c.toNat = 0x07 then outside else command
    | device =>
      if between 0x20 0x2f c then deviceSigns
      else if between 0x30 0x3f c then deviceNumbers
      else if between 0x40 0x7e c then body
      else device
    | deviceNumbers =>
      if between 0x20 0x2f c then deviceSigns
      else if between 0x3c 0x7e c then body
      else deviceNumbers
    | deviceSigns => if between 0x30 0x7e c then body else deviceSigns
    | body => if closesBody c then outside else body

end Phase

end Terminal

/-- A terminal that has read a part of a text: the phase it is in, and whether it has shown the last
character. -/
structure Terminal where
  phase : Terminal.Phase := .outside
  showing : Bool := false

namespace Terminal

/-- A character is shown outside of sequences. In the short ones a blank is shown as well, and the
sequence waits behind the text that the blank begins. -/
def shows (t : Terminal) (c : Char) : Bool :=
  match t.phase with
  | .outside => isShownOutside c
  | .escape | .escapeSigns | .control => if t.showing then isShownOutside c else isBlankControl c
  | .command | .device | .deviceNumbers | .deviceSigns | .body => false

/-- The terminal behind a character. A character above ASCII that is shown ends a sequence that
waits. -/
def after (t : Terminal) (c : Char) : Terminal :=
  if t.shows c then ⟨if isAscii c then t.phase else .outside, true⟩
  else ⟨t.phase.next c, false⟩

/-- The characters that a terminal shows. -/
def shown (t : Terminal) : List Char → List Char
  | [] => []
  | c :: cs => if t.shows c then c :: (t.after c).shown cs else (t.after c).shown cs

end Terminal

/-- The part of a text that a terminal shows. -/
def withoutControls (s : String) : String :=
  String.ofList (Terminal.shown {} s.toList)

end StackScript
