import Mathlib.Data.String.Basic
import StackScript.Proofs.Comparison

/-!
A sink without room for all of the output.

A run never looks at what it has printed, so a sink that takes less than everything changes nothing
until it is full. It takes what fits of the line that is too long for it; that print then fails and
the run ends there. The sink holds the front of what the run prints where there is room for all.

* `Sink.fitting_append`: texts one after the other fit as one text does;
* `Machine.withRoom`: a machine whose sink has so many bytes left;
* `underRoom`, `lockstep_underRoom`: the run with room for everything, and the run with less;
* `fitting_of_ascii`, `toUTF8_take_of_ascii`: what fits of ASCII text are its first bytes;
* `interpret_withRoom`: what a program does with any room.
-/

namespace StackScript

/-! ### Texts that fit -/

namespace Sink

/-- Two texts fit one after the other as they fit together. -/
theorem fitting_append (cs ds : List Char) : ∀ room, fitting room (cs ++ ds)
    = if String.utf8Len cs ≤ room then cs ++ fitting (room - String.utf8Len cs) ds
      else fitting room cs := by
  induction cs with
  | nil => exact fun room => (if_pos (Nat.zero_le room)).symm
  | cons c cs ih =>
    intro room
    rw [List.cons_append, fitting, fitting, String.utf8Len_cons]
    by_cases hc : c.utf8Size ≤ room
    · rw [if_pos hc, if_pos hc, ih]
      by_cases hcs : String.utf8Len cs ≤ room - c.utf8Size
      · rw [if_pos hcs, if_pos (by omega), Nat.sub_sub, Nat.add_comm, List.cons_append]
      · rw [if_neg hcs, if_neg (by omega)]
    · rw [if_neg hc, if_neg hc, if_neg (by omega)]

/-- What goes beyond the room is not looked at any further. -/
theorem fitting_append_of_lt {room : Nat} {text : String} (h : room < text.utf8ByteSize)
    (added : String) : fitting room (text ++ added).toList = fitting room text.toList := by
  have hlong : ¬ String.utf8Len text.toList ≤ room := by
    rw [← String.utf8ByteSize_ofList, String.ofList_toList]
    omega
  rw [String.toList_append, fitting_append, if_neg hlong]

/-- What has been written leaves the room for the next text. -/
theorem fitting_append_of_le {room : Nat} {text : String} (h : text.utf8ByteSize ≤ room)
    (added : String) : fitting room (text ++ added).toList
      = text.toList ++ fitting (room - text.utf8ByteSize) added.toList := by
  have hsize : String.utf8Len text.toList = text.utf8ByteSize := by
    rw [← String.utf8ByteSize_ofList, String.ofList_toList]
  rw [String.toList_append, fitting_append, hsize, if_pos h]

end Sink

/-! ### Two runs -/

/-- The machine with room for so many more bytes. -/
def Machine.withRoom (m : Machine) (room : Nat) : Machine :=
  { m with sink := { m.sink with room := some room } }

/-- A run with room for everything that began behind the text `before`, and the same run with room
for so many bytes. Both are alike as long as all fits; the second one is stopped in the midst of the
first line that does not, with what fits of it. -/
def underRoom (before : String) (room : Nat) : Comparison where
  alike m m' := ∃ text, m.sink = ⟨before ++ text, none⟩ ∧ text.utf8ByteSize ≤ room ∧
    m' = m.withRoom (room - text.utf8ByteSize)
  stop := .failed (.outputFailed Sink.fullReason)
  apart m m' := ∃ text, m.sink.written = before ++ text ∧ room < text.utf8ByteSize ∧
    m'.sink.written = before ++ String.ofList (Sink.fitting room text.toList)
  excused _ := False

theorem lockstep_underRoom (before : String) (room limit : Nat) :
    (underRoom before room).Lockstep limit limit where
  find? := by
    rintro m m' ⟨text, -, -, rfl⟩ name
    rfl
  assign := by
    rintro m m' ⟨text, hsink, hfits, rfl⟩ name value
    exact ⟨text, hsink, hfits, rfl⟩
  newFunction := by
    rintro m m' ⟨text, hsink, hfits, rfl⟩ definition
    exact .value _ ⟨text, hsink, hfits, rfl⟩
  printLine := by
    rintro ⟨environment, sink, nextIdentity, notices⟩ m' ⟨text, rfl, hfits, rfl⟩ printed
    have hsize : (text ++ (printed ++ "\n")).utf8ByteSize
        = text.utf8ByteSize + (printed ++ "\n").utf8ByteSize := String.utf8ByteSize_append
    simp only [Machine.printLine, Machine.withRoom, Sink.write]
    by_cases hline : (printed ++ "\n").utf8ByteSize ≤ room - text.utf8ByteSize
    · rw [if_pos hline]
      refine .value () ⟨text ++ (printed ++ "\n"), ?_, by omega, ?_⟩
      · simp only [String.append_assoc]
      · simp only [Machine.withRoom, hsize, Nat.sub_sub]
    · rw [if_neg hline]
      refine .stopped ⟨text ++ (printed ++ "\n"), String.append_assoc, by omega, ?_⟩
      rw [Sink.fitting_append_of_le hfits, String.ofList_append, String.ofList_toList,
        ← String.append_assoc]
  checkDepth := by
    rintro m m' ⟨text, hsink, hfits, rfl⟩ name arity
    simp only [Machine.checkDepth, bind_apply, Machine.depth]
    have hdepth : (m.withRoom (room - text.utf8ByteSize)).environment = m.environment := rfl
    rw [hdepth]
    by_cases hlimit : limit ≤ m.environment.depth
    · rw [if_pos hlimit]
      exact .interrupt _ ⟨text, hsink, hfits, rfl⟩
    · rw [if_neg hlimit]
      exact .value () ⟨text, hsink, hfits, rfl⟩
  push := by
    rintro m m' ⟨text, hsink, hfits, rfl⟩ scope
    exact ⟨text, hsink, hfits, rfl⟩
  leave := by
    rintro m m' s s' - ⟨text, hsink, hfits, rfl⟩ - -
    exact ⟨text, hsink, hfits, rfl⟩
  apart_grows := by
    rintro s s' t ⟨text, htext, hlong, hkept⟩ hgrows
    obtain ⟨added, hadded⟩ := hgrows.written
    refine ⟨text ++ added, ?_, ?_, ?_⟩
    · rw [hadded, htext, String.append_assoc]
    · rw [String.utf8ByteSize_append]
      omega
    · rw [Sink.fitting_append_of_lt hlong, hkept]
  apart_leave h := h

/-! ### ASCII text -/

theorem utf8Size_of_isAscii {c : Char} (h : isAscii c = true) : c.utf8Size = 1 := by
  rw [isAscii, decide_eq_true_eq] at h
  rw [Char.utf8Size_eq_one_iff, UInt32.le_iff_toNat_le]
  exact Nat.le_of_lt_succ h

section Ascii

variable {cs : List Char} (hascii : ∀ c ∈ cs, isAscii c = true)

include hascii

theorem utf8Len_of_ascii : String.utf8Len cs = cs.length := by
  induction cs with
  | nil => rfl
  | cons c cs ih =>
    obtain ⟨hc, hcs⟩ := List.forall_mem_cons.mp hascii
    rw [String.utf8Len_cons, ih hcs, utf8Size_of_isAscii hc, List.length_cons]

/-- Of ASCII text as many characters fit as there is room for bytes. -/
theorem fitting_of_ascii : ∀ room, Sink.fitting room cs = cs.take room := by
  induction cs with
  | nil => exact fun room => List.take_nil.symm
  | cons c cs ih =>
    obtain ⟨hc, hcs⟩ := List.forall_mem_cons.mp hascii
    intro room
    rw [Sink.fitting, utf8Size_of_isAscii hc]
    cases room with
    | zero => rfl
    | succ room =>
      rw [if_pos (Nat.le_add_left 1 room), Nat.add_sub_cancel, ih hcs, List.take_succ_cons]

/-- They are its first bytes. -/
theorem toUTF8_take_of_ascii {room : Nat} (hroom : room ≤ cs.length) :
    (String.ofList (cs.take room)).toUTF8 = (String.ofList cs).toUTF8.extract 0 room := by
  have hfront : ∀ c ∈ cs.take room, isAscii c = true := fun c hc =>
    hascii c (List.mem_of_mem_take hc)
  have hsize : (String.ofList (cs.take room)).utf8ByteSize = room := by
    rw [String.utf8ByteSize_ofList, utf8Len_of_ascii hfront, List.length_take_of_le hroom]
  have hwhole : String.ofList cs
      = String.ofList (cs.take room) ++ String.ofList (cs.drop room) := by
    rw [← String.ofList_append, List.take_append_drop]
  rw [hwhole, String.toUTF8, String.toUTF8, String.toByteArray_append]
  exact (ByteArray.extract_append_eq_left hsize.symm).symm

end Ascii

/-! ### Programs -/

/-- A program does the same with any room that its output fits into. With less room it fails where
the room ends: the sink holds as many bytes of the output as there was room for, and all calls have
been left. -/
theorem interpret_withRoom {limit fuel room : Nat} {program : Program} {m : Machine}
    {full : EStateM.Result Interrupt Machine Value} {output : String}
    (hsink : m.sink.room = none) (hfull : interpret limit fuel program m = full)
    (houtput : (stateAfter full).sink.written = m.sink.written ++ output)
    (hascii : ∀ c ∈ output.toList, isAscii c = true) :
    (output.utf8ByteSize ≤ room → interpret limit fuel program (m.withRoom room) =
      match full with
      | .ok v s => .ok v (s.withRoom (room - output.utf8ByteSize))
      | .error e s => .error e (s.withRoom (room - output.utf8ByteSize))) ∧
    (room < output.utf8ByteSize → ∃ s front,
      interpret limit fuel program (m.withRoom room)
        = .error (.failed (.outputFailed Sink.fullReason)) s ∧
      s.sink.written = m.sink.written ++ front ∧
      front.toUTF8 = output.toUTF8.extract 0 room ∧
      s.environment.depth = m.environment.depth) := by
  have hstart : (underRoom m.sink.written room).alike m (m.withRoom room) := by
    refine ⟨"", ?_, Nat.zero_le room, rfl⟩
    rw [String.append_empty, ← hsink]
  have hruns := (lockstep_underRoom m.sink.written room limit).interpret fuel program
  have houtcome := hruns.outcome m (m.withRoom room) hstart
  have hdepth := (hruns.second (m.withRoom room)).2.depth
  rw [hfull] at houtcome
  generalize interpret limit fuel program (m.withRoom room) = result at houtcome hdepth ⊢
  -- what the first run has printed is the output
  have hprinted : ∀ text, (stateAfter full).sink.written = m.sink.written ++ text →
      text = output := by
    intro text htext
    rw [houtput, String.append_right_inj] at htext
    exact htext.symm
  cases houtcome with
  | value v hs =>
    obtain ⟨text, htext, hfits, rfl⟩ := hs
    obtain rfl := hprinted text (congrArg Sink.written htext)
    exact ⟨fun _ => rfl, fun hlong => absurd hfits (Nat.not_le_of_lt hlong)⟩
  | interrupt e hs =>
    obtain ⟨text, htext, hfits, rfl⟩ := hs
    obtain rfl := hprinted text (congrArg Sink.written htext)
    exact ⟨fun _ => rfl, fun hlong => absurd hfits (Nat.not_le_of_lt hlong)⟩
  | excused he => exact absurd he id
  | @stopped _ s hs =>
    obtain ⟨text, htext, hlong, hkept⟩ := hs
    obtain rfl := hprinted text htext
    refine ⟨fun hfits => absurd hfits (Nat.not_le_of_lt hlong), fun _ => ?_⟩
    refine ⟨s, _, rfl, hkept, ?_, hdepth⟩
    have hlength : room ≤ text.toList.length := by
      rw [← utf8Len_of_ascii hascii, ← String.utf8ByteSize_ofList, String.ofList_toList]
      exact Nat.le_of_lt hlong
    rw [fitting_of_ascii hascii, toUTF8_take_of_ascii hascii hlength, String.ofList_toList]

/-- The sink is full in the midst of what a function prints, which is called for an argument of
`print`. Behind that the program would have failed for another reason. -/
theorem interpret_withRoom_of_inner_print :
    let program : Program := [.define "f" ["x"] [.print (.identifier "x"), .print (.string "")],
      .print (.call "f" [.string "abc"]), .identifier "y"]
    let m : Machine := { sink := { written := "> " } }
    ∃ full, interpret 200 10 program m = full ∧
      error? full = some (.failed (.undefinedVariable "y")) ∧
      (stateAfter full).sink.written = m.sink.written ++ "abc\n\nNone\n" ∧
      ∃ s front, interpret 200 10 program (m.withRoom 2)
          = .error (.failed (.outputFailed Sink.fullReason)) s ∧
        s.sink.written = m.sink.written ++ front ∧
        front.toUTF8 = "abc\n\nNone\n".toUTF8.extract 0 2 ∧
        s.environment.depth = m.environment.depth := by
  intro program m
  obtain ⟨full, hfull⟩ : ∃ full, interpret 200 10 program m = full := ⟨_, rfl⟩
  have herror : error? full = some (.failed (.undefinedVariable "y")) := by
    rw [← hfull]
    decide +kernel
  have houtput : (stateAfter full).sink.written = m.sink.written ++ "abc\n\nNone\n" := by
    rw [← hfull]
    decide +kernel
  have hascii : ∀ c ∈ "abc\n\nNone\n".toList, isAscii c = true := List.all_eq_true.mp rfl
  exact ⟨full, hfull, herror, houtput,
    (interpret_withRoom rfl hfull houtput hascii).2 (by decide)⟩

end StackScript
