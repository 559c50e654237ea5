import Mathlib
import StackScript.Proofs.RecognizedPrograms

/-!
The parser fails at the first token that no program goes on with.

The machine that a parser keeps to does not look ahead, so a failure depends on the tokens up to the
one it is stuck at, and on nothing behind it. What is left on its stack before that token can always
be read to the end: each frame has a token that finishes it, or needs none.

* `SyntaxError.Names`: an error tells about a token;
* `feedAll_error`: a machine that gets stuck does so at one token;
* `Frame.last?`, `lastTokens`: the tokens that finish a stack;
* `Finishable`, `finishable_feedAll`: a stack before the end of the input can be finished;
* `parse_error_earliest`: the first error of a parse is as early as it can be.
-/

namespace StackScript

/-- An error tells about a token: what kind it has, or what number it should be, and where it is. -/
def SyntaxError.Names : SyntaxError → Token → Prop
  | unexpectedToken _ found p, t => found = t.kind ∧ p = t.position
  | invalidNumber lexeme p, t => t.kind = .number ∧ lexeme = t.lexeme ∧ p = t.position

namespace Parser

/-! ### Errors of the machine -/

section Errors

variable {t : Token} {e : SyntaxError}

theorem names_of_startOperand (h : startOperand t = .error e) : e.Names t := by
  cases hkind : t.kind with
  | number =>
    simp only [startOperand, hkind] at h
    cases hnumber : readNumber? t.lexeme with
    | some x => simp [hnumber] at h
    | none =>
      rw [hnumber] at h
      obtain rfl := Except.error.inj h
      exact ⟨hkind, rfl, rfl⟩
  | string => simp [startOperand, hkind] at h
  | identifier => simp [startOperand, hkind] at h
  | leftParen => simp [startOperand, hkind] at h
  | plus => simp [startOperand, hkind] at h
  | minus => simp [startOperand, hkind] at h
  | _ =>
    simp only [startOperand, hkind] at h
    obtain rfl := Except.error.inj h
    exact ⟨hkind.symm, rfl⟩

theorem map_eq_error {α β : Type} {f : α → β} {x : Except SyntaxError α}
    (h : x.map f = .error e) : x = .error e := by
  cases x with
  | error => exact congrArg _ (Except.error.inj h)
  | ok => cases h

theorem names_of_startValue {ending : List Frame} (h : startValue ending t = .error e) :
    e.Names t :=
  names_of_startOperand (map_eq_error h)

/-- Only a token that begins no other statement is looked at any further. -/
theorem names_of_startStatement (h : startStatement t = .error e) : e.Names t := by
  unfold startStatement at h
  split at h
  case h_9 => exact names_of_startValue h
  all_goals cases h

theorem names_of_on {f : Frame} (h : f.on t = some (.error e)) : e.Names t := by
  cases f with
  | operand => exact names_of_startOperand (Option.some.inj h)
  | statement => exact names_of_startStatement (Option.some.inj h)
  | expect kind =>
    have h := Option.some.inj h
    split at h
    · cases h
    · obtain rfl := Except.error.inj h
      exact ⟨rfl, rfl⟩
  | arguments =>
    have h := Option.some.inj h
    split at h
    · cases h
    · exact names_of_startValue h
  | parameters =>
    have h := Option.some.inj h
    split at h
    · cases h
    split at h
    · cases h
    · obtain rfl := Except.error.inj h
      exact ⟨rfl, rfl⟩
  | lines =>
    have h := Option.some.inj h
    split at h
    · cases h
    · exact names_of_startStatement (map_eq_error h)
  | program =>
    have h := Option.some.inj h
    split at h
    · cases h
    · exact names_of_startStatement (map_eq_error h)
  | returned =>
    simp only [Frame.on] at h
    split at h
    · cases h
    · exact names_of_startValue (Option.some.inj h)
  | target =>
    simp only [Frame.on] at h
    split at h
    · cases h
    split at h
    · cases h
    · cases h
  | _ =>
    simp only [Frame.on] at h
    split at h
    · cases h
    · cases h

theorem names_of_feed {stack : List Frame} (h : feed stack t = .error e) : e.Names t := by
  induction stack with
  | nil => cases h
  | cons f stack ih =>
    rw [feed] at h
    split at h
    · exact ih h
    · next taken htaken =>
      obtain rfl := map_eq_error h
      exact names_of_on htaken

/-- A machine that gets stuck does so at one token, having come as far as that. -/
theorem feedAll_error {stack : List Frame} {ts : List Token} (h : feedAll stack ts = .error e) :
    ∃ before t after stack', ts = before ++ t :: after ∧ feedAll stack before = .ok stack' ∧
      feed stack' t = .error e := by
  induction ts generalizing stack with
  | nil => cases h
  | cons t ts ih =>
    rw [feedAll_cons] at h
    cases ht : feed stack t with
    | error e' =>
      rw [ht] at h
      obtain rfl := Except.error.inj h
      exact ⟨[], t, ts, stack, rfl, rfl, ht⟩
    | ok stack₁ =>
      rw [ht] at h
      obtain ⟨before, u, after, stack₂, rfl, hbefore, hu⟩ := ih h
      refine ⟨t :: before, u, after, stack₂, rfl, ?_, hu⟩
      rw [feedAll_cons, ht]
      exact hbefore

end Errors

/-! ### Finishing a stack -/

/-- The kind of a token that finishes a frame, for frames that have something to read. -/
def Frame.last? : Frame → Option TokenKind
  | expect kind => some kind
  | operand => some .string
  | arguments => some .rightParen
  | parameters => some .rightParen
  | statement => some .string
  | lines => some .rightBrace
  | returned => some .string
  | _ => none

/-- The kind of the first token that finishes a stack. -/
def opening : List Frame → TokenKind
  | [] => .eof
  | f :: stack => f.last?.getD (opening stack)

/-- Tokens that finish a stack, up to the end of the input. -/
def lastTokens (stack : List Frame) : List Token :=
  stack.filterMap fun f => f.last?.map fun kind => ⟨kind, "", .start⟩

/-- What ends an expression or a statement whatever it is. -/
def Closes (kind : TokenKind) : Prop :=
  kind = .rightParen ∨ kind = .rightBrace ∨ kind = .eof

instance : DecidablePred Closes := fun kind =>
  inferInstanceAs (Decidable (kind = .rightParen ∨ kind = .rightBrace ∨ kind = .eof))

/-- What must hold of a stack below a frame. Where a frame has no end of its own, the token that
finishes the stack below has to end it. -/
def Frame.Stands (f : Frame) (stack : List Frame) : Prop :=
  match f with
  | expect kind => kind ≠ .eof
  | optional kind => ¬ Closes kind ∧ Closes (opening stack)
  | arguments => True
  | parameters => True
  | lines => True
  | program => False
  | _ => Closes (opening stack)

/-- Each frame of the stack can be finished, down to the program. -/
inductive Finishable : List Frame → Prop where
  | program : Finishable [.program]
  | cons {f : Frame} {stack : List Frame} (hf : f.Stands stack) (h : Finishable stack) :
    Finishable (f :: stack)

theorem closes_eof : Closes .eof := by decide

theorem closes_rightParen : Closes .rightParen := by decide

theorem closes_rightBrace : Closes .rightBrace := by decide

theorem operator?_of_closes {kind : TokenKind} (h : Closes kind) (level : Nat) :
    operator? level kind = none := by
  obtain rfl | rfl | rfl := h
  all_goals match level with
    | 0 => rfl
    | 1 => rfl
    | 2 => rfl
    | _ + 3 => rfl

section Finishing

variable {stack fs : List Frame} {f : Frame} {t : Token} {ts : List Token}

/-- The token behind the last tokens of a stack, or the first of them. -/
theorem lastTokens_head (stack : List Frame) (ht : t.kind = .eof) :
    ∃ u us, lastTokens stack ++ [t] = u :: us ∧ u.kind = opening stack := by
  induction stack with
  | nil => exact ⟨t, [], rfl, ht⟩
  | cons f stack ih =>
    rw [lastTokens, List.filterMap_cons, opening]
    cases f.last? with
    | none => exact ih
    | some kind => exact ⟨_, _, rfl, rfl⟩

/-- A frame with nothing to read passes on what ends it. -/
theorem on_of_closes (hlast : f.last? = none) (hf : f.Stands stack) (ht : Closes t.kind) :
    f.on t = none := by
  -- what such a frame waits for does not close anything
  have hne : ∀ kind, ¬ Closes kind → t.kind ≠ kind := by
    rintro kind hkind rfl
    exact hkind ht
  cases f with
  | program => exact absurd hf id
  | operators level =>
    refine if_neg ?_
    rw [operator?_of_closes ht level]
    exact Bool.false_ne_true
  | optional kind => exact if_neg (hne kind hf.1)
  | newlines => exact if_neg (hne .newline (by decide))
  | afterName => exact if_neg (hne .leftParen (by decide))
  | elsePart => exact if_neg (hne .elseWord (by decide))
  | target =>
    have hassign := hne .assign (by decide)
    have hparen := hne .leftParen (by decide)
    exact (if_neg hassign).trans (if_neg hparen)
  | _ => cases hlast

theorem feedAll_operatorsFrom (ht : Closes t.kind) (level : Nat) :
    feedAll (operatorsFrom level ++ stack) (t :: ts) = feedAll stack (t :: ts) := by
  have hpass : ∀ level stack, feedAll (.operators level :: stack) (t :: ts)
      = feedAll stack (t :: ts) := by
    intro level stack
    refine feedAll_pass (if_neg ?_)
    rw [operator?_of_closes ht level]
    exact Bool.false_ne_true
  match level with
  | 0 => simp only [operatorsFrom, List.cons_append, List.nil_append, hpass]
  | 1 => simp only [operatorsFrom, List.cons_append, List.nil_append, hpass]
  | 2 => simp only [operatorsFrom, List.cons_append, List.nil_append, hpass]
  | _ + 3 => rfl

/-- The last token of a frame finishes it. -/
theorem feedAll_last {kind : TokenKind} (hlast : f.last? = some kind) (hf : f.Stands stack)
    (ht : t.kind = opening stack) :
    feedAll (f :: stack) (⟨kind, "", .start⟩ :: t :: ts) = feedAll stack (t :: ts) := by
  cases f with
  | expect expected =>
    obtain rfl := Option.some.inj hlast
    have htake : (Frame.expect expected).on ⟨expected, "", .start⟩ = some (.ok []) :=
      congrArg some (if_pos rfl)
    exact feedAll_take htake
  | operand =>
    obtain rfl := Option.some.inj hlast
    have htake : Frame.operand.on ⟨.string, "", .start⟩ = some (.ok []) := rfl
    exact feedAll_take htake
  | arguments =>
    obtain rfl := Option.some.inj hlast
    have htake : Frame.arguments.on ⟨.rightParen, "", .start⟩ = some (.ok []) := rfl
    exact feedAll_take htake
  | parameters =>
    obtain rfl := Option.some.inj hlast
    have htake : Frame.parameters.on ⟨.rightParen, "", .start⟩ = some (.ok []) := rfl
    exact feedAll_take htake
  | lines =>
    obtain rfl := Option.some.inj hlast
    have htake : Frame.lines.on ⟨.rightBrace, "", .start⟩ = some (.ok []) := rfl
    exact feedAll_take htake
  | statement =>
    obtain rfl := Option.some.inj hlast
    have hcloses : Closes t.kind := ht ▸ hf
    have htake : Frame.statement.on ⟨.string, "", .start⟩
        = some (.ok (operatorsFrom 0 ++ [.optional .semicolon])) := rfl
    -- behind the value no operator follows, and no semicolon
    have hsemicolon : (Frame.optional .semicolon).on t = none :=
      on_of_closes rfl ⟨by decide, hf⟩ hcloses
    rw [feedAll_take htake, List.append_assoc, feedAll_operatorsFrom hcloses,
      List.singleton_append, feedAll_pass hsemicolon]
  | returned =>
    obtain rfl := Option.some.inj hlast
    have htake : Frame.returned.on ⟨.string, "", .start⟩ = some (.ok (operatorsFrom 0)) := rfl
    rw [feedAll_take htake, feedAll_operatorsFrom (ht ▸ hf)]
  | _ => cases hlast

/-- The last tokens of a stack leave nothing to be read at the end of the input. -/
theorem feedAll_lastTokens (h : Finishable stack) (ht : t.kind = .eof) :
    feedAll stack (lastTokens stack ++ [t]) = .ok [] := by
  induction h with
  | program =>
    have htake : Frame.program.on t = some (.ok []) := congrArg some (if_pos ht)
    exact feedAll_take htake
  | @cons f stack hf _ ih =>
    -- a frame needs to know only the first of the tokens behind it
    obtain ⟨u, us, hus, hu⟩ := lastTokens_head stack ht
    rw [hus] at ih
    cases hlast : f.last? with
    | none =>
      have hpass : f.on u = none := by
        refine on_of_closes hlast hf ?_
        rw [hu]
        cases f with
        | optional kind => exact hf.2
        | program => exact absurd hf id
        | _ => first | exact hf | cases hlast
      have htokens : lastTokens (f :: stack) ++ [t] = u :: us := by
        rw [lastTokens, List.filterMap_cons, hlast]
        exact hus
      rw [htokens, feedAll_pass hpass, ih]
    | some kind =>
      have htokens : lastTokens (f :: stack) ++ [t] = ⟨kind, "", .start⟩ :: u :: us := by
        rw [lastTokens, List.filterMap_cons, hlast, ← hus]
        rfl
      rw [htokens, feedAll_last hlast hf hu, ih]

theorem last?_ne_eof {kind : TokenKind} (hlast : f.last? = some kind) (hf : f.Stands stack) :
    kind ≠ .eof := by
  cases f with
  | expect expected =>
    obtain rfl := Option.some.inj hlast
    exact hf
  | _ => cases hlast <;> decide

theorem lastTokens_ne_eof (h : Finishable stack) : ∀ t ∈ lastTokens stack, t.kind ≠ .eof := by
  induction h with
  | program => exact List.forall_mem_nil _
  | @cons f stack hf _ ih =>
    rw [lastTokens, List.filterMap_cons]
    cases hlast : f.last? with
    | none => exact ih
    | some kind => exact List.forall_mem_cons.mpr ⟨last?_ne_eof hlast hf, ih⟩

end Finishing

/-! ### Stacks before the end of the input -/

section Preservation

variable {stack fs : List Frame} {f : Frame} {t : Token}

theorem finishable_operatorsFrom (hcloses : Closes (opening stack)) (h : Finishable stack)
    (level : Nat) :
    Closes (opening (operatorsFrom level ++ stack)) ∧
      Finishable (operatorsFrom level ++ stack) := by
  match level with
  | 0 => exact ⟨hcloses, .cons hcloses (.cons hcloses (.cons hcloses h))⟩
  | 1 => exact ⟨hcloses, .cons hcloses (.cons hcloses h)⟩
  | 2 => exact ⟨hcloses, .cons hcloses h⟩
  | _ + 3 => exact ⟨hcloses, h⟩

theorem finishable_valueFrames (hcloses : Closes (opening stack)) (h : Finishable stack) :
    Finishable (valueFrames ++ stack) := by
  obtain ⟨hopening, hoperators⟩ := finishable_operatorsFrom hcloses h 0
  exact .cons hopening hoperators

theorem finishable_expect {kind : TokenKind} (hkind : kind ≠ .eof) (h : Finishable stack) :
    Finishable (.expect kind :: stack) :=
  .cons hkind h

theorem finishable_conditionFrames (h : Finishable stack) :
    Finishable (conditionFrames ++ stack) := by
  have hclosed : Finishable (.expect .rightParen :: stack) := finishable_expect (by decide) h
  rw [conditionFrames, List.cons_append, List.cons_append, List.append_assoc]
  exact finishable_expect (by decide) (finishable_valueFrames closes_rightParen hclosed)

theorem finishable_blockFrames (h : Finishable stack) : Finishable (blockFrames ++ stack) := by
  have hlines : Finishable (.lines :: stack) := .cons trivial h
  exact finishable_expect (by decide) (.cons closes_rightBrace hlines)

theorem finishable_optional {kind : TokenKind} (hkind : ¬ Closes kind)
    (hcloses : Closes (opening stack)) (h : Finishable stack) :
    Finishable (.optional kind :: stack) :=
  .cons ⟨hkind, hcloses⟩ h

theorem finishable_startOperand (hstart : startOperand t = .ok fs)
    (hcloses : Closes (opening stack)) (h : Finishable stack) : Finishable (fs ++ stack) := by
  cases hkind : t.kind with
  | number =>
    simp only [startOperand, hkind] at hstart
    cases hnumber : readNumber? t.lexeme with
    | some x =>
      rw [hnumber] at hstart
      obtain rfl := Except.ok.inj hstart
      exact h
    | none => simp [hnumber] at hstart
  | string =>
    simp only [startOperand, hkind] at hstart
    obtain rfl := Except.ok.inj hstart
    exact h
  | identifier =>
    simp only [startOperand, hkind] at hstart
    obtain rfl := Except.ok.inj hstart
    exact .cons hcloses h
  | leftParen =>
    simp only [startOperand, hkind] at hstart
    obtain rfl := Except.ok.inj hstart
    rw [List.append_assoc]
    exact finishable_valueFrames closes_rightParen (finishable_expect (by decide) h)
  | plus =>
    simp only [startOperand, hkind] at hstart
    obtain rfl := Except.ok.inj hstart
    exact .cons hcloses h
  | minus =>
    simp only [startOperand, hkind] at hstart
    obtain rfl := Except.ok.inj hstart
    exact .cons hcloses h
  | _ => simp [startOperand, hkind] at hstart

theorem map_eq_ok {α β : Type} {g : α → β} {x : Except SyntaxError α} {b : β}
    (h : x.map g = .ok b) : ∃ a, x = .ok a ∧ g a = b := by
  cases x with
  | error => cases h
  | ok a => exact ⟨a, rfl, Except.ok.inj h⟩

theorem finishable_startValue {ending : List Frame} (hstart : startValue ending t = .ok fs)
    (hcloses : Closes (opening (ending ++ stack))) (h : Finishable (ending ++ stack)) :
    Finishable (fs ++ stack) := by
  obtain ⟨gs, hgs, rfl⟩ := map_eq_ok hstart
  obtain ⟨hopening, hoperators⟩ := finishable_operatorsFrom hcloses h 0
  rw [List.append_assoc, List.append_assoc]
  exact finishable_startOperand hgs hopening hoperators

theorem finishable_startStatement (hstart : startStatement t = .ok fs)
    (hcloses : Closes (opening stack)) (h : Finishable stack) : Finishable (fs ++ stack) := by
  have hend : Finishable (.optional .semicolon :: stack) :=
    finishable_optional (by decide) hcloses h
  cases hkind : t.kind with
  | newline =>
    simp only [startStatement, hkind] at hstart
    obtain rfl := Except.ok.inj hstart
    exact .cons hcloses h
  | letWord =>
    simp only [startStatement, hkind] at hstart
    obtain rfl := Except.ok.inj hstart
    have hvalue : Finishable (valueFrames ++ .optional .semicolon :: stack) :=
      finishable_valueFrames hcloses hend
    exact finishable_expect (by decide) (finishable_expect (by decide) hvalue)
  | funcWord =>
    simp only [startStatement, hkind] at hstart
    obtain rfl := Except.ok.inj hstart
    have hparameters : Finishable (.parameters :: blockFrames ++ stack) :=
      .cons trivial (finishable_blockFrames h)
    exact finishable_expect (by decide) (finishable_expect (by decide) hparameters)
  | ifWord =>
    simp only [startStatement, hkind] at hstart
    obtain rfl := Except.ok.inj hstart
    have helse : Finishable (.elsePart :: stack) := .cons hcloses h
    rw [List.append_assoc, List.append_assoc]
    exact finishable_conditionFrames (finishable_blockFrames helse)
  | whileWord =>
    simp only [startStatement, hkind] at hstart
    obtain rfl := Except.ok.inj hstart
    rw [List.append_assoc]
    exact finishable_conditionFrames (finishable_blockFrames h)
  | returnWord =>
    simp only [startStatement, hkind] at hstart
    obtain rfl := Except.ok.inj hstart
    exact .cons hcloses hend
  | printWord =>
    simp only [startStatement, hkind] at hstart
    obtain rfl := Except.ok.inj hstart
    rw [List.append_assoc]
    exact finishable_conditionFrames hend
  | identifier =>
    simp only [startStatement, hkind] at hstart
    obtain rfl := Except.ok.inj hstart
    -- whether an equality sign follows is still open
    have hopening : Closes (opening (.optional .semicolon :: stack)) := hcloses
    obtain ⟨htarget, hoperators⟩ := finishable_operatorsFrom hopening hend 0
    exact .cons htarget hoperators
  | _ =>
    simp only [startStatement, hkind] at hstart
    exact finishable_startValue hstart hcloses hend

/-- What a frame leaves behind can be finished if the frame could. -/
theorem finishable_on (hon : f.on t = some (.ok fs)) (hf : f.Stands stack) (h : Finishable stack) :
    Finishable (fs ++ stack) := by
  cases f with
  | program => exact absurd hf id
  | expect kind =>
    have hon := Option.some.inj hon
    split at hon
    · obtain rfl := Except.ok.inj hon
      exact h
    · cases hon
  | optional kind =>
    simp only [Frame.on] at hon
    split at hon
    · obtain rfl := Except.ok.inj (Option.some.inj hon)
      exact h
    · cases hon
  | newlines =>
    simp only [Frame.on] at hon
    split at hon
    · obtain rfl := Except.ok.inj (Option.some.inj hon)
      exact .cons hf h
    · cases hon
  | operand => exact finishable_startOperand (Option.some.inj hon) hf h
  | operators level =>
    simp only [Frame.on] at hon
    split at hon
    · obtain rfl := Except.ok.inj (Option.some.inj hon)
      obtain ⟨hopening, hoperators⟩ := finishable_operatorsFrom hf h level
      exact .cons hopening hoperators
    · cases hon
  | afterName =>
    simp only [Frame.on] at hon
    split at hon
    · obtain rfl := Except.ok.inj (Option.some.inj hon)
      exact .cons trivial h
    · cases hon
  | target =>
    simp only [Frame.on] at hon
    split at hon
    · obtain rfl := Except.ok.inj (Option.some.inj hon)
      exact .cons hf h
    split at hon
    · obtain rfl := Except.ok.inj (Option.some.inj hon)
      exact .cons trivial h
    · cases hon
  | arguments =>
    have hon := Option.some.inj hon
    split at hon
    · obtain rfl := Except.ok.inj hon
      exact h
    · have harguments : Finishable (.arguments :: stack) := .cons trivial h
      exact finishable_startValue hon closes_rightParen
        (finishable_optional (by decide) closes_rightParen harguments)
  | parameters =>
    have hon := Option.some.inj hon
    split at hon
    · obtain rfl := Except.ok.inj hon
      exact h
    split at hon
    · obtain rfl := Except.ok.inj hon
      exact finishable_optional (by decide) closes_rightParen (.cons trivial h)
    · cases hon
  | statement => exact finishable_startStatement (Option.some.inj hon) hf h
  | lines =>
    have hon := Option.some.inj hon
    split at hon
    · obtain rfl := Except.ok.inj hon
      exact h
    · obtain ⟨gs, hgs, rfl⟩ := map_eq_ok hon
      rw [List.append_assoc]
      exact finishable_startStatement hgs closes_rightBrace
        (.cons closes_rightBrace (.cons trivial h))
  | elsePart =>
    simp only [Frame.on] at hon
    split at hon
    · obtain rfl := Except.ok.inj (Option.some.inj hon)
      exact finishable_blockFrames h
    · cases hon
  | returned =>
    simp only [Frame.on] at hon
    split at hon
    · cases hon
    · exact finishable_startValue (Option.some.inj hon) hf h

theorem finishable_startFrames : Finishable startFrames :=
  .cons closes_eof .program

theorem finishable_feed (hfeed : feed stack t = .ok fs) (ht : t.kind ≠ .eof)
    (h : Finishable stack) : Finishable fs := by
  induction h with
  | program =>
    have hframe : Frame.program.on t
        = some ((startStatement t).map (· ++ [.newlines, .program])) := congrArg some (if_neg ht)
    -- a statement begins, with the rest of the program below it
    rw [feed, hframe] at hfeed
    obtain ⟨gs, hgs, rfl⟩ := map_eq_ok hfeed
    obtain ⟨fs, hfs, rfl⟩ := map_eq_ok hgs
    rw [List.append_nil]
    exact finishable_startStatement hfs closes_eof finishable_startFrames
  | @cons f stack hf hstack ih =>
    rw [feed] at hfeed
    split at hfeed
    · exact ih hfeed
    · next taken htaken =>
      obtain ⟨gs, rfl, rfl⟩ := map_eq_ok hfeed
      exact finishable_on htaken hf hstack

/-- A stack before the end of the input can be finished. -/
theorem finishable_feedAll {ts : List Token} (hts : ∀ t ∈ ts, t.kind ≠ .eof)
    (hfeed : feedAll stack ts = .ok fs) (h : Finishable stack) : Finishable fs := by
  induction ts generalizing stack with
  | nil =>
    obtain rfl := Except.ok.inj hfeed
    exact h
  | cons t ts ih =>
    obtain ⟨ht, hts⟩ := List.forall_mem_cons.mp hts
    rw [feedAll_cons] at hfeed
    cases hstep : feed stack t with
    | error e =>
      rw [hstep] at hfeed
      cases hfeed
    | ok stack' =>
      rw [hstep] at hfeed
      exact ih hts hfeed (finishable_feed hstep ht h)

end Preservation

/-! ### Errors of the parser -/

theorem exists_closed_append (ts : List Token) : ∃ added, closed ts = ts ++ added := by
  unfold closed
  split
  · next hnone => exact ⟨[emptyEnd], by rw [List.getLast?_eq_none_iff.mp hnone, List.nil_append]⟩
  · split
    · exact ⟨[], (List.append_nil ts).symm⟩
    · exact ⟨_, rfl⟩

/-- Where no token is an end of the input, one is put behind them. -/
theorem exists_closed_eq_of_ne {ts : List Token} (hts : ∀ t ∈ ts, t.kind ≠ .eof) :
    ∃ last : Token, last.kind = .eof ∧ closed ts = ts ++ [last] := by
  unfold closed
  split
  · next hnone => exact ⟨emptyEnd, rfl, by rw [List.getLast?_eq_none_iff.mp hnone, List.nil_append]⟩
  · next last hlast =>
    rw [if_neg (hts last (List.mem_of_getLast? hlast))]
    exact ⟨_, rfl, rfl⟩

/-- A parse fails as the machine does on the first tokens. -/
theorem parse_error_of_feedAll {ts us : List Token} {e : SyntaxError}
    (h : feedAll startFrames ts = .error e) : parse (ts ++ us) = .error e := by
  obtain ⟨added, hadded⟩ := exists_closed_append (ts ++ us)
  have hfeed : feedAll startFrames (closed (ts ++ us)) = .error e := by
    rw [hadded, List.append_assoc, feedAll_append, h]
    rfl
  have hparse := feedAll_of_parse (ts ++ us)
  rw [hfeed] at hparse
  cases hresult : parse (ts ++ us) with
  | ok program =>
    rw [hresult] at hparse
    cases hparse
  | error e' =>
    rw [hresult] at hparse
    rw [Except.error.inj hparse]

/-- A parse succeeds where the machine can come to an end. -/
theorem parse_ok_of_feedAll {ts : List Token} (h : feedAll startFrames (closed ts) = .ok []) :
    ∃ program, parse ts = .ok program := by
  have hparse := feedAll_of_parse ts
  cases hresult : parse ts with
  | ok program => exact ⟨program, rfl⟩
  | error e =>
    rw [hresult, h] at hparse
    cases hparse

end Parser

/-- The first error is at a token that no program goes on with: whatever stands behind it, the error
is the same, and the tokens before it are the beginning of a program. The end of the input counts as
a token. -/
theorem parse_error_earliest {ts : List Token} {e : SyntaxError}
    (hts : ∀ t ∈ ts, t.kind ≠ .eof) (h : parse ts = .error e) :
    ∃ last : Token, last.kind = .eof ∧ Parser.closed ts = ts ++ [last] ∧
      ∃ i t, (ts ++ [last])[i]? = some t ∧ e.Names t ∧
        (i < ts.length → ∀ us, us.take (i + 1) = ts.take (i + 1) → parse us = .error e) ∧
        ∃ more program, (∀ u ∈ more, u.kind ≠ .eof) ∧ parse (ts.take i ++ more) = .ok program := by
  obtain ⟨last, hlast, hclosed⟩ := Parser.exists_closed_eq_of_ne hts
  refine ⟨last, hlast, hclosed, ?_⟩
  have hfeed := Parser.feedAll_of_parse ts
  rw [h, hclosed] at hfeed
  obtain ⟨before, t, after, stack, hsplit, hbefore, ht⟩ := Parser.feedAll_error hfeed
  have hindex : (ts ++ [last])[before.length]? = some t := by
    rw [hsplit, List.getElem?_append_right (Nat.le_refl _), Nat.sub_self]
    rfl
  -- the token put behind is not before the error
  have hlength : before.length ≤ ts.length := by
    have := congrArg List.length hsplit
    simp only [List.length_append, List.length_cons, List.length_nil] at this
    omega
  have htake : ∀ n ≤ ts.length, ts.take n = (before ++ t :: after).take n := by
    intro n hn
    rw [← hsplit, List.take_append_of_le_length hn]
  refine ⟨before.length, t, hindex, Parser.names_of_feed ht, ?_, ?_⟩
  · intro hin us hus
    have hfirst : us.take (before.length + 1) = before ++ [t] := by
      rw [hus, htake (before.length + 1) hin, List.take_length_add_append, List.take_succ_cons,
        List.take_zero]
    have hstuck : Parser.feedAll Parser.startFrames (before ++ [t]) = .error e := by
      rw [Parser.feedAll_append, hbefore]
      show (Parser.feedAll stack [t]) = _
      rw [Parser.feedAll_cons, ht]
      rfl
    rw [← List.take_append_drop (before.length + 1) us, hfirst]
    exact Parser.parse_error_of_feedAll hstuck
  · have hbegin : ts.take before.length = before := by
      rw [htake _ hlength, List.take_left]
    have hkept : ∀ u ∈ before, u.kind ≠ .eof := by
      intro u hu
      rw [← hbegin] at hu
      exact hts u (List.mem_of_mem_take hu)
    have hstack := Parser.finishable_feedAll hkept hbefore Parser.finishable_startFrames
    have hmore := Parser.lastTokens_ne_eof hstack
    have hall : ∀ u ∈ before ++ Parser.lastTokens stack, u.kind ≠ .eof :=
      List.forall_mem_append.mpr ⟨hkept, hmore⟩
    obtain ⟨fin, hfin, hended⟩ := Parser.exists_closed_eq_of_ne hall
    have hfinish : Parser.feedAll Parser.startFrames
        (Parser.closed (before ++ Parser.lastTokens stack)) = .ok [] := by
      rw [hended, List.append_assoc, Parser.feedAll_append, hbefore]
      exact Parser.feedAll_lastTokens hstack hfin
    obtain ⟨program, hprogram⟩ := Parser.parse_ok_of_feedAll hfinish
    rw [hbegin]
    exact ⟨_, program, hmore, hprogram⟩

/-- An else part on a line of its own. -/
theorem parse_error_earliest_of_late_else :
    let ts : List Token := [⟨.ifWord, "if", ⟨1, 1⟩⟩, ⟨.leftParen, "(", ⟨1, 4⟩⟩,
      ⟨.identifier, "x", ⟨1, 5⟩⟩, ⟨.rightParen, ")", ⟨1, 6⟩⟩, ⟨.leftBrace, "\x7b", ⟨1, 8⟩⟩,
      ⟨.rightBrace, "\x7d", ⟨1, 9⟩⟩, ⟨.newline, "\\n", ⟨1, 10⟩⟩, ⟨.elseWord, "else", ⟨2, 1⟩⟩,
      ⟨.leftBrace, "\x7b", ⟨2, 6⟩⟩, ⟨.rightBrace, "\x7d", ⟨2, 7⟩⟩]
    let e := SyntaxError.unexpectedToken .expression .elseWord ⟨2, 1⟩
    (∀ t ∈ ts, t.kind ≠ .eof) ∧ parse ts = .error e ∧
      ∃ last : Token, last.kind = .eof ∧ Parser.closed ts = ts ++ [last] ∧
        ∃ i t, (ts ++ [last])[i]? = some t ∧ e.Names t ∧
          (i < ts.length → ∀ us, us.take (i + 1) = ts.take (i + 1) → parse us = .error e) ∧
          ∃ more program, (∀ u ∈ more, u.kind ≠ .eof) ∧
            parse (ts.take i ++ more) = .ok program := by
  intro ts e
  have hts : ∀ t ∈ ts, t.kind ≠ .eof := by decide
  have hparse : parse ts = .error e := by cbv
  exact ⟨hts, hparse, parse_error_earliest hts hparse⟩

end StackScript
