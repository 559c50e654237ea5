import StackScript.Proofs.Recognizer

/-!
The productions of the grammar keep to the machine.

An expression, a statement and a whole program each stand for the frames that the machine has on its
stack before their first token. The levels of parentheses and braces are bounded by a number that is
no smaller than that of the tokens, so each induction is on a bound for the tokens left.

* `tracks_expression`, `tracks_statement`: expressions and statements;
* `startFrames`: the stack before a program;
* `feedAll_of_parse`: a program is what the machine has nothing left to read behind.
-/

namespace StackScript

namespace Parser

/-! ### Expressions -/

section Expressions

variable {inner operand : Production Node} {n bound : Nat}

theorem operatorsFrom_eq {level : Nat} (h : level < 3) :
    operatorsFrom level = operatorsFrom (level + 1) ++ [.operators level] := by
  match level with
  | 0 => rfl
  | 1 => rfl
  | 2 => rfl

theorem ne_eof_of_operator? {level : Nat} {kind : TokenKind} {op : BinaryOp}
    (h : operator? level kind = some op) : kind ≠ .eof := by
  rintro rfl
  match level with
  | 0 => exact nomatch h
  | 1 => exact nomatch h
  | 2 => exact nomatch h
  | _ + 3 => exact nomatch h

/-- The induction is on the bound for the number of operators; each takes a token. -/
theorem tracks_chainFrom {level : Nat} (hlevel : level < 3)
    (hoperand : Tracks n 1 operand (.operand :: operatorsFrom (level + 1))) :
    ∀ (bound m : Nat), m ≤ n → m ≤ bound → ∀ left,
      Tracks m 0 (chainFrom (operator? level) operand bound left) [.operators level] := by
  intro bound
  induction bound with
  | zero =>
    intro m _ hm left
    refine .ofCons fun t ts _ hlength => ?_
    omega
  | succ bound ih =>
    intro m hn hm left
    refine .ofCons fun t ts hended hlength => ?_
    cases hop : operator? level t.kind with
    | none =>
      have hframe : (Frame.operators level).on t = none := if_neg (by simp [hop])
      have hnone : chainFrom (operator? level) operand (bound + 1) left (t :: ts)
          = .ok (left, t :: ts) := chainFrom_of_none _ left hop
      exact .pass hframe (.congr hnone (.pure left hended))
    | some op =>
      have hframe : (Frame.operators level).on t
          = some (.ok (.operand :: operatorsFrom level)) := if_pos (by rw [hop]; rfl)
      have hstep : chainFrom (operator? level) operand (bound + 1) left (t :: ts)
          = (operand >>= fun right =>
              chainFrom (operator? level) operand bound (.binary op left right)) ts := by
        have hnext : operator? level (next (t :: ts)).kind = some op := hop
        rw [chainFrom_succ, hnext]
        rfl
      have htail := hended.tail rfl (ne_eof_of_operator? hop)
      have hrest : Tracks (m - 1) (1 + 0) (operand >>= fun right =>
          chainFrom (operator? level) operand bound (.binary op left right))
          (.operand :: operatorsFrom (level + 1) ++ [.operators level]) :=
        (hoperand.mono (by omega) (Nat.le_refl _)).bind fun right =>
          ih (m - 1 - 1) (by omega) (by omega) _
      rw [List.cons_append, ← operatorsFrom_eq hlevel] at hrest
      refine (TracksAt.take hframe hstep (k := 0) ?_).mono (Nat.zero_le _)
      rw [List.append_nil]
      exact (hrest ts htail (by omega)).mono (Nat.zero_le _)

theorem tracks_chain (level : Nat) (hlevel : level < 3) (hbound : n ≤ bound)
    (hoperand : Tracks n 1 operand (.operand :: operatorsFrom (level + 1))) :
    Tracks n 1 (chain bound (operator? level) operand) (.operand :: operatorsFrom level) := by
  have := hoperand.bind fun left =>
    tracks_chainFrom hlevel hoperand bound (n - 1) (by omega) (by omega) left
  rwa [List.cons_append, ← operatorsFrom_eq hlevel] at this

theorem on_operand_of_sign? {t : Token} {op : UnaryOp} (h : sign? t.kind = some op) :
    Frame.operand.on t = some (.ok [.operand]) ∧ t.kind ≠ .eof := by
  unfold sign? at h
  split at h
  · next hkind => exact ⟨by simp [Frame.on, startOperand, hkind], by rw [hkind]; decide⟩
  · next hkind => exact ⟨by simp [Frame.on, startOperand, hkind], by rw [hkind]; decide⟩
  · exact nomatch h

/-- The induction is on the signs, which are tokens at the front of the input. -/
theorem tracks_signed
    (h : ∀ t ts, Ended (t :: ts) → ts.length + 1 ≤ n → sign? t.kind = none →
      TracksAt operand 1 [.operand] (t :: ts)) :
    Tracks n 1 (signed operand) [.operand] := by
  intro ts
  induction ts with
  | nil =>
    intro hended _
    obtain ⟨t, us, hus⟩ := hended.exists_cons
    exact nomatch hus
  | cons t ts ih =>
    intro hended hlength
    rw [List.length_cons] at hlength
    cases hsign : sign? t.kind with
    | none =>
      exact .congr (signed_of_none hsign) (h t ts hended hlength hsign)
    | some op =>
      obtain ⟨hframe, hne⟩ := on_operand_of_sign? hsign
      have hrest := ih (hended.tail rfl hne) (by omega)
      exact (TracksAt.take hframe (signed_of_some hsign ts) (hrest.bindPure _)).mono (by omega)

/-- A frame that begins with a value does so as the frames of a value do. -/
theorem feed_startValue {frame : Frame} {ending : List Frame} {t : Token}
    (h : frame.on t = some (startValue ending t)) (stack : List Frame) :
    feed (frame :: stack) t = feed (valueFrames ++ ending ++ stack) t := by
  rw [List.append_assoc, feed, h, valueFrames, List.cons_append, feed]
  show Except.map _ (Except.map _ (startOperand t)) = Except.map _ (startOperand t)
  cases startOperand t <;> simp [Except.map]

theorem repeats_arguments :
    Repeats .arguments .rightParen (valueFrames ++ [.optional .comma]) where
  closes t ht := congrArg some (if_pos ht)
  goesOn t stack ht := by
    have hframe : Frame.arguments.on t = some (startValue [.optional .comma, .arguments] t) :=
      congrArg some (if_neg ht)
    rw [feed_startValue hframe]
    rfl

theorem tracks_argument (h : Tracks n 1 inner valueFrames) :
    Tracks n 1 (argument inner) (valueFrames ++ [.optional .comma]) :=
  h.bind fun node => (tracks_skip .comma (by decide)).bindPure fun _ => node

/-- A name, and arguments if a parenthesis opens behind it. -/
theorem tracks_afterName (name : String) (hinner : Tracks n 1 inner valueFrames)
    (hbound : n ≤ bound) :
    Tracks n 0 (do
      if (← peek) = .leftParen then
        discard advance
        let arguments ← manyUntil .rightParen (argument inner) bound
        discard advance
        return Node.call name arguments
      else return Node.identifier name) [.afterName] := by
  refine .ofCons fun t ts hended hlength => ?_
  by_cases ht : t.kind = .leftParen
  · have hframe : Frame.afterName.on t = some (.ok [.arguments]) := if_pos ht
    have hlist : Tracks (n - 1) (0 + 1) (do
        let arguments ← manyUntil .rightParen (argument inner) bound
        discard advance
        return Node.call name arguments) [.arguments] :=
      .closed repeats_arguments (by decide) ((tracks_argument hinner).mono (by omega) (Nat.le_refl _))
        (by omega) fun arguments => .pure _
    have hrest := hlist ts (hended.tail ht (by decide)) (by omega)
    refine (TracksAt.take hframe ?_ hrest).mono (Nat.zero_le _)
    show (if t.kind = .leftParen then _ else _ : Production Node) (t :: ts) = _
    rw [if_pos ht]
    rfl
  · have hframe : Frame.afterName.on t = none := if_neg ht
    refine .pass hframe (.congr ?_ (.pure (Node.identifier name) hended))
    show (if t.kind = .leftParen then _ else _ : Production Node) (t :: ts) = _
    rw [if_neg ht]

theorem primary_cons (bound : Nat) (inner : Production Node) (t : Token) (ts : List Token) :
    primary bound inner (t :: ts) = (match t.kind with
      | .number => do
        let t ← advance
        match readNumber? t.lexeme with
        | some x => return .number x
        | none => throw (.invalidNumber t.lexeme t.position)
      | .string => return .string (← advance).lexeme
      | .identifier => do
        let t ← advance
        if (← peek) = .leftParen then
          discard advance
          let arguments ← manyUntil .rightParen (argument inner) bound
          discard advance
          return .call t.lexeme arguments
        else return .identifier t.lexeme
      | .leftParen => do
        discard advance
        let node ← inner
        discard (expect .rightParen)
        return node
      | _ => unexpected .expression : Production Node) (t :: ts) := rfl

theorem primary_number (bound : Nat) (inner : Production Node) {t : Token}
    (h : t.kind = .number) (ts : List Token) :
    primary bound inner (t :: ts) = (match readNumber? t.lexeme with
      | some x => pure (.number x)
      | none => throw (.invalidNumber t.lexeme t.position) : Production Node) ts := by
  rw [primary_cons, h]
  rfl

/-- One case for each kind of token that an operand may begin with. -/
theorem tracksAt_primary {t : Token} {ts : List Token} (hended : Ended (t :: ts))
    (hinner : Tracks ts.length 1 inner valueFrames) (hbound : ts.length ≤ bound)
    (hsign : sign? t.kind = none) : TracksAt (primary bound inner) 1 [.operand] (t :: ts) := by
  have hpeek := primary_cons bound inner t ts
  cases hkind : t.kind with
  | number =>
    have hread := primary_number bound inner hkind ts
    cases hnumber : readNumber? t.lexeme with
    | none =>
      rw [hnumber] at hread
      have hframe : Frame.operand.on t
          = some (.error (.invalidNumber t.lexeme t.position)) := by
        simp [Frame.on, startOperand, hkind, hnumber]
      exact .stuck hframe hread
    | some x =>
      rw [hnumber] at hread
      have hframe : Frame.operand.on t = some (.ok []) := by
        simp [Frame.on, startOperand, hkind, hnumber]
      exact .take (z := pure (.number x)) hframe hread (.pure _ (hended.tail hkind (by decide)))
  | string =>
    rw [hkind] at hpeek
    have hframe : Frame.operand.on t = some (.ok []) := by
      simp [Frame.on, startOperand, hkind]
    exact .take (z := pure (.string t.lexeme)) hframe hpeek (.pure _ (hended.tail hkind (by decide)))
  | identifier =>
    rw [hkind] at hpeek
    have hframe : Frame.operand.on t = some (.ok [.afterName]) := by
      simp [Frame.on, startOperand, hkind]
    have hrest := tracks_afterName t.lexeme hinner hbound ts (hended.tail hkind (by decide))
      (Nat.le_refl _)
    exact .take hframe hpeek hrest
  | leftParen =>
    rw [hkind] at hpeek
    have hframe : Frame.operand.on t = some (.ok (valueFrames ++ [.expect .rightParen])) := by
      simp [Frame.on, startOperand, hkind]
    have hrest := hinner.bind fun node =>
      (tracks_mark _ .rightParen (by decide)).bindPure fun _ => node
    exact (TracksAt.take hframe hpeek (hrest ts (hended.tail hkind (by decide)) (Nat.le_refl _))).mono
      (by omega)
  | plus =>
    simp [hkind, sign?] at hsign
  | minus =>
    simp [hkind, sign?] at hsign
  | _ =>
    rw [hkind] at hpeek
    refine .stuck (e := .unexpectedToken .expression t.kind t.position) ?_ hpeek
    simp [Frame.on, startOperand, hkind]

/-- An expression in fewer levels of parentheses than there are tokens is read to its end. -/
theorem tracks_expression (bound : Nat) : ∀ depth, depth ≤ bound →
    Tracks depth 1 (expression bound depth) valueFrames := by
  intro depth
  induction depth with
  | zero => exact fun _ => .ofCons fun t ts _ hlength => absurd hlength (by omega)
  | succ depth ih =>
    intro hbound
    have hinner := ih (by omega)
    have hsigned : Tracks (depth + 1) 1 (signed (primary bound (expression bound depth)))
        (.operand :: operatorsFrom 3) :=
      tracks_signed fun t ts hended hlength hsign =>
        tracksAt_primary hended (hinner.mono (by omega) (Nat.le_refl _)) (by omega) hsign
    -- three levels of operators
    have h₂ := tracks_chain 2 (by omega) hbound hsigned
    have h₁ := tracks_chain 1 (by omega) hbound h₂
    exact tracks_chain 0 (by omega) hbound h₁

end Expressions

/-! ### Statements -/

section Statements

variable {value inner : Production Node} {n bound : Nat}

theorem repeats_parameters :
    Repeats .parameters .rightParen [.expect .identifier, .optional .comma] where
  closes t ht := congrArg some (if_pos ht)
  goesOn t stack ht := by
    have hframe : Frame.parameters.on t = some (if t.kind = .identifier
        then .ok [.optional .comma, .parameters]
        else .error (.unexpectedToken (.token .identifier) t.kind t.position)) :=
      congrArg some (if_neg ht)
    rw [feed, hframe, List.cons_append, feed]
    by_cases hname : t.kind = .identifier
    · simp [Frame.on, hname, Except.map]
    · simp [Frame.on, hname, Except.map]

theorem repeats_lines : Repeats .lines .rightBrace [.statement, .newlines] where
  closes t ht := congrArg some (if_pos ht)
  goesOn t stack ht := by
    have hframe : Frame.lines.on t
        = some ((startStatement t).map (· ++ [.newlines, .lines])) := congrArg some (if_neg ht)
    rw [feed, hframe, List.cons_append, feed]
    show Except.map _ (Except.map _ (startStatement t)) = Except.map _ (startStatement t)
    cases startStatement t <;> simp [Except.map]

theorem repeats_program : Repeats .program .eof [.statement, .newlines] where
  closes t ht := congrArg some (if_pos ht)
  goesOn t stack ht := by
    have hframe : Frame.program.on t
        = some ((startStatement t).map (· ++ [.newlines, .program])) := congrArg some (if_neg ht)
    rw [feed, hframe, List.cons_append, feed]
    show Except.map _ (Except.map _ (startStatement t)) = Except.map _ (startStatement t)
    cases startStatement t <;> simp [Except.map]

theorem tracks_parameter : Tracks n 1 parameter [.expect .identifier, .optional .comma] :=
  (tracks_expect .identifier (by decide)).bind fun name =>
    (tracks_skip .comma (by decide)).bindPure fun _ => name.lexeme

theorem tracks_line (h : Tracks n 1 inner [.statement]) :
    Tracks n 1 (line inner) [.statement, .newlines] :=
  h.bind fun node => tracks_skipNewlines.bindPure fun _ => node

theorem tracks_block (h : Tracks n 1 inner [.statement]) (hbound : n ≤ bound) :
    Tracks (n + 1) 1 (block bound inner) blockFrames := by
  have hlines : Tracks n (0 + 1) (do
      let body ← manyUntil .rightBrace (line inner) bound
      discard advance
      return body) [.lines] :=
    .closed repeats_lines (by decide) (tracks_line h) hbound fun body => .pure body
  have := (tracks_mark (n + 1) .leftBrace (by decide)).bind fun _ =>
    tracks_skipNewlines.bind fun _ => hlines
  exact this.mono (Nat.le_refl _) (by omega)

theorem tracks_definition (h : Tracks n 1 inner [.statement]) (hbound : n ≤ bound) :
    Tracks n 1 (definition bound inner)
      (.expect .identifier :: .expect .leftParen :: .parameters :: blockFrames) := by
  have hbody := (tracks_block h hbound).mono (Nat.sub_le (n + 1) 4) (Nat.le_refl 1)
  have hparameters : ∀ name : String, Tracks (n - 1 - 1) (1 + 1) (do
      let parameters ← manyUntil .rightParen parameter bound
      discard advance
      let body ← block bound inner
      return Node.define name parameters body) (.parameters :: blockFrames) := fun name =>
    .closed repeats_parameters (by decide) tracks_parameter (by omega) fun parameters =>
      hbody.bindPure fun body => Node.define name parameters body
  have := (tracks_expect (n := n) .identifier (by decide)).bind fun name =>
    (tracks_mark (n - 1) .leftParen (by decide)).bind fun _ => hparameters name.lexeme
  exact this.mono (Nat.le_refl _) (by omega)

section Values

variable (hvalue : Tracks n 1 value valueFrames)

include hvalue

theorem tracks_condition : Tracks n 1 (condition value) conditionFrames := by
  have := (tracks_mark n .leftParen (by decide)).bind fun _ =>
    (hvalue.mono (Nat.sub_le n 1) (Nat.le_refl _)).bind fun node =>
      (tracks_mark (n - 1 - 1) .rightParen (by decide)).bindPure fun _ => node
  exact this.mono (Nat.le_refl _) (by omega)

theorem tracks_bare : Tracks n 1 (bare value) (valueFrames ++ [.optional .semicolon]) :=
  hvalue.bind fun node => (tracks_skip .semicolon (by decide)).bindPure fun _ => node

theorem tracks_print : Tracks n 1 (print value) (conditionFrames ++ [.optional .semicolon]) :=
  (tracks_condition hvalue).bind fun node =>
    (tracks_skip .semicolon (by decide)).bindPure fun _ => Node.print node

/-- A binding from its value on. -/
theorem tracks_assigned (name : String) : Tracks n 1 (do
      let value ← value
      skip .semicolon
      return Node.assign name value) (valueFrames ++ [.optional .semicolon]) :=
  hvalue.bind fun value => (tracks_skip .semicolon (by decide)).bindPure fun _ => Node.assign name value

theorem tracks_loop (h : Tracks n 1 inner [.statement]) (hbound : n ≤ bound) :
    Tracks n 1 (loop bound value inner) (conditionFrames ++ blockFrames) := by
  have := (tracks_condition hvalue).bind fun test =>
    ((tracks_block h hbound).mono (Nat.sub_le_of_le_add (by omega)) (Nat.le_refl _)).bindPure
      fun body => Node.loop test body
  exact this.mono (Nat.le_refl _) (by omega)

omit hvalue in
theorem tracks_elsePart (test : Node) (thenBody : List Node) (h : Tracks n 1 inner [.statement])
    (hbound : n ≤ bound) :
    Tracks n 0 (do
      if (← peek) = .elseWord then
        discard advance
        let elseBody ← block bound inner
        return Node.branch test thenBody (some elseBody)
      else return Node.branch test thenBody none) [.elsePart] := by
  refine .ofCons fun t ts hended hlength => ?_
  by_cases ht : t.kind = .elseWord
  · have hframe : Frame.elsePart.on t = some (.ok blockFrames) := if_pos ht
    have hrest := (tracks_block h hbound).bindPure fun body => Node.branch test thenBody (some body)
    refine (TracksAt.take hframe ?_ (hrest ts (hended.tail ht (by decide)) (by omega))).mono
      (Nat.zero_le _)
    show (if t.kind = .elseWord then _ else _ : Production Node) (t :: ts) = _
    rw [if_pos ht]
    rfl
  · have hframe : Frame.elsePart.on t = none := if_neg ht
    refine .pass hframe (.congr ?_ (.pure (Node.branch test thenBody none) hended))
    show (if t.kind = .elseWord then _ else _ : Production Node) (t :: ts) = _
    rw [if_neg ht]

theorem tracks_branch (h : Tracks n 1 inner [.statement]) (hbound : n ≤ bound) :
    Tracks n 1 (branch bound value inner) (conditionFrames ++ blockFrames ++ [.elsePart]) := by
  have := (tracks_condition hvalue).bind fun test =>
    ((tracks_block h hbound).mono (by omega) (Nat.le_refl _)).bind fun thenBody =>
      (tracks_elsePart test thenBody h hbound).mono (by omega) (Nat.le_refl _)
  exact this.mono (Nat.le_refl _) (by omega)

/-- A return without a value ends before a token that cannot begin one. -/
theorem tracks_ret : Tracks n 0 (ret value) [.returned, .optional .semicolon] := by
  refine .ofCons fun t ts hended hlength => ?_
  by_cases ht : endsReturn t.kind = true
  · have hframe : Frame.returned.on t = none := if_pos ht
    have hrest : Tracks n 0 (do skip .semicolon; return Node.ret none) [.optional .semicolon] :=
      (tracks_skip .semicolon (by decide)).bindPure fun _ => Node.ret none
    refine .pass hframe (.congr ?_ (hrest (t :: ts) hended hlength))
    show (if endsReturn t.kind = true then _ else _ : Production Node) (t :: ts) = _
    rw [if_pos ht]
    rfl
  · have hframe : Frame.returned.on t = some (startValue [] t) := if_neg ht
    have hrest : Tracks n 1 (do
        let result ← some <$> value
        skip .semicolon
        return Node.ret result) (valueFrames ++ [.optional .semicolon]) :=
      (hvalue.map _).bind fun result => (tracks_skip .semicolon (by decide)).bindPure fun _ =>
        Node.ret result
    have hframes : ∀ stack, feedAll ([.returned, .optional .semicolon] ++ stack) (t :: ts)
        = feedAll (valueFrames ++ [.optional .semicolon] ++ stack) (t :: ts) := by
      intro stack
      rw [feedAll_cons, feedAll_cons, List.cons_append, feed_startValue hframe]
      rfl
    refine .frames hframes (.congr ?_ ((hrest (t :: ts) hended hlength).mono (Nat.zero_le _)))
    show (if endsReturn t.kind = true then _ else _ : Production Node) (t :: ts) = _
    rw [if_neg ht]

end Values

/-- A statement whose first token is of this kind. -/
def statementFrom (bound : Nat) (value inner : Production Node) : TokenKind → Production Node
  | .letWord => assignment value
  | .funcWord => do discard advance; definition bound inner
  | .ifWord => do discard advance; branch bound value inner
  | .whileWord => do discard advance; loop bound value inner
  | .returnWord => do discard advance; ret value
  | .printWord => do discard advance; print value
  | .identifier => do if (← peekSecond) = .assign then assignment value else bare value
  | _ => bare value

theorem statementOver_eq (ts : List Token) :
    statementOver bound value inner ts
      = statementFrom bound value inner (next (ts.dropWhile (·.kind = .newline))).kind
          (ts.dropWhile (·.kind = .newline)) := rfl

/-- A statement that begins with a name is a binding if an equality sign follows. -/
theorem tracksAt_named {t : Token} {ts : List Token} (hended : Ended (t :: ts))
    (hvalue : Tracks (ts.length + 1) 1 value valueFrames) (hkind : t.kind = .identifier) :
    TracksAt (statementFrom bound value inner .identifier) 1 [.statement] (t :: ts) := by
  have hframe : Frame.statement.on t
      = some (.ok (.target :: operatorsFrom 0 ++ [.optional .semicolon])) := by
    simp [Frame.on, startStatement, hkind]
  have htail := hended.tail hkind (by decide)
  obtain ⟨u, us, rfl⟩ := htail.exists_cons
  have hvalue' : Tracks us.length 1 value valueFrames :=
    hvalue.mono (by simp only [List.length_cons]; omega) (Nat.le_refl _)
  by_cases hu : u.kind = .assign
  · have htarget : Frame.target.on u = some (.ok [.operand]) := if_pos hu
    have hrest := tracks_assigned hvalue' t.lexeme us (htail.tail hu (by decide)) (Nat.le_refl _)
    have hstep : statementFrom bound value inner .identifier (t :: u :: us) = (do
        let value ← value
        skip .semicolon
        return Node.assign t.lexeme value : Production Node) us := by
      show (if u.kind = .assign then assignment value else _) (t :: u :: us) = _
      rw [if_pos hu]
      show ((if t.kind = .letWord then _ else pure ()) >>= fun _ => _ : Production Node)
        (t :: u :: us) = _
      rw [hkind, if_neg (by decide)]
      show (expect .identifier (t :: u :: us) >>= _) = _
      rw [expect_cons hkind]
      show ((expect .assign (u :: us) >>= _) >>= _) = _
      rw [expect_cons hu]
      rfl
    have hafter := TracksAt.take (x := fun us => (do
        let value ← value
        skip .semicolon
        return Node.assign t.lexeme value : Production Node) us.tail) htarget rfl hrest
    exact (TracksAt.take hframe hstep hafter).mono (by omega)
  · -- a name that is not bound is the first token of an expression
    have hoperand : Frame.operand.on t = some (.ok [.afterName]) := by
      simp [Frame.on, startOperand, hkind]
    have hsame : Frame.target.on u = Frame.afterName.on u := if_neg hu
    have hframes : ∀ stack, feedAll ([.statement] ++ stack) (t :: u :: us)
        = feedAll (valueFrames ++ [.optional .semicolon] ++ stack) (t :: u :: us) := by
      intro stack
      rw [valueFrames, List.cons_append, List.cons_append, List.cons_append, feedAll_take hframe,
        feedAll_take hoperand, List.cons_append, List.cons_append, feedAll_cons, feedAll_cons,
        List.singleton_append, feed, feed, hsame]
      rfl
    refine .frames hframes (.congr ?_ (tracks_bare hvalue (t :: u :: us) hended (Nat.le_refl _)))
    show (if u.kind = .assign then _ else bare value) (t :: u :: us) = _
    rw [if_neg hu]

/-- One case for each kind of token that a statement may begin with. -/
theorem tracksAt_statementFrom {t : Token} {ts : List Token} (hended : Ended (t :: ts))
    (hvalue : Tracks (ts.length + 1) 1 value valueFrames)
    (hinner : Tracks ts.length 1 inner [.statement]) (hbound : ts.length ≤ bound)
    (hnewline : t.kind ≠ .newline) :
    TracksAt (statementFrom bound value inner t.kind) 1 [.statement] (t :: ts) := by
  have hvalue' := hvalue.mono (Nat.le_succ ts.length) (Nat.le_refl 1)
  cases hkind : t.kind with
  | newline => exact absurd hkind hnewline
  | letWord =>
    have hframe : Frame.statement.on t = some (.ok (.expect .identifier :: .expect .assign
        :: valueFrames ++ [.optional .semicolon])) := by
      simp [Frame.on, startStatement, hkind]
    have hrest := (tracks_expect (n := ts.length) .identifier (by decide)).bind fun name =>
      (tracks_mark _ .assign (by decide)).bind fun _ =>
        tracks_assigned (hvalue.mono (by omega) (Nat.le_refl _)) name.lexeme
    refine (TracksAt.take hframe ?_ (hrest ts (hended.tail hkind (by decide)) (Nat.le_refl _))).mono
      (by omega)
    show ((if t.kind = .letWord then _ else pure ()) >>= fun _ => _ : Production Node) (t :: ts) = _
    rw [if_pos hkind]
    rfl
  | funcWord =>
    have hframe : Frame.statement.on t
        = some (.ok (.expect .identifier :: .expect .leftParen :: .parameters :: blockFrames)) := by
      simp [Frame.on, startStatement, hkind]
    have hrest := tracks_definition hinner hbound ts (hended.tail hkind (by decide)) (Nat.le_refl _)
    exact (TracksAt.take hframe rfl hrest).mono (by omega)
  | ifWord =>
    have hframe : Frame.statement.on t
        = some (.ok (conditionFrames ++ blockFrames ++ [.elsePart])) := by
      simp [Frame.on, startStatement, hkind]
    have hrest := tracks_branch hvalue' hinner hbound ts (hended.tail hkind (by decide))
      (Nat.le_refl _)
    exact (TracksAt.take hframe rfl hrest).mono (by omega)
  | whileWord =>
    have hframe : Frame.statement.on t = some (.ok (conditionFrames ++ blockFrames)) := by
      simp [Frame.on, startStatement, hkind]
    have hrest := tracks_loop hvalue' hinner hbound ts (hended.tail hkind (by decide)) (Nat.le_refl _)
    exact (TracksAt.take hframe rfl hrest).mono (by omega)
  | returnWord =>
    have hframe : Frame.statement.on t = some (.ok [.returned, .optional .semicolon]) := by
      simp [Frame.on, startStatement, hkind]
    have hrest := tracks_ret hvalue' ts (hended.tail hkind (by decide)) (Nat.le_refl _)
    exact .take hframe rfl hrest
  | printWord =>
    have hframe : Frame.statement.on t
        = some (.ok (conditionFrames ++ [.optional .semicolon])) := by
      simp [Frame.on, startStatement, hkind]
    have hrest := tracks_print hvalue' ts (hended.tail hkind (by decide)) (Nat.le_refl _)
    exact (TracksAt.take hframe rfl hrest).mono (by omega)
  | identifier => exact tracksAt_named hended hvalue hkind
  | _ =>
    have hframe : Frame.statement.on t = some (startValue [.optional .semicolon] t) := by
      simp [Frame.on, startStatement, hkind]
    refine .frames (fun stack => ?_) (tracks_bare hvalue (t :: ts) hended (Nat.le_refl _))
    rw [feedAll_cons, feedAll_cons, List.singleton_append, feed_startValue hframe]

/-- The line feeds before a statement belong to it. -/
theorem tracks_statementOver (hvalue : Tracks (n + 1) 1 value valueFrames)
    (hinner : Tracks n 1 inner [.statement]) (hbound : n ≤ bound) :
    Tracks (n + 1) 1 (statementOver bound value inner) [.statement] := by
  intro ts hended hlength stack
  have hdrop : feedAll ([.statement] ++ stack) ts
      = feedAll ([.statement] ++ stack) (ts.dropWhile (·.kind = .newline)) := by
    refine feedAll_dropNewlines (fun t ts ht => ?_) ts
    have hframe : Frame.statement.on t = some (.ok [.statement]) := by
      simp [Frame.on, startStatement, ht]
    exact feedAll_take hframe
  have hshort := length_dropNewlines_le ts
  have hnewline := head_dropNewlines_ne hended
  have hkept := hended.dropNewlines
  rw [statementOver_eq, hdrop]
  obtain ⟨t, us, hus⟩ := hkept.exists_cons
  have hnext : next (t :: us) = t := rfl
  rw [hus] at hshort hnewline hkept ⊢
  rw [hnext] at hnewline ⊢
  rw [List.length_cons] at hshort
  have hvalue' : Tracks (us.length + 1) 1 value valueFrames :=
    hvalue.mono (by omega) (Nat.le_refl _)
  have hinner' : Tracks us.length 1 inner [.statement] := hinner.mono (by omega) (Nat.le_refl _)
  have htracks := tracksAt_statementFrom hkept hvalue' hinner'
    (Nat.le_trans (by omega) hbound) hnewline stack
  exact htracks.mono (by rw [List.length_cons]; omega)

end Statements

/-- A statement in fewer levels of braces than there are tokens is read to its end. -/
theorem tracks_statement (bound : Nat) : ∀ depth, depth ≤ bound →
    Tracks depth 1 (statement bound depth) [.statement] := by
  intro depth
  induction depth with
  | zero => exact fun _ => .ofCons fun t ts _ hlength => absurd hlength (by omega)
  | succ depth ih =>
    intro hbound
    have hvalue := (tracks_expression bound bound (Nat.le_refl _)).mono hbound (Nat.le_refl 1)
    exact tracks_statementOver hvalue (ih (by omega)) (by omega)

/-! ### Programs -/

/-- The stack before the first token of a program. -/
def startFrames : List Frame :=
  [.newlines, .program]

theorem ended_closed (ts : List Token) : Ended (closed ts) := by
  unfold closed
  split
  · exact ⟨emptyEnd, List.mem_singleton_self _, rfl⟩
  · next last hlast =>
    split
    · next heof => exact ⟨last, List.mem_of_getLast? hlast, heof⟩
    · exact ⟨_, List.mem_append_right _ (List.mem_singleton_self _), rfl⟩

/-- The machine has nothing left to read behind a program, and is stuck where there is none. -/
theorem feedAll_of_parse (ts : List Token) : match parse ts with
    | .ok _ => feedAll startFrames (closed ts) = .ok []
    | .error e => feedAll startFrames (closed ts) = .error e := by
  have hended := ended_closed ts
  have hshort := Nat.le_trans (length_dropNewlines_le (closed ts)) (Nat.le_succ _)
  -- the first line feeds, and then statements
  have hnewlines := tracks_skipNewlines _ hended (Nat.le_refl _) [.program]
  obtain ⟨hlines, hnext⟩ := manyUntil_agrees repeats_program
    (tracks_line (tracks_statement ((closed ts).length + 1) _ (Nat.le_refl _))) []
    ((closed ts).length + 1) _ hended.dropNewlines hshort hshort
  cases hnewlines with
  | ended _ _ hfed =>
    show match Except.map (·.1) (manyUntil .eof (line (statement ((closed ts).length + 1)
      ((closed ts).length + 1))) ((closed ts).length + 1)
      ((closed ts).dropWhile (·.kind = .newline))) with
      | .ok _ => feedAll ([.newlines] ++ [.program]) (closed ts) = _
      | .error e => feedAll ([.newlines] ++ [.program]) (closed ts) = _
    rw [hfed]
    generalize manyUntil .eof _ _ ((closed ts).dropWhile (·.kind = .newline)) = r
      at hlines hnext ⊢
    cases hlines with
    | failed hfed => exact hfed
    | @ended program rest hrest _ hfed =>
      obtain ⟨u, us, rfl⟩ := hrest.exists_cons
      have hframe := repeats_program.closes u (hnext program _ rfl)
      show feedAll [.program] _ = _
      rw [hfed, feedAll_take hframe, List.append_nil, feedAll_nil]

end Parser

end StackScript
