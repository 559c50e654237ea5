import StackScript.Proofs.CorrectPrefix
import StackScript.Proofs.SourceComposition
import StackScript.Proofs.TokenContent

/-!
The parser goes forward and stays in front of the end of the input.

Wherever the parser stands, an expression or a statement takes at least one token, and never the end
of the input. So each round of a loop is nearer to the end than the one before, and a loop whose
closing token never comes ends with an error. The bounds that productions are given are not what ends
it: they are never reached. Tokens behind the first end of the input are not looked at.

* `Advance`: from where to where a production goes, if it answers and if it fails;
* `Rounds`, `OperatorRounds`: loops without a bound, with the number of their rounds;
* `advance_of_tracks`, `rounds_manyUntil`, `operatorRounds_chainFrom`: what a production that keeps to
  the machine with a stack does;
* `Progress`, `progress`: all of it, for the place of a token;
* `parser_progress`: every place in every list of tokens.
-/

namespace StackScript

namespace Parser

/-! ### Going forward -/

/-- From the tokens `us` a production that answers has taken `k` of them or more, and stands on
another one; one that fails has come as far as the token that the error is about. None of the tokens
before that one ends the input. -/
inductive Advance {α : Type} (k : Nat) (us : List Token) :
    Except SyntaxError (α × List Token) → Prop where
  | answered {a : α} {taken after : List Token} {t : Token} (hus : us = taken ++ t :: after)
    (hkept : ∀ u ∈ taken, u.kind ≠ .eof) (hlength : k ≤ taken.length) :
    Advance k us (.ok (a, t :: after))
  | failed {e : SyntaxError} {taken after : List Token} {t : Token} (hus : us = taken ++ t :: after)
    (hkept : ∀ u ∈ taken, u.kind ≠ .eof) (hnames : e.Names t) : Advance k us (.error e)

/-- The first end of the input. -/
theorem Ended.exists_first {us : List Token} (h : Ended us) :
    ∃ before last after, us = before ++ last :: after ∧ (∀ u ∈ before, u.kind ≠ .eof) ∧
      last.kind = .eof := by
  induction us with
  | nil => exact absurd h.exists_cons (by simp)
  | cons t us ih =>
    by_cases ht : t.kind = .eof
    · exact ⟨[], t, us, rfl, List.forall_mem_nil _, ht⟩
    · obtain ⟨before, last, after, rfl, hbefore, hlast⟩ := ih (h.tail rfl ht)
      exact ⟨t :: before, last, after, rfl, List.forall_mem_cons.mpr ⟨ht, hbefore⟩, hlast⟩

theorem Ended.of_append {taken rest : List Token} (h : Ended (taken ++ rest))
    (htaken : ∀ t ∈ taken, t.kind ≠ .eof) : Ended rest := by
  obtain ⟨t, ht, heof⟩ := h
  rcases List.mem_append.mp ht with ht | ht
  · exact absurd heof (htaken t ht)
  · exact ⟨t, ht, heof⟩

/-- A machine that has nothing left to read at the end of the input, or gets stuck before, gets stuck
at a token that is not behind that end. -/
theorem exists_stuck {stack : List Frame} {us : List Token} {e : SyntaxError} (hended : Ended us)
    (hdone : ∀ before last fs, last.kind = .eof → before ++ [last] <+: us →
      feedAll stack (before ++ [last]) = .ok fs → fs = [])
    (h : feedAll stack us = .error e) :
    ∃ taken t after, us = taken ++ t :: after ∧ (∀ u ∈ taken, u.kind ≠ .eof) ∧ e.Names t := by
  obtain ⟨before, last, after, rfl, hbefore, hlast⟩ := hended.exists_first
  have hwhole : before ++ last :: after = before ++ [last] ++ after := by simp
  have hfirst : feedAll stack (before ++ [last]) = .error e := by
    rw [hwhole, feedAll_append] at h
    cases hfed : feedAll stack (before ++ [last]) with
    | error e' =>
      rw [hfed] at h
      exact congrArg Except.error (Except.error.inj h)
    | ok fs =>
      obtain rfl := hdone before last fs hlast (hwhole ▸ List.prefix_append _ _) hfed
      rw [hfed] at h
      exact nomatch (feedAll_nil after).symm.trans h
  obtain ⟨taken, t, rest, stack', hsplit, -, ht⟩ := feedAll_error hfirst
  refine ⟨taken, t, rest ++ after, ?_, fun u hu => ?_, names_of_feed ht⟩
  · rw [hwhole, hsplit, List.append_assoc, List.cons_append]
  · -- what has been fed before is shorter than the list up to the end of the input
    have hprefix : taken <+: before ++ [last] := ⟨t :: rest, hsplit.symm⟩
    have hle : taken.length ≤ before.length := by
      have := congrArg List.length hsplit
      simp only [List.length_append, List.length_cons, List.length_nil] at this
      omega
    have htaken : taken <+: before :=
      List.prefix_of_prefix_length_le hprefix (List.prefix_append _ _) hle
    exact hbefore u (htaken.subset hu)

section Productions

variable {α : Type} {x : Production α} {R : List Token → α → Prop} {fs : List Frame}
  {n k : Nat} {us : List Token}

/-- A production that answers has left some of the tokens. -/
theorem Tracks.shorter (h : Tracks n k x fs) (hended : Ended us) (hlength : us.length ≤ n) {a : α}
    {rest : List Token} (hx : x us = .ok (a, rest)) : Ended rest ∧ rest.length + k ≤ us.length := by
  have hagrees := h us hended hlength []
  rw [hx] at hagrees
  cases hagrees with
  | ended hrest hle _ => exact ⟨hrest, hle⟩

/-- The tokens that a production takes are known from what it keeps of them, and where it fails from
the machine that it keeps to. -/
theorem advance_of_tracks (htakes : Takes Anything x R) (htracks : Tracks n k x fs)
    (hended : Ended us) (hlength : us.length ≤ n) : Advance k us (x us) := by
  cases hx : x us with
  | ok r =>
    obtain ⟨a, rest⟩ := r
    obtain ⟨hrest, hle⟩ := htracks.shorter hended hlength hx
    obtain ⟨t, after, rfl⟩ := hrest.exists_cons
    obtain ⟨taken, rfl, hkept, -⟩ := htakes us a _ trivial hx
    rw [List.length_append] at hle
    exact .answered rfl hkept (by omega)
  | error e =>
    have hfed : feedAll (fs ++ []) us = .error e := by
      have hagrees := htracks us hended hlength []
      rw [hx] at hagrees
      cases hagrees with
      | failed hfed => exact hfed
    -- up to the end of the input, the production answers or fails as well
    have hdone : ∀ before last gs, last.kind = .eof → before ++ [last] <+: us →
        feedAll (fs ++ []) (before ++ [last]) = .ok gs → gs = [] := by
      intro before last gs hlast hprefix hgs
      have hshort : (before ++ [last]).length ≤ n := Nat.le_trans hprefix.length_le hlength
      have hagrees := htracks (before ++ [last]) ⟨last, by simp, hlast⟩ hshort []
      rw [hgs] at hagrees
      generalize x (before ++ [last]) = r at hagrees
      cases hagrees with
      | ended _ _ hfed => exact Except.ok.inj (hfed.trans (feedAll_nil _))
      | failed hfed => exact nomatch hfed
    obtain ⟨taken, t, after, hus, hkept, hnames⟩ := exists_stuck hended hdone hfed
    exact .failed hus hkept hnames

end Productions

/-! ### Loops -/

/-- A loop that reads items up to a closing token comes to an end, with a number of rounds. -/
inductive Rounds {α : Type} (close : TokenKind) (item : Production α) :
    Nat → List Token → Except SyntaxError (List α × List Token) → Prop where
  | closed {us : List Token} (h : (next us).kind = close) : Rounds close item 0 us (.ok ([], us))
  | failed {us : List Token} {e : SyntaxError} (h : (next us).kind ≠ close)
    (hitem : item us = .error e) : Rounds close item 1 us (.error e)
  | goesOn {us rest : List Token} {a : α} {m : Nat} {r : Except SyntaxError (List α × List Token)}
    (h : (next us).kind ≠ close) (hitem : item us = .ok (a, rest))
    (hrest : Rounds close item m rest r) :
    Rounds close item (m + 1) us (r >>= fun q => .ok (a :: q.1, q.2))

/-- A loop that reads operators of one level and their right operands comes to an end, with a number
of rounds. -/
inductive OperatorRounds (op? : TokenKind → Option BinaryOp) (operand : Production Node) :
    Nat → Node → List Token → Except SyntaxError (Node × List Token) → Prop where
  | closed {left : Node} {us : List Token} (h : op? (next us).kind = none) :
    OperatorRounds op? operand 0 left us (.ok (left, us))
  | failed {left : Node} {us : List Token} {op : BinaryOp} {e : SyntaxError}
    (h : op? (next us).kind = some op) (hoperand : operand us.tail = .error e) :
    OperatorRounds op? operand 1 left us (.error e)
  | goesOn {left right : Node} {us rest : List Token} {op : BinaryOp} {m : Nat}
    {r : Except SyntaxError (Node × List Token)} (h : op? (next us).kind = some op)
    (hoperand : operand us.tail = .ok (right, rest))
    (hrest : OperatorRounds op? operand m (.binary op left right) rest r) :
    OperatorRounds op? operand (m + 1) left us r

section Loops

variable {α : Type} {close : TokenKind} {item : Production α} {operand : Production Node}
  {fs : List Frame} {n : Nat}

/-- The induction is on the bound; each round takes a token, so that the bound is not reached. -/
theorem rounds_manyUntil (hitem : Tracks n 1 item fs) :
    ∀ (bound : Nat) {us : List Token}, Ended us → us.length ≤ n → us.length ≤ bound →
      ∃ m ≤ us.length, Rounds close item m us (manyUntil close item bound us) := by
  intro bound
  induction bound with
  | zero =>
    intro us hended _ hbound
    obtain ⟨t, ts, rfl⟩ := hended.exists_cons
    exact absurd hbound (by simp)
  | succ bound ih =>
    intro us hended hn hbound
    rw [manyUntil_succ]
    by_cases hclose : (next us).kind = close
    · rw [if_pos hclose]
      exact ⟨0, Nat.zero_le _, .closed hclose⟩
    · rw [if_neg hclose]
      cases hx : item us with
      | error e =>
        have hpos : 1 ≤ us.length := by
          obtain ⟨t, ts, rfl⟩ := hended.exists_cons
          exact Nat.succ_le_succ (Nat.zero_le _)
        exact ⟨1, hpos, .failed hclose hx⟩
      | ok r =>
        obtain ⟨a, rest⟩ := r
        obtain ⟨hrest, hle⟩ := hitem.shorter hended hn hx
        obtain ⟨m, hm, hrounds⟩ := ih hrest (by omega) (by omega)
        exact ⟨m + 1, by omega, .goesOn hclose hx hrounds⟩

/-- The induction is on the bound; each operator is a token. -/
theorem operatorRounds_chainFrom {level : Nat} (hoperand : Tracks n 1 operand fs) :
    ∀ (bound : Nat) (left : Node) {us : List Token}, Ended us → us.length ≤ n →
      us.length ≤ bound → ∃ m ≤ us.length,
        OperatorRounds (operator? level) operand m left us
          (chainFrom (operator? level) operand bound left us) := by
  intro bound
  induction bound with
  | zero =>
    intro left us hended _ hbound
    obtain ⟨t, ts, rfl⟩ := hended.exists_cons
    exact absurd hbound (by simp)
  | succ bound ih =>
    intro left us hended hn hbound
    cases hop : operator? level (next us).kind with
    | none =>
      rw [chainFrom_of_none _ left hop]
      exact ⟨0, Nat.zero_le _, .closed hop⟩
    | some op =>
      obtain ⟨t, ts, rfl⟩ := hended.exists_cons
      have htail : Ended ts := hended.tail rfl (ne_eof_of_operator? hop)
      rw [List.length_cons] at hn hbound ⊢
      have hstep : chainFrom (operator? level) operand (bound + 1) left (t :: ts)
          = operand ts >>= fun r =>
              chainFrom (operator? level) operand bound (.binary op left r.1) r.2 := by
        rw [chainFrom_succ, hop]
        rfl
      rw [hstep]
      cases hx : operand ts with
      | error e => exact ⟨1, by omega, .failed hop hx⟩
      | ok r =>
        obtain ⟨right, rest⟩ := r
        obtain ⟨hrest, hle⟩ := hoperand.shorter htail (by omega) hx
        obtain ⟨m, hm, hrounds⟩ := ih (.binary op left right) hrest (by omega) (by omega)
        exact ⟨m + 1, by omega, .goesOn hop hx hrounds⟩

end Loops

/-! ### Bounds that are large enough, and tokens behind the end -/

section Comparison

variable {f : Position → Position} {last : Token} {before after ending ts us us' : List Token}
  {x y z : Production Node} {n k : Nat}

theorem Alike.unique (hlast : last.kind = .eof) (h : Alike f last ending ts us)
    (h' : Alike f last ending ts us') : us = us' := by
  induction h generalizing us' with
  | ends =>
    cases h' with
    | ends => rfl
    | cons ht _ => exact absurd hlast ht
  | cons ht _ ih =>
    cases h' with
    | ends => exact absurd hlast ht
    | cons _ h' => rw [ih h']

/-- Productions that read the same as a third one are the same. -/
theorem eq_of_compares (hend : Ending id last (last :: after))
    (hx : Compares id last (last :: after) (Alike id last (last :: after)) n k z x)
    (hy : Compares id last (last :: after) (Alike id last (last :: after)) n k z y)
    (halike : Alike id last (last :: after) ts us) (hlength : ts.length ≤ n) : x us = y us := by
  have hfirst := hx ts us halike hlength
  have hsecond := hy ts us halike hlength
  have hnewline : (next (last :: after)).kind ≠ .newline := by
    show last.kind ≠ .newline
    rw [hend.eof]
    decide
  generalize z ts = r at hfirst hsecond
  generalize x us = p at hfirst ⊢
  generalize y us = q at hsecond ⊢
  cases hfirst with
  | value hrest _ =>
    cases hsecond with
    | value hrest' _ => rw [hrest.unique hend.eof hrest']
  | failed h =>
    cases hsecond with
    | failed h' =>
      rw [h.resolve_right hnewline, h'.resolve_right hnewline]

theorem ending_self (hlast : last.kind = .eof) : Ending id last (last :: after) :=
  ⟨hlast, .inl ⟨after, rfl⟩⟩

theorem alike_self (hbefore : ∀ t ∈ before, t.kind ≠ .eof) :
    Alike id last (last :: after) (before ++ [last]) (before ++ last :: after) := by
  have halike : Alike id last (last :: after) (before ++ [last]) _ := alike_append hbefore
  rwa [show before.map (·.move id) = before from List.map_id before] at halike

/-- Bounds that are no smaller than the number of tokens make no difference. -/
theorem bounds_irrelevant (hended : Ended us) {bound depth bound' depth' : Nat}
    (hbound : us.length ≤ bound) (hdepth : us.length ≤ depth) (hbound' : us.length ≤ bound')
    (hdepth' : us.length ≤ depth') :
    expression bound' depth' us = expression bound depth us ∧
      statement bound' depth' us = statement bound depth us := by
  obtain ⟨before, last, after, rfl, hbefore, hlast⟩ := hended.exists_first
  have hend : Ending id last (last :: after) := ending_self hlast
  have halike : Alike id last (last :: after) (before ++ [last]) (before ++ last :: after) :=
    alike_self hbefore
  have hshort : (before ++ [last]).length ≤ (before ++ last :: after).length := by simp
  generalize (before ++ last :: after).length = size at hshort hbound hdepth hbound' hdepth'
  generalize before ++ [last] = first at hshort halike
  have hb : first.length ≤ bound := by omega
  have hb' : first.length ≤ bound' := by omega
  have hd : first.length ≤ depth := by omega
  have hd' : first.length ≤ depth' := by omega
  constructor
  · exact eq_of_compares hend (compares_expression hend hb hb' depth depth' hd hd')
      (compares_expression hend hb hb depth depth hd hd) halike (Nat.le_refl _)
  · exact eq_of_compares hend (compares_statement hend hb hb' depth depth' hd hd')
      (compares_statement hend hb hb depth depth hd hd) halike (Nat.le_refl _)

theorem mapError_move_id {α : Type} (r : Except SyntaxError α) :
    r.mapError (SyntaxError.move id) = r := by
  cases r with
  | ok a => rfl
  | error e => cases e <;> rfl

/-- The first end of the input is the last token that is looked at. -/
theorem parse_append_of_first (hts : ∀ t ∈ ts, t.kind ≠ .eof) (hlast : last.kind = .eof)
    (rest : List Token) : parse (ts ++ last :: rest) = parse (ts ++ [last]) := by
  obtain ⟨added, hclosed⟩ := exists_closed_append (ts ++ last :: rest)
  rw [List.append_assoc, List.cons_append] at hclosed
  generalize rest ++ added = after at hclosed
  have hend : Ending id last (last :: after) := ending_self hlast
  have halike : Alike id last (last :: after) (ts ++ [last]) (ts ++ last :: after) := alike_self hts
  have hshort : (ts ++ [last]).length ≤ (ts ++ last :: after).length := by simp
  have hdropped := halike.dropNewlines_of_eof hend hlast
  rw [parse_eq hlast, parse, hclosed]
  generalize ts ++ last :: after = whole at *
  generalize ts ++ [last] = first at *
  have hless := length_dropNewlines_le first
  have hitem := compares_line hend (compares_statement hend
    (show first.length ≤ first.length + 1 by omega) (show first.length ≤ whole.length + 1 by omega)
    (first.length + 1) (whole.length + 1) (by omega) (by omega))
  have hsame := manyUntil_eof_move hend hlast hitem (first.length + 1) (whole.length + 1) hdropped
    hless (by omega) (by omega)
  rw [mapError_move_id] at hsame
  exact hsame

theorem parse_append_eof (ts : List Token) (hlast : last.kind = .eof) (rest : List Token) :
    parse (ts ++ last :: rest) = parse (ts ++ [last]) := by
  by_cases hended : Ended ts
  · -- both are read up to an end of the input that comes before
    obtain ⟨before, first, after, rfl, hbefore, hfirst⟩ := hended.exists_first
    rw [List.append_assoc, List.append_assoc, List.cons_append, List.cons_append,
      parse_append_of_first hbefore hfirst, ← parse_append_of_first hbefore hfirst (after ++ [last])]
  · exact parse_append_of_first (fun t ht heof => hended ⟨t, ht, heof⟩) hlast rest

end Comparison

/-! ### Places in a list of tokens -/

/-- A loop that is given a bound comes to an end as it does without one. -/
def LoopEnds {α : Type} (close : TokenKind) (item : Production α) (bound : Nat) (us : List Token) :
    Prop :=
  ∃ m ≤ us.length, Rounds close item m us (manyUntil close item bound us)

/-- The right operands of the operators of a level. -/
def operandOf (bound : Nat) (inner : Production Node) : (level : Nat) → Production Node
  | 0 => chain bound additive? (chain bound multiplicative? (signed (primary bound inner)))
  | 1 => chain bound multiplicative? (signed (primary bound inner))
  | _ => signed (primary bound inner)

/-- From this place the parser goes forward, and its loops come to an end: over the statements of a
program and of a block, arguments, parameters, and the operators of each level. -/
structure Progress (bound depth : Nat) (us : List Token) : Prop where
  expression : Advance 1 us (expression bound depth us)
  statement : Advance 1 us (statement bound depth us)
  /-- The bounds are not reached. -/
  bounds : ∀ bound' depth', us.length ≤ bound' → us.length ≤ depth' →
    Parser.expression bound' depth' us = Parser.expression bound depth us ∧
      Parser.statement bound' depth' us = Parser.statement bound depth us
  statements : LoopEnds .eof (line (Parser.statement bound depth)) bound us
  block : LoopEnds .rightBrace (line (Parser.statement bound depth)) bound us
  arguments : LoopEnds .rightParen (argument (Parser.expression bound depth)) bound us
  parameters : LoopEnds .rightParen parameter bound us
  operators : ∀ level < 3, ∀ left, ∃ m ≤ us.length,
    OperatorRounds (operator? level) (operandOf bound (Parser.expression bound depth) level) m left
      us (chainFrom (operator? level) (operandOf bound (Parser.expression bound depth) level) bound
        left us)

theorem tracks_operandOf {bound depth level : Nat} (hlevel : level < 3) (hdepth : depth ≤ bound) :
    Tracks depth 1 (operandOf bound (expression bound depth) level)
      (.operand :: operatorsFrom (level + 1)) := by
  have hinner := tracks_expression bound depth hdepth
  have hsigned : Tracks depth 1 (signed (primary bound (expression bound depth)))
      (.operand :: operatorsFrom 3) :=
    tracks_signed fun t ts hended hlength hsign =>
      tracksAt_primary hended (hinner.mono (by omega) (Nat.le_refl _)) (by omega) hsign
  have hfactors := tracks_chain 2 (by omega) hdepth hsigned
  match level with
  | 0 => exact tracks_chain 1 (by omega) hdepth hfactors
  | 1 => exact hfactors
  | 2 => exact hsigned

/-- Where a token that ends the input is still to come, the parser goes forward. -/
theorem progress {bound depth : Nat} {us : List Token} (hended : Ended us)
    (hlength : us.length ≤ depth) (hdepth : depth ≤ bound) : Progress bound depth us := by
  have hbound := Nat.le_trans hlength hdepth
  have hexpression := tracks_expression bound depth hdepth
  have hstatement := tracks_statement bound depth hdepth
  exact {
    expression := advance_of_tracks (keeps_expression bound depth) hexpression hended hlength
    statement := advance_of_tracks (keeps_statement bound depth) hstatement hended hlength
    bounds := fun _ _ hbound' hdepth' => bounds_irrelevant hended hbound hlength hbound' hdepth'
    statements := rounds_manyUntil (tracks_line hstatement) bound hended hlength hbound
    block := rounds_manyUntil (tracks_line hstatement) bound hended hlength hbound
    arguments := rounds_manyUntil (tracks_argument hexpression) bound hended hlength hbound
    parameters := rounds_manyUntil tracks_parameter bound hended (Nat.le_refl _) hbound
    operators := fun _ hlevel left =>
      operatorRounds_chainFrom (tracks_operandOf hlevel hdepth) bound left hended hlength hbound }

/-- A program is read from the first token on, and up to the end of the input. -/
theorem advance_program (ts : List Token) :
    Advance 0 (closed ts) (program ((closed ts).length + 1) (closed ts)) := by
  have hended := ended_closed ts
  cases hrun : program ((closed ts).length + 1) (closed ts) with
  | ok r =>
    obtain ⟨p, rest⟩ := r
    obtain ⟨taken, hclosed, hkept, -⟩ := takes_program _ _ p rest trivial hrun
    rw [hclosed] at hended
    obtain ⟨t, after, rfl⟩ := (hended.of_append hkept).exists_cons
    exact .answered hclosed hkept (Nat.zero_le _)
  | error e =>
    have hparse : parse ts = .error e := by
      show Except.map _ (program ((closed ts).length + 1) (closed ts)) = _
      rw [hrun]
      rfl
    have hfed := feedAll_of_parse ts
    rw [hparse] at hfed
    have hdone : ∀ before last fs, last.kind = .eof → before ++ [last] <+: closed ts →
        feedAll startFrames (before ++ [last]) = .ok fs → fs = [] := by
      intro before last fs hlast _ hfs
      have hfirst := feedAll_of_parse (before ++ [last])
      rw [closed_append_eof before hlast, hfs] at hfirst
      cases hresult : parse (before ++ [last]) with
      | ok p =>
        rw [hresult] at hfirst
        exact Except.ok.inj hfirst
      | error e' =>
        rw [hresult] at hfirst
        exact nomatch hfirst
    obtain ⟨taken, t, after, hus, hkept, hnames⟩ := exists_stuck hended hdone hfed
    exact .failed hus hkept hnames

theorem getLast?_closed (ts : List Token) :
    ∃ last, (closed ts).getLast? = some last ∧ last.kind = .eof := by
  unfold closed
  split
  · exact ⟨emptyEnd, rfl, rfl⟩
  · next last hlast =>
    split
    · next heof => exact ⟨last, hlast, heof⟩
    · exact ⟨_, List.getLast?_concat, rfl⟩

/-- At the place of a token or behind it, there is an end of the input. -/
theorem ended_of_suffix {ts us : List Token} (h : us <:+ closed ts) (hne : us ≠ []) : Ended us := by
  obtain ⟨before, hbefore⟩ := h
  obtain ⟨last, hlast, heof⟩ := getLast?_closed ts
  rw [← hbefore, List.getLast?_append_of_ne_nil before hne] at hlast
  exact ⟨last, List.mem_of_getLast? hlast, heof⟩

end Parser

/-- The parser goes forward from every place of a token, in every list of tokens, and its loops come to
an end, under all bounds that are no smaller than the number of tokens left, as those of a parse are.
Nothing behind an end of the input makes a difference to what the list is parsed as. -/
theorem parser_progress (ts : List Token) :
    (∀ us bound depth, us <:+ Parser.closed ts → us ≠ [] → us.length ≤ depth → depth ≤ bound →
      Parser.Progress bound depth us) ∧
    Parser.Advance 0 (Parser.closed ts)
      (Parser.program ((Parser.closed ts).length + 1) (Parser.closed ts)) ∧
    ∀ last rest, last.kind = .eof → parse (ts ++ last :: rest) = parse (ts ++ [last]) :=
  ⟨fun _ _ _ hsuffix hne hlength hdepth =>
      Parser.progress (Parser.ended_of_suffix hsuffix hne) hlength hdepth,
    Parser.advance_program ts, fun _ rest hlast => Parser.parse_append_eof ts hlast rest⟩

/-- A call that the end of the input comes in, with an argument behind that, and the place of its
first argument. -/
theorem parser_progress_of_open_call :
    let ts : List Token := [⟨.identifier, "f", ⟨1, 1⟩⟩, ⟨.leftParen, "(", ⟨1, 2⟩⟩,
      ⟨.identifier, "x", ⟨1, 3⟩⟩, ⟨.eof, "", ⟨1, 4⟩⟩, ⟨.number, "1", ⟨1, 5⟩⟩]
    let us := ts.drop 2 ++ [⟨.eof, "", ⟨1, 6⟩⟩]
    let last : Token := ⟨.eof, "", ⟨1, 6⟩⟩
    let rest : List Token := [⟨.rightParen, ")", ⟨1, 7⟩⟩]
    (us <:+ Parser.closed ts ∧ us ≠ [] ∧ us.length ≤ 5 ∧ 5 ≤ 7 ∧ Parser.Progress 7 5 us) ∧
      last.kind = .eof ∧ parse (ts ++ last :: rest) = parse (ts ++ [last]) ∧
      parse (ts ++ [last]) = .error (.unexpectedToken .expression .eof ⟨1, 4⟩) := by
  intro ts us last rest
  have hsuffix : us <:+ Parser.closed ts := by decide
  obtain ⟨hplaces, -, hend⟩ := parser_progress ts
  exact ⟨⟨hsuffix, by decide, by decide, by decide,
      hplaces us 7 5 hsuffix (by decide) (by decide) (by decide)⟩,
    rfl, hend last rest rfl, by cbv⟩

end StackScript
