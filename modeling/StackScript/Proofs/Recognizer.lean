import StackScript.Proofs.RoundTrip

/-!
The parser as a machine with a stack.

The productions call each other; what they have still to read at a token is a stack of frames. Here
is a machine that has only that stack. For each token its uppermost frame takes the token and leaves
other frames behind, or passes it on to the frame below, or gets stuck with an error. Productions
keep to the machine: it comes to the frames below exactly where a production ends, and gets stuck
exactly where a production fails, with the same error.

* `Frame`, `Frame.on`: what is still to be read, and what a token does to it;
* `feed`, `feedAll`: the machine;
* `TracksAt`, `Tracks`: a production keeps to the machine, with rules for productions put together;
* `Repeats`, `Tracks.closed`: lists of items up to a closing token.
-/

namespace StackScript

namespace Parser

/-! ### The machine -/

/-- A part of the input that is still to be read. -/
inductive Frame where
  /-- One token of a kind. -/
  | expect (kind : TokenKind)
  /-- One token of a kind, or nothing. -/
  | optional (kind : TokenKind)
  | newlines
  /-- A primary expression with the signs before it. -/
  | operand
  /-- Operators of one level with their right operands. -/
  | operators (level : Nat)
  /-- What may follow a name in an expression: the arguments of a call. -/
  | afterName
  /-- What may follow a name that a statement begins with: an equality sign or arguments. -/
  | target
  /-- Arguments up to the closing parenthesis. -/
  | arguments
  /-- Parameters up to the closing parenthesis. -/
  | parameters
  | statement
  /-- Statements up to the closing brace. -/
  | lines
  /-- Statements up to the end of the input. -/
  | program
  | elsePart
  /-- The value of a return, or nothing. -/
  | returned

/-- The operators that may follow an operand, from a level on. -/
def operatorsFrom : (level : Nat) → List Frame
  | 0 => [.operators 2, .operators 1, .operators 0]
  | 1 => [.operators 2, .operators 1]
  | 2 => [.operators 2]
  | _ => []

/-- The frames of an expression. -/
def valueFrames : List Frame :=
  .operand :: operatorsFrom 0

/-- The frames of a condition in parentheses. -/
def conditionFrames : List Frame :=
  .expect .leftParen :: valueFrames ++ [.expect .rightParen]

/-- The frames of statements in braces. -/
def blockFrames : List Frame :=
  [.expect .leftBrace, .newlines, .lines]

/-- The first token of an operand. -/
def startOperand (t : Token) : Except SyntaxError (List Frame) :=
  match t.kind with
  | .number =>
    match readNumber? t.lexeme with
    | some _ => .ok []
    | none => .error (.invalidNumber t.lexeme t.position)
  | .string => .ok []
  | .identifier => .ok [.afterName]
  | .leftParen => .ok (valueFrames ++ [.expect .rightParen])
  | .plus => .ok [.operand]
  | .minus => .ok [.operand]
  | _ => .error (.unexpectedToken .expression t.kind t.position)

/-- The first token of an expression that ends in some way. -/
def startValue (ending : List Frame) (t : Token) : Except SyntaxError (List Frame) :=
  (startOperand t).map (· ++ (operatorsFrom 0 ++ ending))

/-- The first token of a statement, or a line feed before it. -/
def startStatement (t : Token) : Except SyntaxError (List Frame) :=
  match t.kind with
  | .newline => .ok [.statement]
  | .letWord =>
    .ok (.expect .identifier :: .expect .assign :: valueFrames ++ [.optional .semicolon])
  | .funcWord => .ok (.expect .identifier :: .expect .leftParen :: .parameters :: blockFrames)
  | .ifWord => .ok (conditionFrames ++ blockFrames ++ [.elsePart])
  | .whileWord => .ok (conditionFrames ++ blockFrames)
  | .returnWord => .ok [.returned, .optional .semicolon]
  | .printWord => .ok (conditionFrames ++ [.optional .semicolon])
  | .identifier => .ok (.target :: operatorsFrom 0 ++ [.optional .semicolon])
  | _ => startValue [.optional .semicolon] t

/-- What a token does to a frame: the frame passes it on, or takes it and leaves frames behind, or
gets stuck. -/
def Frame.on (f : Frame) (t : Token) : Option (Except SyntaxError (List Frame)) :=
  match f with
  | expect kind =>
    some (if t.kind = kind then .ok []
      else .error (.unexpectedToken (.token kind) t.kind t.position))
  | optional kind => if t.kind = kind then some (.ok []) else none
  | newlines => if t.kind = .newline then some (.ok [newlines]) else none
  | operand => some (startOperand t)
  | operators level =>
    if (operator? level t.kind).isSome then some (.ok (operand :: operatorsFrom level)) else none
  | afterName => if t.kind = .leftParen then some (.ok [arguments]) else none
  | target =>
    if t.kind = .assign then some (.ok [operand])
    else if t.kind = .leftParen then some (.ok [arguments]) else none
  | arguments =>
    some (if t.kind = .rightParen then .ok [] else startValue [.optional .comma, arguments] t)
  | parameters =>
    some (if t.kind = .rightParen then .ok []
      else if t.kind = .identifier then .ok [.optional .comma, parameters]
      else .error (.unexpectedToken (.token .identifier) t.kind t.position))
  | statement => some (startStatement t)
  | lines =>
    some (if t.kind = .rightBrace then .ok [] else (startStatement t).map (· ++ [newlines, lines]))
  | program =>
    some (if t.kind = .eof then .ok [] else (startStatement t).map (· ++ [newlines, program]))
  | elsePart => if t.kind = .elseWord then some (.ok blockFrames) else none
  | returned => if endsReturn t.kind then none else some (startValue [] t)

/-- What a token does to a stack. Where nothing is left to be read, all tokens are ignored. -/
def feed : List Frame → Token → Except SyntaxError (List Frame)
  | [], _ => .ok []
  | f :: stack, t =>
    match f.on t with
    | none => feed stack t
    | some taken => taken.map (· ++ stack)

/-- What tokens do to a stack. -/
def feedAll (stack : List Frame) (ts : List Token) : Except SyntaxError (List Frame) :=
  ts.foldlM feed stack

theorem feedAll_cons (stack : List Frame) (t : Token) (ts : List Token) :
    feedAll stack (t :: ts) = feed stack t >>= fun stack => feedAll stack ts :=
  List.foldlM_cons

theorem feedAll_append (stack : List Frame) (ts us : List Token) :
    feedAll stack (ts ++ us) = feedAll stack ts >>= fun stack => feedAll stack us :=
  List.foldlM_append

theorem feedAll_nil (ts : List Token) : feedAll [] ts = .ok [] := by
  induction ts with
  | nil => rfl
  | cons t ts ih =>
    rw [feedAll_cons]
    exact ih

section Step

variable {f : Frame} {fs stack : List Frame} {t : Token} {ts : List Token} {e : SyntaxError}

theorem feedAll_take (h : f.on t = some (.ok fs)) :
    feedAll (f :: stack) (t :: ts) = feedAll (fs ++ stack) ts := by
  rw [feedAll_cons, feed, h]
  rfl

theorem feedAll_pass (h : f.on t = none) :
    feedAll (f :: stack) (t :: ts) = feedAll stack (t :: ts) := by
  rw [feedAll_cons, feedAll_cons, feed, h]

theorem feedAll_stuck (h : f.on t = some (.error e)) :
    feedAll (f :: stack) (t :: ts) = .error e := by
  rw [feedAll_cons, feed, h]
  rfl

end Step

/-! ### Productions and the machine -/

/-- There is an end-of-input token. -/
def Ended (ts : List Token) : Prop :=
  ∃ t ∈ ts, t.kind = .eof

theorem Ended.tail {t : Token} {ts : List Token} {kind : TokenKind} (h : Ended (t :: ts))
    (ht : t.kind = kind) (hkind : kind ≠ .eof) : Ended ts := by
  obtain ⟨e, he, heof⟩ := h
  rcases List.mem_cons.mp he with rfl | he
  · exact absurd (ht.symm.trans heof) hkind
  · exact ⟨e, he, heof⟩

theorem Ended.exists_cons {ts : List Token} (h : Ended ts) : ∃ t us, ts = t :: us := by
  obtain ⟨e, he, -⟩ := h
  exact List.exists_cons_of_ne_nil (List.ne_nil_of_mem he)

/-- How the result of a production and the machine agree. If the production has ended, it has taken
at least `k` of the tokens `ts` and not the end of the input, and the machine has come to the frames
below. If it has failed, the machine got stuck with the same error. -/
inductive Agrees {α : Type} (k : Nat) (ts : List Token) (stack : List Frame)
    (fed : Except SyntaxError (List Frame)) : Except SyntaxError (α × List Token) → Prop where
  | ended {a : α} {rest : List Token} (hrest : Ended rest) (hlength : rest.length + k ≤ ts.length)
    (hfed : fed = feedAll stack rest) : Agrees k ts stack fed (.ok (a, rest))
  | failed {e : SyntaxError} (hfed : fed = .error e) : Agrees k ts stack fed (.error e)

theorem Agrees.mono {α : Type} {k k' : Nat} {ts ts' : List Token} {stack : List Frame}
    {fed : Except SyntaxError (List Frame)} {r : Except SyntaxError (α × List Token)}
    (h : Agrees k ts stack fed r) (hle : ts.length + k' ≤ ts'.length + k) :
    Agrees k' ts' stack fed r := by
  cases h with
  | ended hrest hlength hfed => exact .ended hrest (by omega) hfed
  | failed hfed => exact .failed hfed

/-- On these tokens a production and the machine go the same way, whatever the frames below are. -/
def TracksAt {α : Type} (x : Production α) (k : Nat) (fs : List Frame) (ts : List Token) : Prop :=
  ∀ stack, Agrees k ts stack (feedAll (fs ++ stack) ts) (x ts)

/-- A production and the machine go the same way on all inputs of a length up to `n`. -/
def Tracks {α : Type} (n k : Nat) (x : Production α) (fs : List Frame) : Prop :=
  ∀ ts, Ended ts → ts.length ≤ n → TracksAt x k fs ts

section Rules

variable {α β : Type} {x : Production α} {y : Production β} {f : α → Production β}
  {fs gs : List Frame} {frame : Frame} {n n' k k' l : Nat} {t : Token} {ts : List Token}

theorem TracksAt.bind (hx : TracksAt x k fs ts)
    (hf : ∀ a rest, Ended rest → rest.length + k ≤ ts.length → TracksAt (f a) l gs rest) :
    TracksAt (x >>= f) (k + l) (fs ++ gs) ts := by
  intro stack
  have hfirst := hx (gs ++ stack)
  rw [List.append_assoc]
  show Agrees _ _ _ _ (x ts >>= fun r => f r.1 r.2)
  generalize x ts = r at hfirst ⊢
  cases hfirst with
  | failed hfed => exact .failed hfed
  | @ended a rest hrest hlength hfed =>
    -- the frames of the second production are now the uppermost ones
    have hsecond := hf a rest hrest hlength stack
    rw [← hfed] at hsecond
    exact hsecond.mono (by omega)

theorem TracksAt.mono (h : TracksAt x k fs ts) (hk : k' ≤ k) : TracksAt x k' fs ts :=
  fun stack => (h stack).mono (by omega)

theorem TracksAt.congr {z : Production α} (hx : x ts = z ts) (hz : TracksAt z k fs ts) :
    TracksAt x k fs ts := by
  intro stack
  rw [hx]
  exact hz stack

/-- The frames may be others that do the same. -/
theorem TracksAt.frames (hframes : ∀ stack, feedAll (gs ++ stack) ts = feedAll (fs ++ stack) ts)
    (hx : TracksAt x k fs ts) : TracksAt x k gs ts := by
  intro stack
  rw [hframes stack]
  exact hx stack

/-- The frame takes the token, and what is left of the production goes on. -/
theorem TracksAt.take {z : Production α} (hframe : frame.on t = some (.ok gs))
    (hx : x (t :: ts) = z ts) (hz : TracksAt z k (gs ++ fs) ts) :
    TracksAt x (k + 1) (frame :: fs) (t :: ts) := by
  intro stack
  have hrest := hz stack
  rw [List.append_assoc] at hrest
  rw [hx, List.cons_append, feedAll_take hframe]
  exact hrest.mono (by rw [List.length_cons]; omega)

theorem TracksAt.pass (hframe : frame.on t = none) (hx : TracksAt x k fs (t :: ts)) :
    TracksAt x k (frame :: fs) (t :: ts) := by
  intro stack
  rw [List.cons_append, feedAll_pass hframe]
  exact hx stack

theorem TracksAt.stuck {e : SyntaxError} (hframe : frame.on t = some (.error e))
    (hx : x (t :: ts) = .error e) : TracksAt x k (frame :: fs) (t :: ts) := by
  intro stack
  rw [hx]
  exact .failed (feedAll_stuck hframe)

theorem TracksAt.pure (a : α) (h : Ended ts) : TracksAt (Pure.pure a : Production α) 0 [] ts :=
  fun _ => .ended h (Nat.le_refl _) rfl

theorem TracksAt.bindPure (hx : TracksAt x k fs ts) (g : α → β) :
    TracksAt (x >>= fun a => Pure.pure (g a)) k fs ts := by
  have := hx.bind fun a rest hrest _ => TracksAt.pure (g a) hrest
  rwa [List.append_nil] at this

theorem Tracks.mono (h : Tracks n k x fs) (hn : n' ≤ n) (hk : k' ≤ k) : Tracks n' k' x fs :=
  fun ts hended hlength => (h ts hended (Nat.le_trans hlength hn)).mono hk

theorem Tracks.pure (a : α) : Tracks n 0 (Pure.pure a : Production α) [] :=
  fun _ hended _ => .pure a hended

theorem Tracks.bind (hx : Tracks n k x fs) (hf : ∀ a, Tracks (n - k) l (f a) gs) :
    Tracks n (k + l) (x >>= f) (fs ++ gs) :=
  fun ts hended hlength => (hx ts hended hlength).bind fun a rest hrest hle =>
    hf a rest hrest (by omega)

theorem Tracks.bindPure (hx : Tracks n k x fs) (g : α → β) :
    Tracks n k (x >>= fun a => Pure.pure (g a)) fs :=
  fun ts hended hlength => (hx ts hended hlength).bindPure g

theorem Tracks.map (hx : Tracks n k x fs) (g : α → β) : Tracks n k (g <$> x) fs :=
  hx.bindPure g

/-- Productions that look at the next token first. -/
theorem Tracks.ofCons (h : ∀ t ts, Ended (t :: ts) → ts.length + 1 ≤ n →
    TracksAt x k fs (t :: ts)) : Tracks n k x fs := by
  intro ts hended hlength
  obtain ⟨t, us, rfl⟩ := hended.exists_cons
  exact h t us hended hlength

theorem tracks_expect (kind : TokenKind) (hkind : kind ≠ .eof) :
    Tracks n 1 (expect kind) [.expect kind] := by
  refine .ofCons fun t ts hended _ => ?_
  by_cases ht : t.kind = kind
  · have htail := hended.tail ht hkind
    have hframe : (Frame.expect kind).on t = some (.ok []) := congrArg some (if_pos ht)
    exact .take (z := Pure.pure t) hframe (expect_cons ht ts) (.pure t htail)
  · have hframe : (Frame.expect kind).on t
        = some (.error (.unexpectedToken (.token kind) t.kind t.position)) :=
      congrArg some (if_neg ht)
    refine .stuck hframe ?_
    show (if t.kind = kind then advance else unexpected (.token kind)) (t :: ts) = _
    rw [if_neg ht]
    rfl

theorem tracks_mark (n : Nat) (kind : TokenKind) (hkind : kind ≠ .eof) :
    Tracks n 1 (discard (expect kind)) [.expect kind] :=
  (tracks_expect kind hkind).map _

theorem tracks_skip (kind : TokenKind) (hkind : kind ≠ .eof) :
    Tracks n 0 (skip kind) [.optional kind] := by
  refine .ofCons fun t ts hended _ => ?_
  have hskip : skip kind (t :: ts)
      = (if t.kind = kind then discard advance else Pure.pure ()) (t :: ts) := rfl
  by_cases ht : t.kind = kind
  · have htail := hended.tail ht hkind
    have hframe : (Frame.optional kind).on t = some (.ok []) := if_pos ht
    rw [if_pos ht] at hskip
    exact (TracksAt.take (z := Pure.pure ()) hframe hskip (.pure () htail)).mono
      (Nat.zero_le _)
  · have hframe : (Frame.optional kind).on t = none := if_neg ht
    rw [if_neg ht] at hskip
    exact .pass hframe (.congr hskip (.pure () hended))

/-- The frame for line feeds, or for a statement, drops those that stand next. -/
theorem feedAll_dropNewlines {stack : List Frame}
    (h : ∀ t ts, t.kind = .newline → feedAll stack (t :: ts) = feedAll stack ts)
    (ts : List Token) : feedAll stack ts = feedAll stack (ts.dropWhile (·.kind = .newline)) := by
  induction ts with
  | nil => rfl
  | cons t ts ih =>
    by_cases ht : t.kind = .newline
    · rw [h t ts ht, ih, List.dropWhile_cons_of_pos (by simpa using ht)]
    · rw [List.dropWhile_cons_of_neg (by simpa using ht)]

theorem Ended.dropNewlines {ts : List Token} (h : Ended ts) :
    Ended (ts.dropWhile (·.kind = .newline)) := by
  induction ts with
  | nil => exact h
  | cons t ts ih =>
    by_cases ht : t.kind = .newline
    · rw [List.dropWhile_cons_of_pos (by simpa using ht)]
      exact ih (h.tail ht (by decide))
    · rwa [List.dropWhile_cons_of_neg (by simpa using ht)]

theorem length_dropNewlines_le (ts : List Token) :
    (ts.dropWhile (·.kind = .newline)).length ≤ ts.length :=
  (List.dropWhile_sublist _).length_le

theorem head_dropNewlines_ne {ts : List Token} (h : Ended ts) :
    (next (ts.dropWhile (·.kind = .newline))).kind ≠ .newline := by
  obtain ⟨t, us, hus⟩ := h.dropNewlines.exists_cons
  have := List.head?_dropWhile_not (fun t : Token => decide (t.kind = .newline)) ts
  rw [hus] at this ⊢
  simpa [next] using this

theorem tracks_skipNewlines : Tracks n 0 skipNewlines [.newlines] := by
  intro ts hended _ stack
  refine .ended hended.dropNewlines (length_dropNewlines_le ts) ?_
  have hdrop : feedAll (.newlines :: stack) ts
      = feedAll (.newlines :: stack) (ts.dropWhile (·.kind = .newline)) := by
    refine feedAll_dropNewlines (fun t ts ht => ?_) ts
    have hframe : Frame.newlines.on t = some (.ok [.newlines]) := if_pos ht
    exact feedAll_take hframe
  have hne := head_dropNewlines_ne hended
  obtain ⟨t, us, hus⟩ := hended.dropNewlines.exists_cons
  rw [hus] at hne
  have hframe : Frame.newlines.on t = none := if_neg hne
  rw [List.singleton_append, hdrop, hus, feedAll_pass hframe]

end Rules

/-! ### Lists -/

section Lists

variable {α β : Type} {close : TokenKind} {item : Production α} {frame : Frame} {fs gs : List Frame}
  {n k bound : Nat}

/-- A frame stands for items up to a closing token. -/
structure Repeats (frame : Frame) (close : TokenKind) (fs : List Frame) : Prop where
  closes : ∀ t, t.kind = close → frame.on t = some (.ok [])
  goesOn : ∀ t stack, t.kind ≠ close → feed (frame :: stack) t = feed (fs ++ frame :: stack) t

theorem manyUntil_succ (close : TokenKind) (item : Production α) (bound : Nat) (ts : List Token) :
    manyUntil close item (bound + 1) ts
      = if (next ts).kind = close then .ok ([], ts)
        else item ts >>= fun r => manyUntil close item bound r.2 >>= fun q =>
          .ok (r.1 :: q.1, q.2) := by
  show (if (next ts).kind = close then pure [] else do
    let a ← item
    let as ← manyUntil close item bound
    pure (a :: as) : Production (List α)) ts = _
  split <;> rfl

/-- The frame stays below the items, which are read until the closing token is next. -/
theorem manyUntil_agrees (h : Repeats frame close fs) (hitem : Tracks n 1 item fs)
    (stack : List Frame) :
    ∀ (bound : Nat) (ts : List Token), Ended ts → ts.length ≤ n → ts.length ≤ bound →
      Agrees 0 ts (frame :: stack) (feedAll (frame :: stack) ts) (manyUntil close item bound ts) ∧
      ∀ as rest, manyUntil close item bound ts = .ok (as, rest) → (next rest).kind = close := by
  intro bound
  induction bound with
  | zero =>
    intro ts hended _ hbound
    obtain ⟨t, us, rfl⟩ := hended.exists_cons
    exact absurd hbound (by simp)
  | succ bound ih =>
    intro ts hended hn hbound
    obtain ⟨t, us, rfl⟩ := hended.exists_cons
    have hnext : next (t :: us) = t := rfl
    rw [manyUntil_succ, hnext]
    by_cases ht : t.kind = close
    · rw [if_pos ht]
      refine ⟨.ended hended (Nat.le_refl _) rfl, ?_⟩
      rintro as rest ⟨⟩
      exact ht
    · -- the frame takes the token as the frames of an item would
      have hgoes : feedAll (frame :: stack) (t :: us)
          = feedAll (fs ++ frame :: stack) (t :: us) := by
        rw [feedAll_cons, feedAll_cons, h.goesOn t stack ht]
      have hfirst := hitem (t :: us) hended hn (frame :: stack)
      rw [if_neg ht, hgoes]
      generalize item (t :: us) = r at hfirst ⊢
      cases hfirst with
      | failed hfed => exact ⟨.failed hfed, fun _ _ hr => by cases hr⟩
      | @ended a rest hrest hlength hfed =>
        -- an item takes at least one token
        obtain ⟨hothers, hclose⟩ := ih rest hrest (by omega) (by omega)
        rw [hfed]
        show Agrees _ _ _ _ (manyUntil close item bound rest >>= fun q => .ok (a :: q.1, q.2)) ∧
          ∀ as rest', (manyUntil close item bound rest >>= fun q => .ok (a :: q.1, q.2))
            = .ok (as, rest') → _
        generalize manyUntil close item bound rest = q at hothers hclose ⊢
        cases hothers with
        | failed hfed' => exact ⟨.failed hfed', fun _ _ hq => by cases hq⟩
        | @ended as rest' hrest' hlength' hfed' =>
          refine ⟨.ended hrest' (Nat.le_trans hlength' (by omega)) hfed', ?_⟩
          rintro - - ⟨⟩
          exact hclose as rest' rfl

/-- A list with its closing token. -/
theorem Tracks.closed (h : Repeats frame close fs) (hclose : close ≠ .eof)
    (hitem : Tracks n 1 item fs) (hbound : n ≤ bound) {g : List α → Production β}
    (hg : ∀ as, Tracks (n - 1) k (g as) gs) :
    Tracks n (k + 1) (do let as ← manyUntil close item bound; discard advance; g as)
      (frame :: gs) := by
  intro ts hended hn stack
  obtain ⟨hlist, hnext⟩ := manyUntil_agrees h hitem (gs ++ stack) bound ts hended hn (by omega)
  show Agrees _ _ _ _ (manyUntil close item bound ts >>= fun r =>
    (do discard advance; g r.1 : Production β) r.2)
  generalize manyUntil close item bound ts = r at hlist hnext ⊢
  cases hlist with
  | failed hfed => exact .failed hfed
  | @ended as rest hrest hlength hfed =>
    have hkind := hnext as rest rfl
    obtain ⟨t, us, rfl⟩ := hrest.exists_cons
    rw [List.length_cons] at hlength
    -- the closing token is taken from the frame
    have hgo := hg as us (hrest.tail hkind hclose) (by omega) stack
    rw [List.cons_append, hfed, feedAll_take (h.closes t hkind)]
    exact hgo.mono (by omega)

end Lists

end Parser

end StackScript
