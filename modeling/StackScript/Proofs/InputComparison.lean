import StackScript.Proofs.RecognizedPrograms

/-!
The same tokens elsewhere, with another ending.

A production does not depend on where its tokens stand, nor on what follows the end of the input. If
the second of two inputs has the tokens of the first in other places, and goes on behind them with the
end of the input or with a line feed, then each production reads the same from both. It stops in both
before the same token, or fails in both with an error about the same token. Where the second input
goes on with a line feed, a production may fail in the first alone, because that has ended.

* `Token.move`, `SyntaxError.move`: tokens and errors in other places;
* `Alike`, `AlikeAfter`: two inputs with the same tokens, also where line feeds have been dropped;
* `Compares`: productions that read the same, with rules for productions put together;
* `compares_expression`, `compares_statement`: expressions and statements, under any bounds that are
  large enough for the first input.
-/

namespace StackScript

/-- The token in another place. -/
def Token.move (f : Position → Position) (t : Token) : Token :=
  { t with position := f t.position }

@[simp] theorem Token.kind_move (f : Position → Position) (t : Token) : (t.move f).kind = t.kind :=
  rfl

@[simp] theorem Token.lexeme_move (f : Position → Position) (t : Token) :
    (t.move f).lexeme = t.lexeme := rfl

/-- The error about a token in another place. -/
def SyntaxError.move (f : Position → Position) : SyntaxError → SyntaxError
  | unexpectedToken expected found p => unexpectedToken expected found (f p)
  | invalidNumber lexeme p => invalidNumber lexeme (f p)

namespace Parser

/-- Two inputs: the first ends with the token `last`, the second has the same tokens before that in
other places, and then `ending`. -/
inductive Alike (f : Position → Position) (last : Token) (ending : List Token) :
    List Token → List Token → Prop where
  | ends : Alike f last ending [last] ending
  | cons {t : Token} {ts us : List Token} (ht : t.kind ≠ .eof) (h : Alike f last ending ts us) :
    Alike f last ending (t :: ts) (t.move f :: us)

/-- The same behind line feeds that have been dropped. If that were all tokens before the end, those at
the front of `ending` have been dropped too. -/
def AlikeAfter (f : Position → Position) (last : Token) (ending : List Token)
    (ts us : List Token) : Prop :=
  Alike f last ending ts us ∨
    (next ending).kind = .newline ∧ ts = [last] ∧ us = ending.dropWhile (·.kind = .newline)

/-- The first input has ended where the other one ends or has a line feed. -/
structure Ending (f : Position → Position) (last : Token) (ending : List Token) : Prop where
  eof : last.kind = .eof
  goesOn : (∃ more, ending = last.move f :: more) ∨ (next ending).kind = .newline

/-- How two results of one production compare. It has read the same from both inputs, and at least `k`
tokens of them, or it has failed in both, or in the first alone if only that has ended. -/
inductive Outcome {α : Type} (f : Position → Position) (ending : List Token)
    (S : List Token → List Token → Prop) (k : Nat) (ts : List Token) :
    Except SyntaxError (α × List Token) → Except SyntaxError (α × List Token) → Prop where
  | value {a : α} {rest rest' : List Token} (hrest : S rest rest')
    (hlength : rest.length + k ≤ ts.length) :
    Outcome f ending S k ts (.ok (a, rest)) (.ok (a, rest'))
  | failed {e : SyntaxError} {r : Except SyntaxError (α × List Token)}
    (h : r = .error (e.move f) ∨ (next ending).kind = .newline) :
    Outcome f ending S k ts (.error e) r

section Comparison

variable {α β : Type} {f : Position → Position} {last : Token} {ending : List Token}
  {S S' : List Token → List Token → Prop} {k k' l n : Nat} {t : Token} {ts us : List Token}

theorem Outcome.mono {ts' : List Token} {r r' : Except SyntaxError (α × List Token)}
    (h : Outcome f ending S k ts r r') (hS : ∀ rest rest', S rest rest' → S' rest rest')
    (hle : ts.length + k' ≤ ts'.length + k) : Outcome f ending S' k' ts' r r' := by
  cases h with
  | value hrest hlength => exact .value (hS _ _ hrest) (by omega)
  | failed h => exact .failed h

theorem Outcome.bind {r r' : Except SyntaxError (α × List Token)}
    {g w : α → Production β} (h : Outcome f ending S k ts r r')
    (hg : ∀ a rest rest', S rest rest' → rest.length + k ≤ ts.length →
      Outcome f ending S' l rest (g a rest) (w a rest')) :
    Outcome f ending S' (k + l) ts (r >>= fun q => g q.1 q.2) (r' >>= fun q => w q.1 q.2) := by
  cases h with
  | value hrest hlength => exact (hg _ _ _ hrest hlength).mono (fun _ _ h => h) (by omega)
  | failed h =>
    refine .failed (h.imp_left ?_)
    rintro rfl
    rfl

theorem Alike.ne_nil (h : Alike f last ending ts us) : ts ≠ [] := by
  cases h <;> simp

/-- The next tokens of both inputs are of one kind, unless the first one has ended. -/
theorem Alike.kind (hend : Ending f last ending) (h : Alike f last ending ts us) :
    (next us).kind = (next ts).kind ∨ (next ts).kind = .eof ∧ (next us).kind = .newline := by
  cases h with
  | cons ht h => exact .inl rfl
  | ends =>
    obtain ⟨more, rfl⟩ | hnewline := hend.goesOn
    · exact .inl rfl
    · exact .inr ⟨hend.eof, hnewline⟩

theorem Alike.kind_iff (hend : Ending f last ending) (h : Alike f last ending ts us)
    {kind : TokenKind} (heof : kind ≠ .eof) (hnewline : kind ≠ .newline) :
    (next us).kind = kind ↔ (next ts).kind = kind := by
  obtain hsame | ⟨hts, hus⟩ := h.kind hend
  · rw [hsame]
  · rw [hts, hus]
    exact ⟨fun h => absurd h.symm hnewline, fun h => absurd h.symm heof⟩

/-- What is not expected in the first input is not expected in the second. -/
theorem Outcome.unexpected (hend : Ending f last ending) (h : Alike f last ending ts us)
    (expected : Expected) :
    Outcome f ending S k ts (Parser.unexpected expected ts : Except SyntaxError (α × List Token))
      (Parser.unexpected expected us) := by
  cases h with
  | cons ht h => exact .failed (.inl rfl)
  | ends =>
    obtain ⟨more, rfl⟩ | hnewline := hend.goesOn
    · exact .failed (.inl rfl)
    · exact .failed (.inr hnewline)

/-- The production reads the same from all inputs whose first one has at most `n` tokens. -/
def Compares (f : Position → Position) (last : Token) (ending : List Token)
    (S : List Token → List Token → Prop) (n k : Nat) (x y : Production α) : Prop :=
  ∀ ts us, Alike f last ending ts us → ts.length ≤ n → Outcome f ending S k ts (x ts) (y us)

/-! ### Productions put together -/

section Rules

variable {x y : Production α} {g g' : α → Production β}

theorem Compares.mono {n' : Nat} (h : Compares f last ending S n k x y) (hn : n' ≤ n)
    (hk : k' ≤ k) : Compares f last ending S n' k' x y :=
  fun ts us halike hlength => (h ts us halike (by omega)).mono (fun _ _ h => h) (by omega)

theorem Compares.pure (a : α) :
    Compares f last ending (Alike f last ending) n 0 (Pure.pure a : Production α) (Pure.pure a) :=
  fun _ _ halike _ => .value halike (Nat.le_refl _)

theorem Compares.bind (hx : Compares f last ending (Alike f last ending) n k x y)
    (hg : ∀ a, Compares f last ending S (n - k) l (g a) (g' a)) :
    Compares f last ending S n (k + l) (x >>= g) (y >>= g') :=
  fun ts us halike hlength => (hx ts us halike hlength).bind fun a rest rest' hrest hle =>
    hg a rest rest' hrest (by omega)

theorem Compares.map {γ : Type} (hx : Compares f last ending S n k x y) (h : α → γ) :
    Compares f last ending S n k (x >>= fun a => Pure.pure (h a))
      (y >>= fun a => Pure.pure (h a)) :=
  fun ts us halike hlength =>
    (hx ts us halike hlength).bind (g := fun a => (Pure.pure (h a) : Production γ)) (l := 0)
      fun _ _ _ hrest _ => .value hrest (Nat.le_refl _)

/-- A production that takes a token, whatever it does then. -/
theorem Outcome.take {z w : Production α} (hx : x (t :: ts) = z ts)
    (hy : y (t.move f :: us) = w us) (h : Outcome f ending S k ts (z ts) (w us)) :
    Outcome f ending S (k + 1) (t :: ts) (x (t :: ts)) (y (t.move f :: us)) := by
  rw [hx, hy]
  exact h.mono (fun _ _ h => h) (by simp only [List.length_cons]; omega)

/-- What takes a token cannot read the end of the first input, so it does not matter what it makes of
the second one there. -/
theorem Outcome.ended {r r' r'' : Except SyntaxError (α × List Token)}
    (h : Outcome f ending S 1 [last] r r') (hS : ∀ rest rest', S rest rest' → rest ≠ [])
    (hnewline : (next ending).kind = .newline) : Outcome f ending S' k [last] r r'' := by
  cases h with
  | value hrest hle =>
    have := List.length_pos_iff.mpr (hS _ _ hrest)
    rw [List.length_singleton] at hle
    omega
  | failed _ => exact .failed (.inr hnewline)

/-- A production that takes a token compares also behind line feeds. -/
theorem Compares.after (hx : Compares f last ending S n 1 x y)
    (hS : ∀ rest rest', S rest rest' → rest ≠ []) (h : AlikeAfter f last ending ts us)
    (hlength : ts.length ≤ n) : Outcome f ending S 1 ts (x ts) (y us) := by
  obtain halike | ⟨hnewline, rfl, rfl⟩ := h
  · exact hx ts us halike hlength
  · exact (hx [last] ending .ends hlength).ended hS hnewline

variable (hend : Ending f last ending)

include hend

/-- Both inputs begin with the same token of a kind. -/
theorem Alike.exists_cons (h : Alike f last ending ts us) {kind : TokenKind} (heof : kind ≠ .eof)
    (hts : (next ts).kind = kind) :
    ∃ t rest rest', ts = t :: rest ∧ us = t.move f :: rest' ∧ t.kind = kind ∧
      Alike f last ending rest rest' := by
  cases h with
  | cons ht h => exact ⟨_, _, _, rfl, rfl, hts, h⟩
  | ends => exact absurd (hts.symm.trans hend.eof) heof

theorem Compares.expect {g g' : Token → Production β} {kind : TokenKind} (heof : kind ≠ .eof)
    (hnewline : kind ≠ .newline)
    (hg : ∀ t : Token, Compares f last ending S (n - 1) k (g t) (g' (t.move f))) :
    Compares f last ending S n (k + 1) (expect kind >>= g) (expect kind >>= g') := by
  intro ts us halike hlength
  by_cases hts : (next ts).kind = kind
  · obtain ⟨t, ts, us, rfl, rfl, hkind, halike⟩ := halike.exists_cons hend heof hts
    rw [List.length_cons] at hlength
    refine .take (z := g t) (w := g' (t.move f)) ?_ ?_ (hg t ts us halike (by omega))
    · show (Parser.expect kind (t :: ts) >>= fun r => g r.1 r.2) = _
      rw [expect_cons hkind]
      rfl
    · show (Parser.expect kind (t.move f :: us) >>= fun r => g' r.1 r.2) = _
      rw [expect_cons (t := t.move f) hkind]
      rfl
  · have hus := mt (halike.kind_iff hend heof hnewline).mp hts
    have hx : (Parser.expect kind >>= g) ts = (unexpected (.token kind) : Production β) ts := by
      show ((if (next ts).kind = kind then advance else unexpected (.token kind)) ts >>= _) = _
      rw [if_neg hts]
      rfl
    have hy : (Parser.expect kind >>= g') us = (unexpected (.token kind) : Production β) us := by
      show ((if (next us).kind = kind then advance else unexpected (.token kind)) us >>= _) = _
      rw [if_neg hus]
      rfl
    rw [hx, hy]
    exact .unexpected hend halike _

theorem Compares.mark {x y : Production β} {kind : TokenKind} (heof : kind ≠ .eof)
    (hnewline : kind ≠ .newline) (hx : Compares f last ending S (n - 1) k x y) :
    Compares f last ending S n (k + 1) (do discard (Parser.expect kind); x)
      (do discard (Parser.expect kind); y) := by
  rw [discard_bind, discard_bind]
  exact .expect hend heof hnewline fun _ => hx

/-- Productions that go one of two ways, by the kind of the next token. -/
theorem Compares.choice {x₁ x₂ y₁ y₂ : Production β} {kind : TokenKind} (heof : kind ≠ .eof)
    (hnewline : kind ≠ .newline)
    (hfirst : ∀ t ts us, Alike f last ending ts us → t.kind = kind → ts.length + 1 ≤ n →
      Outcome f ending S k (t :: ts) (x₁ (t :: ts)) (y₁ (t.move f :: us)))
    (hsecond : Compares f last ending S n k x₂ y₂) :
    Compares f last ending S n k (do if (← peek) = kind then x₁ else x₂)
      (do if (← peek) = kind then y₁ else y₂) := by
  intro ts us halike hlength
  show Outcome _ _ _ _ _ ((if (next ts).kind = kind then x₁ else x₂) ts)
    ((if (next us).kind = kind then y₁ else y₂) us)
  by_cases hts : (next ts).kind = kind
  · rw [if_pos hts, if_pos ((halike.kind_iff hend heof hnewline).mpr hts)]
    obtain ⟨t, ts, us, rfl, rfl, hkind, halike⟩ := halike.exists_cons hend heof hts
    exact hfirst t ts us halike hkind hlength
  · rw [if_neg hts, if_neg (mt (halike.kind_iff hend heof hnewline).mp hts)]
    exact hsecond ts us halike hlength

theorem compares_skip {kind : TokenKind} (heof : kind ≠ .eof) (hnewline : kind ≠ .newline) :
    Compares f last ending (Alike f last ending) n 0 (skip kind) (skip kind) :=
  Compares.choice hend heof hnewline
    (fun t ts us halike _ _ => .value halike (by simp)) (.pure ())

theorem Alike.dropNewlines (h : Alike f last ending ts us) : AlikeAfter f last ending
    (ts.dropWhile (·.kind = .newline)) (us.dropWhile (·.kind = .newline)) := by
  induction h with
  | ends =>
    have hlast : ¬ last.kind = .newline := by rw [hend.eof]; decide
    obtain ⟨more, rfl⟩ | hnewline := hend.goesOn
    · refine .inl ?_
      simpa [hlast] using Alike.ends
    · exact .inr ⟨hnewline, by simp [hlast], rfl⟩
  | @cons t ts us ht halike ih =>
    by_cases hnewline : t.kind = .newline
    · simpa [hnewline] using ih
    · refine .inl ?_
      simpa [hnewline] using Alike.cons ht halike

theorem compares_skipNewlines :
    Compares f last ending (AlikeAfter f last ending) n 0 skipNewlines skipNewlines :=
  fun _ _ halike _ => .value (halike.dropNewlines hend) (List.dropWhile_sublist _).length_le

end Rules

/-! ### Lists -/

section Lists

variable {close : TokenKind} {item item' : Production α} {g g' : List α → Production β}

theorem AlikeAfter.ne_nil (h : AlikeAfter f last ending ts us) : ts ≠ [] := by
  obtain h | ⟨-, rfl, -⟩ := h
  · exact h.ne_nil
  · exact List.cons_ne_nil _ _

/-- Items are read up to the same closing token. The induction is on the bound of the first run, which
each item takes a token from; the bound of the second one is only as large as it has to be. -/
theorem compares_manyUntil (hend : Ending f last ending) (heof : close ≠ .eof)
    (hnewline : close ≠ .newline)
    (hitem : Compares f last ending (AlikeAfter f last ending) n 1 item item') :
    ∀ (bound bound' : Nat) {ts us : List Token}, AlikeAfter f last ending ts us →
      ts.length ≤ n → ts.length ≤ bound → ts.length ≤ bound' →
      Outcome f ending (fun rest rest' => Alike f last ending rest rest' ∧ (next rest).kind = close)
        0 ts (manyUntil close item bound ts) (manyUntil close item' bound' us) := by
  intro bound
  induction bound with
  | zero =>
    intro bound' ts us halike _ hts
    exact absurd (List.length_eq_zero_iff.mp (by omega)) halike.ne_nil
  | succ bound ih =>
    intro bound' ts us halike hlength hts hts'
    have hpos := List.length_pos_iff.mpr halike.ne_nil
    obtain ⟨bound', rfl⟩ : ∃ m, bound' = m + 1 := ⟨bound' - 1, by omega⟩
    have hlist : Outcome f ending
        (fun rest rest' => Alike f last ending rest rest' ∧ (next rest).kind = close) (1 + 0) ts
        (item ts >>= fun r => manyUntil close item bound r.2 >>= fun q => .ok (r.1 :: q.1, q.2))
        (item' us >>= fun r => manyUntil close item' bound' r.2 >>= fun q =>
          .ok (r.1 :: q.1, q.2)) := by
      refine (hitem.after (fun _ _ => AlikeAfter.ne_nil) halike hlength).bind
        (g := fun a => manyUntil close item bound >>= fun as => Pure.pure (a :: as))
        (w := fun a => manyUntil close item' bound' >>= fun as => Pure.pure (a :: as)) ?_
      intro a rest rest' hrest hle
      exact (ih bound' hrest (by omega) (by omega) (by omega)).bind
        (g := fun as => (Pure.pure (a :: as) : Production (List α)))
        (w := fun as => (Pure.pure (a :: as) : Production (List α))) (l := 0)
        fun as rest rest' hrest _ => .value hrest (Nat.le_refl _)
    rw [manyUntil_succ, manyUntil_succ]
    obtain halike | ⟨hending, rfl, rfl⟩ := halike
    · by_cases hclose : (next ts).kind = close
      · rw [if_pos hclose, if_pos ((halike.kind_iff hend heof hnewline).mpr hclose)]
        exact .value ⟨halike, hclose⟩ (Nat.le_refl _)
      · rw [if_neg hclose, if_neg (mt (halike.kind_iff hend heof hnewline).mp hclose)]
        exact hlist.mono (fun _ _ h => h) (by omega)
    · -- the first input has ended, and no item is read from it
      rw [if_neg (show (next [last]).kind ≠ close from hend.eof ▸ heof.symm)]
      exact Outcome.ended hlist (fun _ _ h => h.1.ne_nil) hending

/-- Items, the token that closes them, and what comes behind. -/
theorem Outcome.closed {bound bound' : Nat} (hend : Ending f last ending) (heof : close ≠ .eof)
    (hnewline : close ≠ .newline)
    (hitem : Compares f last ending (AlikeAfter f last ending) n 1 item item')
    (hg : ∀ as, Compares f last ending S (n - 1) k (g as) (g' as))
    (h : AlikeAfter f last ending ts us) (hlength : ts.length ≤ n) (hbound : n ≤ bound)
    (hbound' : n ≤ bound') :
    Outcome f ending S (k + 1) ts
      ((do let as ← manyUntil close item bound; discard advance; g as : Production β) ts)
      ((do let as ← manyUntil close item' bound'; discard advance; g' as : Production β) us) := by
  have hlist := compares_manyUntil hend heof hnewline hitem bound bound' h hlength (by omega)
    (by omega)
  have hwhole : Outcome f ending S (0 + (k + 1)) ts _ _ :=
    hlist.bind (g := fun as => do discard advance; g as) (w := fun as => do discard advance; g' as)
      fun as rest rest' hrest hle => by
        obtain ⟨hrest, hclose⟩ := hrest
        obtain ⟨t, rest, rest', rfl, rfl, hkind, hrest⟩ := hrest.exists_cons hend heof hclose
        rw [List.length_cons] at hle
        exact .take rfl rfl (hg as rest rest' hrest (by omega))
  exact hwhole.mono (fun _ _ h => h) (by omega)

theorem Compares.closed {bound bound' : Nat} (hend : Ending f last ending) (heof : close ≠ .eof)
    (hnewline : close ≠ .newline) (hitem : Compares f last ending (Alike f last ending) n 1 item item')
    (hbound : n ≤ bound) (hbound' : n ≤ bound')
    (hg : ∀ as, Compares f last ending S (n - 1) k (g as) (g' as)) :
    Compares f last ending S n (k + 1)
      (do let as ← manyUntil close item bound; discard advance; g as)
      (do let as ← manyUntil close item' bound'; discard advance; g' as) := by
  intro ts us halike hlength
  have hitem' : Compares f last ending (AlikeAfter f last ending) n 1 item item' :=
    fun ts us halike hlength =>
      (hitem ts us halike hlength).mono (fun _ _ h => .inl h) (Nat.le_refl _)
  exact .closed hend heof hnewline hitem' hg (.inl halike) hlength hbound hbound'

end Lists

/-! ### Expressions -/

section Expressions

variable {inner inner' operand operand' : Production Node} {bound bound' : Nat}
  (hend : Ending f last ending)

include hend

/-- A line feed is as little an operator as the end of the input. -/
theorem Alike.operator?_eq (h : Alike f last ending ts us) (level : Nat) :
    operator? level (next us).kind = operator? level (next ts).kind := by
  obtain hsame | ⟨hts, hus⟩ := h.kind hend
  · rw [hsame]
  · rw [hts, hus]
    match level with
    | 0 => rfl
    | 1 => rfl
    | 2 => rfl
    | _ + 3 => rfl

theorem Alike.sign?_eq (h : Alike f last ending ts us) :
    sign? (next us).kind = sign? (next ts).kind := by
  obtain hsame | ⟨hts, hus⟩ := h.kind hend
  · rw [hsame]
  · rw [hts, hus]
    rfl

/-- The induction is on the bound of the first run; each operator takes a token. -/
theorem compares_chainFrom {level : Nat}
    (hoperand : Compares f last ending (Alike f last ending) n 1 operand operand') :
    ∀ (bound bound' m : Nat), m ≤ n → m ≤ bound → m ≤ bound' → ∀ left,
      Compares f last ending (Alike f last ending) m 0
        (chainFrom (operator? level) operand bound left)
        (chainFrom (operator? level) operand' bound' left) := by
  intro bound
  induction bound with
  | zero =>
    intro bound' m _ hm _ left ts us halike hlength
    exact absurd (List.length_eq_zero_iff.mp (by omega)) halike.ne_nil
  | succ bound ih =>
    intro bound' m hn hm hm' left ts us halike hlength
    have hpos := List.length_pos_iff.mpr halike.ne_nil
    obtain ⟨bound', rfl⟩ : ∃ m, bound' = m + 1 := ⟨bound' - 1, by omega⟩
    rw [chainFrom_succ, chainFrom_succ, halike.operator?_eq hend]
    cases hop : operator? level (next ts).kind with
    | none => exact .value halike (Nat.le_refl _)
    | some op =>
      obtain ⟨t, ts, us, rfl, rfl, -, halike⟩ :=
        halike.exists_cons hend (ne_eof_of_operator? hop) rfl
      rw [List.length_cons] at hlength
      have hrest : Compares f last ending (Alike f last ending) (m - 1) (1 + 0)
          (operand >>= fun right => chainFrom (operator? level) operand bound (.binary op left right))
          (operand' >>= fun right =>
            chainFrom (operator? level) operand' bound' (.binary op left right)) :=
        (hoperand.mono (by omega) (Nat.le_refl _)).bind fun right =>
          ih bound' (m - 1 - 1) (by omega) (by omega) (by omega) _
      exact (Outcome.take rfl rfl (hrest ts us halike (by omega))).mono (fun _ _ h => h) (by omega)

theorem compares_chain (level : Nat) (hbound : n ≤ bound) (hbound' : n ≤ bound')
    (hoperand : Compares f last ending (Alike f last ending) n 1 operand operand') :
    Compares f last ending (Alike f last ending) n 1 (chain bound (operator? level) operand)
      (chain bound' (operator? level) operand') :=
  hoperand.bind fun left =>
    compares_chainFrom hend hoperand bound bound' (n - 1) (by omega) (by omega) (by omega) left

/-- The induction is on the signs, which are tokens at the front of both inputs. -/
theorem compares_signed
    (hoperand : Compares f last ending (Alike f last ending) n 1 operand operand') :
    Compares f last ending (Alike f last ending) n 1 (signed operand) (signed operand') := by
  intro ts us halike hlength
  induction halike with
  | ends =>
    have halike : Alike f last ending [last] ending := .ends
    have hlast : sign? (next [last]).kind = none := by
      show sign? last.kind = none
      rw [hend.eof]
      rfl
    rw [signed_of_none hlast, signed_of_none ((halike.sign?_eq hend).trans hlast)]
    exact hoperand _ _ halike hlength
  | @cons t ts us ht halike ih =>
    cases hsign : sign? t.kind with
    | none =>
      rw [signed_of_none (show sign? (next (t :: ts)).kind = none from hsign),
        signed_of_none (show sign? (next (t.move f :: us)).kind = none from hsign)]
      exact hoperand _ _ (.cons ht halike) hlength
    | some op =>
      rw [List.length_cons] at hlength
      have hrest := (ih (by omega)).bind
        (g := fun node => (Pure.pure (Node.unary op node) : Production Node))
        (w := fun node => (Pure.pure (Node.unary op node) : Production Node)) (l := 0)
        fun _ _ _ hrest _ => .value hrest (Nat.le_refl _)
      exact (Outcome.take (signed_of_some hsign ts) (signed_of_some (t := t.move f) hsign us)
        hrest).mono (fun _ _ h => h) (by omega)

theorem compares_argument
    (hinner : Compares f last ending (Alike f last ending) n 1 inner inner') :
    Compares f last ending (Alike f last ending) n 1 (argument inner) (argument inner') :=
  hinner.bind fun node => (compares_skip hend (by decide) (by decide)).map fun _ => node

theorem compares_afterName (name : String) (hbound : n ≤ bound) (hbound' : n ≤ bound')
    (hinner : Compares f last ending (Alike f last ending) n 1 inner inner') :
    Compares f last ending (Alike f last ending) n 0
      (do
        if (← peek) = .leftParen then
          discard advance
          let arguments ← manyUntil .rightParen (argument inner) bound
          discard advance
          return Node.call name arguments
        else return Node.identifier name)
      (do
        if (← peek) = .leftParen then
          discard advance
          let arguments ← manyUntil .rightParen (argument inner') bound'
          discard advance
          return Node.call name arguments
        else return Node.identifier name) := by
  refine .choice hend (by decide) (by decide) (fun t ts us halike hkind hlength => ?_) (.pure _)
  have harguments := (compares_argument hend hinner).mono (Nat.sub_le n 1) (Nat.le_refl _)
  have hcall := Compares.closed hend (show TokenKind.rightParen ≠ .eof by decide) (by decide)
    harguments (show n - 1 ≤ bound by omega) (show n - 1 ≤ bound' by omega)
    (fun arguments => .pure (Node.call name arguments))
  exact (Outcome.take rfl rfl (hcall ts us halike (by omega))).mono (fun _ _ h => h) (by omega)

/-- One case for each kind of token that an operand may begin with. -/
theorem compares_primary (hbound : n ≤ bound + 1) (hbound' : n ≤ bound' + 1)
    (hinner : Compares f last ending (Alike f last ending) (n - 1) 1 inner inner') :
    Compares f last ending (Alike f last ending) n 1 (primary bound inner)
      (primary bound' inner') := by
  intro ts us halike hlength
  have halike' := halike
  cases halike with
  | ends =>
    have hfirst : primary bound inner [last] = unexpected .expression [last] := by
      rw [primary_cons, hend.eof]
    obtain ⟨more, rfl⟩ | hnewline := hend.goesOn
    · have hsecond : primary bound' inner' (last.move f :: more)
          = unexpected .expression (last.move f :: more) := by
        rw [primary_cons, Token.kind_move, hend.eof]
      rw [hfirst, hsecond]
      exact .unexpected hend halike' _
    · rw [hfirst]
      exact .failed (.inr hnewline)
  | @cons t ts us ht halike =>
    rw [List.length_cons] at hlength
    have hfirst := primary_cons bound inner t ts
    have hsecond := primary_cons bound' inner' (t.move f) us
    rw [Token.kind_move] at hsecond
    cases hkind : t.kind with
    | eof => exact absurd hkind ht
    | number =>
      rw [primary_number bound inner hkind ts, primary_number bound' inner' (t := t.move f) hkind us]
      cases hnumber : readNumber? t.lexeme with
      | none =>
        rw [Token.lexeme_move, hnumber]
        exact .failed (.inl rfl)
      | some x =>
        rw [Token.lexeme_move, hnumber]
        exact .value halike (by simp)
    | string =>
      rw [hkind] at hfirst hsecond
      rw [hfirst, hsecond]
      exact .value halike (by simp)
    | identifier =>
      rw [hkind] at hfirst hsecond
      have hrest := compares_afterName hend t.lexeme (show n - 1 ≤ bound by omega)
        (show n - 1 ≤ bound' by omega) hinner
      exact .take hfirst hsecond (hrest ts us halike (by omega))
    | leftParen =>
      rw [hkind] at hfirst hsecond
      have hrest := hinner.bind fun node =>
        Compares.mark hend (show TokenKind.rightParen ≠ .eof by decide) (by decide) (.pure node)
      exact (Outcome.take hfirst hsecond (hrest ts us halike (by omega))).mono
        (fun _ _ h => h) (by omega)
    | _ =>
      rw [hkind] at hfirst hsecond
      rw [hfirst, hsecond]
      exact .unexpected hend halike' _

/-- An expression is read alike under any bounds that are no smaller than the number of tokens. -/
theorem compares_expression {n bound bound' : Nat} (hbound : n ≤ bound) (hbound' : n ≤ bound') :
    ∀ depth depth', n ≤ depth → n ≤ depth' →
      Compares f last ending (Alike f last ending) n 1 (expression bound depth)
        (expression bound' depth') := by
  induction n with
  | zero =>
    intro depth depth' _ _ ts us halike hlength
    exact absurd (List.length_eq_zero_iff.mp (by omega)) halike.ne_nil
  | succ n ih =>
    intro depth depth' hdepth hdepth'
    obtain ⟨depth, rfl⟩ : ∃ m, depth = m + 1 := ⟨depth - 1, by omega⟩
    obtain ⟨depth', rfl⟩ : ∃ m, depth' = m + 1 := ⟨depth' - 1, by omega⟩
    have hinner := ih (by omega) (by omega) depth depth' (by omega) (by omega)
    have hsigned := compares_signed hend
      (compares_primary hend (show n + 1 ≤ bound + 1 by omega) (show n + 1 ≤ bound' + 1 by omega)
        hinner)
    -- three levels of operators
    have h₂ := compares_chain hend 2 hbound hbound' hsigned
    have h₁ := compares_chain hend 1 hbound hbound' h₂
    exact compares_chain hend 0 hbound hbound' h₁

end Expressions

/-! ### Statements -/

section Statements

variable {value value' inner inner' : Production Node} {bound bound' : Nat}
  (hend : Ending f last ending)

include hend

theorem compares_parameter :
    Compares f last ending (Alike f last ending) n 1 parameter parameter :=
  .expect hend (by decide) (by decide) fun t =>
    (compares_skip hend (by decide) (by decide)).map fun _ => t.lexeme

theorem compares_line (hinner : Compares f last ending (Alike f last ending) n 1 inner inner') :
    Compares f last ending (AlikeAfter f last ending) n 1 (line inner) (line inner') :=
  hinner.bind fun node => (compares_skipNewlines hend).map fun _ => node

theorem compares_block (hbound : n ≤ bound + 1) (hbound' : n ≤ bound' + 1)
    (hinner : Compares f last ending (Alike f last ending) (n - 1) 1 inner inner') :
    Compares f last ending (Alike f last ending) n 1 (block bound inner) (block bound' inner') := by
  refine (Compares.mark hend (k := 1) (show TokenKind.leftBrace ≠ .eof by decide) (by decide)
    ?_).mono (Nat.le_refl _) (by omega)
  intro ts us halike hlength
  have hlines := (compares_skipNewlines hend (n := n - 1) ts us halike hlength).bind (l := 1)
    (g := fun _ => do
      let body ← manyUntil .rightBrace (line inner) bound
      discard advance
      return body)
    (w := fun _ => do
      let body ← manyUntil .rightBrace (line inner') bound'
      discard advance
      return body)
    fun _ rest rest' hrest hle =>
      .closed hend (by decide) (by decide) (compares_line hend hinner) (fun body => .pure body) hrest
        (by omega) (by omega) (by omega)
  exact hlines.mono (fun _ _ h => h) (by omega)

theorem compares_definition (hbound : n ≤ bound) (hbound' : n ≤ bound')
    (hinner : Compares f last ending (Alike f last ending) n 1 inner inner') :
    Compares f last ending (Alike f last ending) n 1 (definition bound inner)
      (definition bound' inner') := by
  have hbody : Compares f last ending (Alike f last ending) (n - 1 - 1 - 1) 1 (block bound inner)
      (block bound' inner') :=
    compares_block hend (by omega) (by omega) (hinner.mono (by omega) (Nat.le_refl _))
  refine (Compares.expect hend (k := 2 + 1) (show TokenKind.identifier ≠ .eof by decide)
    (by decide) fun name => ?_).mono (Nat.le_refl _) (by omega)
  refine .mark hend (by decide) (by decide) (.closed hend (by decide) (by decide)
    (compares_parameter hend) (by omega) (by omega) fun parameters => ?_)
  exact hbody.map fun body => Node.define name.lexeme parameters body

section Values

variable (hvalue : Compares f last ending (Alike f last ending) n 1 value value')

include hvalue

theorem compares_condition :
    Compares f last ending (Alike f last ending) n 1 (condition value) (condition value') := by
  have hclosed := (hvalue.mono (Nat.sub_le n 1) (Nat.le_refl _)).bind fun node =>
    Compares.mark hend (show TokenKind.rightParen ≠ .eof by decide) (by decide) (.pure node)
  exact (Compares.mark hend (show TokenKind.leftParen ≠ .eof by decide) (by decide) hclosed).mono
    (Nat.le_refl _) (by omega)

theorem compares_bare :
    Compares f last ending (Alike f last ending) n 1 (bare value) (bare value') :=
  hvalue.bind fun node => (compares_skip hend (by decide) (by decide)).map fun _ => node

theorem compares_print :
    Compares f last ending (Alike f last ending) n 1 (print value) (print value') :=
  (compares_condition hend hvalue).bind fun node =>
    (compares_skip hend (by decide) (by decide)).map fun _ => Node.print node

theorem compares_assignment :
    Compares f last ending (Alike f last ending) n 1 (assignment value) (assignment value') := by
  have hassigned : ∀ name, Compares f last ending (Alike f last ending) n 1
      (do let value ← value; skip .semicolon; return Node.assign name value)
      (do let value ← value'; skip .semicolon; return Node.assign name value) := fun name =>
    hvalue.bind fun value =>
      (compares_skip hend (by decide) (by decide)).map fun _ => Node.assign name value
  refine ((compares_skip hend (n := n) (show TokenKind.letWord ≠ .eof by decide) (by decide)).bind
    (l := 1 + 1 + 1) fun _ => ?_).mono (Nat.le_refl _) (by omega)
  refine .expect hend (by decide) (by decide) fun name => ?_
  exact .mark hend (by decide) (by decide)
    ((hassigned name.lexeme).mono (by omega) (Nat.le_refl _))

theorem compares_loop (hbound : n ≤ bound) (hbound' : n ≤ bound')
    (hinner : Compares f last ending (Alike f last ending) n 1 inner inner') :
    Compares f last ending (Alike f last ending) n 1 (loop bound value inner)
      (loop bound' value' inner') := by
  have hbody := compares_block hend (show n - 1 ≤ bound + 1 by omega)
    (show n - 1 ≤ bound' + 1 by omega) (hinner.mono (by omega) (Nat.le_refl _))
  exact ((compares_condition hend hvalue).bind fun test =>
    hbody.map fun body => Node.loop test body).mono (Nat.le_refl _) (by omega)

omit hvalue in
theorem compares_elsePart (test : Node) (thenBody : List Node) (hbound : n ≤ bound)
    (hbound' : n ≤ bound')
    (hinner : Compares f last ending (Alike f last ending) n 1 inner inner') :
    Compares f last ending (Alike f last ending) n 0
      (do
        if (← peek) = .elseWord then
          discard advance
          let elseBody ← block bound inner
          return Node.branch test thenBody (some elseBody)
        else return Node.branch test thenBody none)
      (do
        if (← peek) = .elseWord then
          discard advance
          let elseBody ← block bound' inner'
          return Node.branch test thenBody (some elseBody)
        else return Node.branch test thenBody none) := by
  refine .choice hend (by decide) (by decide) (fun t ts us halike hkind hlength => ?_) (.pure _)
  have hbody := (compares_block hend (show n ≤ bound + 1 by omega)
    (show n ≤ bound' + 1 by omega) (hinner.mono (by omega) (Nat.le_refl _))).map fun body =>
      Node.branch test thenBody (some body)
  exact (Outcome.take rfl rfl (hbody ts us halike (by omega))).mono (fun _ _ h => h) (by omega)

theorem compares_branch (hbound : n ≤ bound) (hbound' : n ≤ bound')
    (hinner : Compares f last ending (Alike f last ending) n 1 inner inner') :
    Compares f last ending (Alike f last ending) n 1 (branch bound value inner)
      (branch bound' value' inner') := by
  have hbody := compares_block hend (show n - 1 ≤ bound + 1 by omega)
    (show n - 1 ≤ bound' + 1 by omega) (hinner.mono (by omega) (Nat.le_refl _))
  exact ((compares_condition hend hvalue).bind fun test => hbody.bind fun thenBody =>
    (compares_elsePart hend test thenBody hbound hbound' hinner).mono (by omega)
      (Nat.le_refl _)).mono (Nat.le_refl _) (by omega)

omit hend hvalue in
theorem ret_of_ends {ts : List Token} (h : endsReturn (next ts).kind = true) :
    ret value ts = (do skip .semicolon; return Node.ret none : Production Node) ts := by
  show (if endsReturn (next ts).kind = true then _ else _ : Production Node) ts = _
  rw [if_pos h]
  rfl

omit hend hvalue in
theorem ret_of_not_ends {ts : List Token} (h : ¬ endsReturn (next ts).kind = true) :
    ret value ts
      = (do let result ← some <$> value; skip .semicolon; return Node.ret result :
          Production Node) ts := by
  show (if endsReturn (next ts).kind = true then _ else _ : Production Node) ts = _
  rw [if_neg h]

/-- Before a line feed there is as little to return as before the end of the input. -/
theorem compares_ret :
    Compares f last ending (Alike f last ending) n 0 (ret value) (ret value') := by
  intro ts us halike hlength
  have hends : endsReturn (next us).kind = endsReturn (next ts).kind := by
    obtain hsame | ⟨hts, hus⟩ := halike.kind hend
    · rw [hsame]
    · rw [hts, hus]
      rfl
  have hskip : ∀ result, Compares f last ending (Alike f last ending) n 0
      (do skip .semicolon; return Node.ret result)
      (do skip .semicolon; return Node.ret result) := fun result =>
    (compares_skip hend (by decide) (by decide)).map fun _ => Node.ret result
  by_cases hnone : endsReturn (next ts).kind = true
  · rw [ret_of_ends hnone, ret_of_ends (hends ▸ hnone)]
    exact hskip none ts us halike hlength
  · rw [ret_of_not_ends hnone, ret_of_not_ends (hends ▸ hnone)]
    have hsome := (hvalue.map some).bind fun result =>
      (hskip result).mono (Nat.sub_le n 1) (Nat.le_refl _)
    exact (hsome ts us halike hlength).mono (fun _ _ h => h) (by omega)

end Values

/-- One case for each kind of token that a statement may begin with. -/
theorem compares_statementFrom (hbound : n ≤ bound + 1) (hbound' : n ≤ bound' + 1)
    (hvalue : Compares f last ending (Alike f last ending) n 1 value value')
    (hinner : Compares f last ending (Alike f last ending) (n - 1) 1 inner inner')
    (halike : Alike f last ending ts us) (hlength : ts.length ≤ n)
    (hsame : (next us).kind = (next ts).kind) :
    Outcome f ending (Alike f last ending) 1 ts
      (statementFrom bound value inner (next ts).kind ts)
      (statementFrom bound' value' inner' (next us).kind us) := by
  have hvalue' := hvalue.mono (Nat.sub_le n 1) (Nat.le_refl 1)
  -- a statement behind the word that opens it
  have hword : ∀ {kind : TokenKind} {x y : Production Node}, kind ≠ .eof → (next ts).kind = kind →
      Compares f last ending (Alike f last ending) (n - 1) 0 x y →
      Outcome f ending (Alike f last ending) 1 ts ((do discard advance; x : Production Node) ts)
        ((do discard advance; y : Production Node) us) := by
    intro kind x y heof hkind hx
    obtain ⟨t, ts, us, rfl, rfl, -, halike⟩ := halike.exists_cons hend heof hkind
    rw [List.length_cons] at hlength
    exact .take rfl rfl (hx ts us halike (by omega))
  rw [hsame]
  cases hkind : (next ts).kind with
  | letWord => exact compares_assignment hend hvalue ts us halike hlength
  | funcWord =>
    exact hword (by decide) hkind ((compares_definition hend (by omega) (by omega) hinner).mono
      (Nat.le_refl _) (by omega))
  | ifWord =>
    exact hword (by decide) hkind ((compares_branch hend hvalue' (by omega) (by omega) hinner).mono
      (Nat.le_refl _) (by omega))
  | whileWord =>
    exact hword (by decide) hkind ((compares_loop hend hvalue' (by omega) (by omega) hinner).mono
      (Nat.le_refl _) (by omega))
  | returnWord => exact hword (by decide) hkind (compares_ret hend hvalue')
  | printWord =>
    exact hword (by decide) hkind ((compares_print hend hvalue').mono (Nat.le_refl _) (by omega))
  | identifier =>
    have halike' := halike
    obtain ⟨t, ts, us, rfl, rfl, -, htail⟩ := halike'.exists_cons hend (by decide) hkind
    show Outcome f ending _ 1 (t :: ts)
      ((if (next ts).kind = .assign then assignment value else bare value) (t :: ts))
      ((if (next us).kind = .assign then assignment value' else bare value') (t.move f :: us))
    by_cases hassign : (next ts).kind = .assign
    · rw [if_pos hassign, if_pos ((htail.kind_iff hend (by decide) (by decide)).mpr hassign)]
      exact compares_assignment hend hvalue _ _ halike hlength
    · rw [if_neg hassign, if_neg (mt (htail.kind_iff hend (by decide) (by decide)).mp hassign)]
      exact compares_bare hend hvalue _ _ halike hlength
  | _ => exact compares_bare hend hvalue ts us halike hlength

/-- The line feeds before a statement belong to it. -/
theorem compares_statementOver (hbound : n ≤ bound + 1) (hbound' : n ≤ bound' + 1)
    (hvalue : Compares f last ending (Alike f last ending) n 1 value value')
    (hinner : Compares f last ending (Alike f last ending) (n - 1) 1 inner inner') :
    Compares f last ending (Alike f last ending) n 1 (statementOver bound value inner)
      (statementOver bound' value' inner') := by
  intro ts us halike hlength
  have hshort := length_dropNewlines_le ts
  have hdropped := halike.dropNewlines hend
  rw [statementOver_eq, statementOver_eq]
  generalize ts.dropWhile (·.kind = .newline) = vs at hshort hdropped ⊢
  generalize us.dropWhile (·.kind = .newline) = ws at hdropped ⊢
  -- no statement is read from a first input that has ended
  have hended : ∀ r, (next ending).kind = .newline → n ≥ 1 → Outcome f ending (Alike f last ending) 1
      [last] (statementFrom bound value inner (next [last]).kind [last]) r := by
    intro r hnewline hn
    have hnext : (next [last]).kind = .eof := hend.eof
    rw [hnext]
    exact (compares_bare hend hvalue [last] ending .ends hn).ended
      (fun _ _ h => h.ne_nil) hnewline
  have hpos := List.length_pos_iff.mpr halike.ne_nil
  refine Outcome.mono (k := 1) ?_ (fun _ _ h => h)
    (show vs.length + 1 ≤ ts.length + 1 by omega)
  obtain hvs | ⟨hnewline, rfl, rfl⟩ := hdropped
  · obtain hsame | ⟨heof, hnewline⟩ := hvs.kind hend
    · exact compares_statementFrom hend hbound hbound' hvalue hinner hvs (by omega) hsame
    · cases hvs with
      | ends => exact hended _ hnewline (by omega)
      | cons ht _ => exact absurd heof ht
  · exact hended _ hnewline (by omega)

/-- A statement is read alike under any bounds that are no smaller than the number of tokens. -/
theorem compares_statement {n : Nat} (hbound : n ≤ bound) (hbound' : n ≤ bound') :
    ∀ depth depth', n ≤ depth → n ≤ depth' →
      Compares f last ending (Alike f last ending) n 1 (statement bound depth)
        (statement bound' depth') := by
  induction n with
  | zero =>
    intro depth depth' _ _ ts us halike hlength
    exact absurd (List.length_eq_zero_iff.mp (by omega)) halike.ne_nil
  | succ n ih =>
    intro depth depth' hdepth hdepth'
    obtain ⟨depth, rfl⟩ : ∃ m, depth = m + 1 := ⟨depth - 1, by omega⟩
    obtain ⟨depth', rfl⟩ : ∃ m, depth' = m + 1 := ⟨depth' - 1, by omega⟩
    have hvalue := compares_expression hend hbound hbound' bound bound' (by omega) (by omega)
    have hinner := ih (by omega) (by omega) depth depth' (by omega) (by omega)
    exact compares_statementOver hend (n := n + 1) (by omega) (by omega) hvalue hinner

end Statements

end Comparison

end Parser

end StackScript
