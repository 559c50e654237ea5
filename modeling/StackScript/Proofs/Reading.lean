import StackScript.Proofs.Grammar

/-!
Productions that read what was written.

A production is said to read words as a value if it takes just the tokens that are written for them
from the front of the input. What comes behind them is left open, except for the token that stands
next there, which has to be one at which the production stops.

* `Written`: the tokens that are written for words;
* `Reads`: the relation between a production, words and a value;
* `Reads.bind`, `Reads.peek`, `Reads.discard`, `Reads.expect`: productions put together;
* `reads_manyUntil_flatMap`, `reads_manyUntil_commaSeparated`: lists.
-/

namespace StackScript

namespace Parser

/-- A production that has an answer had one at its first step. -/
theorem exists_of_bind_ok {ε α β : Type} {x : Except ε α} {g : α → Except ε β} {b : β}
    (h : (x >>= g) = .ok b) : ∃ a, x = .ok a ∧ g a = .ok b := by
  cases x with
  | error e => cases h
  | ok a => exact ⟨a, rfl, h⟩

theorem discard_bind {α β : Type} (x : Production α) (g : Production β) :
    (do discard x; g) = (x >>= fun _ => g) := by
  funext ts
  show ((x ts >>= fun r => Pure.pure ((), r.2)) >>= fun r => g r.2) = (x ts >>= fun r => g r.2)
  cases x ts <;> rfl

/-- The tokens are written for the words. -/
abbrev Written (ws : List Word) (ts : List Token) : Prop :=
  List.Forall₂ Word.Spells ws ts

theorem written_append {qs : List Word} : ∀ {ws : List Word} {ts : List Token},
    Written (ws ++ qs) ts → ∃ us vs, ts = us ++ vs ∧ Written ws us ∧ Written qs vs
  | [], ts, h => ⟨[], ts, rfl, .nil, h⟩
  | _ :: _, _, .cons hw h => by
    obtain ⟨us, vs, rfl, hws, hqs⟩ := written_append h
    exact ⟨_ :: us, vs, rfl, .cons hw hws, hqs⟩

/-- A production takes the tokens written for the words from the front of the input, and answers the
value, if the token behind them is one that may follow. -/
def Reads {α : Type} (x : Production α) (ws : List Word) (a : α) (follow : TokenKind → Prop) :
    Prop :=
  ∀ ts rest, Written ws ts → follow (next rest).kind → x (ts ++ rest) = .ok (a, rest)

/-- Whatever follows these words, the token that stands next is one of those. -/
def Leads (ws : List Word) (follow : TokenKind → Prop) (first : TokenKind → Prop) : Prop :=
  ∀ ts rest, Written ws ts → follow (next rest).kind → first (next (ts ++ rest)).kind

theorem leads_cons {w : Word} {ws : List Word} {follow first : TokenKind → Prop}
    (h : first w.kind) : Leads (w :: ws) follow first := by
  rintro _ rest (_ | ⟨hw, -⟩) -
  rw [List.cons_append, next, List.headD_cons, hw.1]
  exact h

theorem leads_of_begins {ws : List Word} {follow first : TokenKind → Prop} (h : Begins first ws) :
    Leads ws follow first := by
  obtain ⟨w, rest, rfl, hw⟩ := h
  exact leads_cons hw

theorem leads_nil {follow first : TokenKind → Prop} (h : ∀ kind, follow kind → first kind) :
    Leads [] follow first := by
  rintro _ rest (_ | _) hrest
  exact h _ hrest

theorem kind_of_spells_mark {kind : TokenKind} {t : Token} (h : (Word.mark kind).Spells t) :
    t.kind = kind := h.1

theorem expect_cons {kind : TokenKind} {t : Token} (h : t.kind = kind) (ts : List Token) :
    expect kind (t :: ts) = .ok (t, ts) := by
  show (if t.kind = kind then advance else unexpected (.token kind)) (t :: ts) = _
  rw [if_pos h]
  rfl

/-- Anything may follow. -/
theorem leads_true (ws : List Word) (follow : TokenKind → Prop) :
    Leads ws follow fun _ => True :=
  fun _ _ _ _ => trivial

namespace Reads

variable {α β : Type} {x : Production α} {f : α → Production β} {ws qs : List Word} {a : α} {b : β}
  {follow first : TokenKind → Prop}

theorem mono {follow' : TokenKind → Prop} (h : Reads x ws a follow')
    (hf : ∀ kind, follow kind → follow' kind) : Reads x ws a follow :=
  fun ts rest hts hrest => h ts rest hts (hf _ hrest)

theorem pure (a : α) : Reads (Pure.pure a : Production α) [] a follow := by
  rintro _ rest (_ | _) -
  rfl

/-- One production after the other. -/
theorem bind (hx : Reads x ws a first) (hq : Leads qs follow first)
    (hf : Reads (f a) qs b follow) : Reads (x >>= f) (ws ++ qs) b follow := by
  intro ts rest hts hrest
  obtain ⟨us, vs, rfl, hus, hvs⟩ := written_append hts
  show (x (us ++ vs ++ rest) >>= fun r => f r.1 r.2) = _
  rw [List.append_assoc, hx us (vs ++ rest) hus (hq vs rest hvs hrest)]
  exact hf vs rest hvs hrest

/-- One production after another that takes nothing. -/
theorem bind_nil (hx : Reads x ws a first) (hq : ∀ kind, follow kind → first kind)
    (hf : Reads (f a) [] b follow) : Reads (x >>= f) ws b follow := by
  have := hx.bind (leads_nil hq) hf
  rwa [List.append_nil] at this

/-- One production that takes nothing before another. -/
theorem nil_bind (hx : Reads x [] a first) (hq : Leads qs follow first)
    (hf : Reads (f a) qs b follow) : Reads (x >>= f) qs b follow :=
  hx.bind hq hf

/-- What stands next is looked at. -/
theorem peek {g : TokenKind → Production β} {w : Word} (h : Reads (g w.kind) (w :: ws) b follow) :
    Reads (Parser.peek >>= g) (w :: ws) b follow := by
  intro ts rest hts hrest
  have hfirst : Leads (w :: ws) follow (· = w.kind) := leads_cons rfl
  have hkind : (next (ts ++ rest)).kind = w.kind := hfirst ts rest hts hrest
  show g (next (ts ++ rest)).kind (ts ++ rest) = _
  rw [hkind]
  exact h ts rest hts hrest

/-- What stands behind is looked at. -/
theorem peek_nil {g : TokenKind → Production β}
    (h : ∀ kind, follow kind → Reads (g kind) [] b follow) :
    Reads (Parser.peek >>= g) [] b follow := by
  rintro _ rest (_ | _) hrest
  exact h _ hrest [] rest .nil hrest

/-- A token is taken. -/
theorem advance {g : Token → Production β} {w : Word}
    (h : ∀ t, w.Spells t → Reads (g t) ws b follow) :
    Reads (Parser.advance >>= g) (w :: ws) b follow := by
  rintro _ rest (_ | ⟨hw, hts⟩) hrest
  exact h _ hw _ rest hts hrest

/-- A token is taken and not looked at. -/
theorem discard {g : Production β} {w : Word} (h : Reads g ws b follow) :
    Reads (do discard Parser.advance; g) (w :: ws) b follow := by
  rintro _ rest (_ | ⟨hw, hts⟩) hrest
  exact h _ rest hts hrest

/-- A token of a known kind is taken. -/
theorem expect {g : Token → Production β} {w : Word}
    (h : ∀ t, w.Spells t → Reads (g t) ws b follow) :
    Reads (Parser.expect w.kind >>= g) (w :: ws) b follow := by
  rintro _ rest (_ | ⟨hw, hts⟩) hrest
  show (Parser.expect w.kind (_ :: (_ ++ rest)) >>= fun r => g r.1 r.2) = _
  rw [expect_cons hw.1]
  exact h _ hw _ rest hts hrest

/-- A token of a known kind is taken and not looked at. -/
theorem expectMark {g : Production β} {kind : TokenKind} (h : Reads g ws b follow) :
    Reads (do Functor.discard (Parser.expect kind); g) (.mark kind :: ws) b follow := by
  rintro _ rest (_ | ⟨hw, hts⟩) hrest
  show ((Parser.expect kind (_ :: (_ ++ rest)) >>= fun r => Pure.pure ((), r.2)) >>= fun r => g r.2)
    = _
  rw [expect_cons (kind_of_spells_mark hw)]
  exact h _ rest hts hrest

/-- What stands behind the next token is looked at. -/
theorem peekSecond {g : TokenKind → Production β} {w : Word} (hq : Leads ws follow first)
    (h : ∀ kind, first kind → Reads (g kind) (w :: ws) b follow) :
    Reads (Parser.peekSecond >>= g) (w :: ws) b follow := by
  rintro _ rest (_ | ⟨hw, hts⟩) hrest
  exact h _ (hq _ rest hts hrest) _ rest (.cons hw hts) hrest

/-- A token that may be missing is there. -/
theorem skip {kind : TokenKind} : Reads (Parser.skip kind) [.mark kind] () follow := by
  refine peek ?_
  rw [if_pos (show (Word.mark kind).kind = kind from rfl)]
  rintro _ rest (_ | ⟨-, _ | _⟩) -
  rfl

/-- A token that may be missing is not there. -/
theorem skip_nil {kind : TokenKind} : Reads (Parser.skip kind) [] () (· ≠ kind) := by
  refine peek_nil fun k hk => ?_
  rw [if_neg hk]
  exact pure ()

/-- A function of what is read. -/
theorem map (h : Reads x ws a follow) (g : α → β) : Reads (g <$> x) ws (g a) follow := by
  intro ts rest hts hrest
  show (x (ts ++ rest) >>= fun r => Pure.pure (g r.1, r.2)) = _
  rw [h ts rest hts hrest]
  rfl

/-- There is no line feed. -/
theorem skipNewlines_nil : Reads Parser.skipNewlines [] () (· ≠ .newline) := by
  rintro _ rest (_ | _) hrest
  show Except.ok ((), rest.dropWhile (·.kind = .newline)) = _
  cases rest with
  | nil => rfl
  | cons t ts =>
    have ht : t.kind ≠ .newline := hrest
    rw [List.dropWhile_cons_of_neg (by simpa using ht)]

/-- A line feed is dropped. -/
theorem skipNewlines : Reads Parser.skipNewlines [.mark .newline] () (· ≠ .newline) := by
  rintro _ rest (_ | ⟨hw, _ | _⟩) hrest
  show Except.ok ((), List.dropWhile (·.kind = .newline) (_ :: rest)) = _
  rw [List.dropWhile_cons_of_pos (by simpa using kind_of_spells_mark hw)]
  exact skipNewlines_nil [] rest .nil hrest

end Reads

/-! ### Lists -/

section Lists

variable {α : Type} {close : TokenKind} {item : Production α} {first : TokenKind → Prop}

theorem reads_manyUntil_nil {bound : Nat} (hbound : 0 < bound) :
    Reads (manyUntil close item bound) [] [] (· = close) := by
  obtain ⟨n, rfl⟩ := Nat.exists_eq_add_of_lt hbound
  refine Reads.peek_nil fun kind hkind => ?_
  rw [if_pos hkind]
  exact .pure []

/-- One item, and then the others. -/
theorem reads_manyUntil_cons {bound : Nat} {w : Word} {ws qs : List Word} {a : α} {as : List α}
    (hw : w.kind ≠ close) (hitem : Reads item (w :: ws) a first)
    (hq : Leads qs (· = close) first) (has : Reads (manyUntil close item bound) qs as (· = close)) :
    Reads (manyUntil close item (bound + 1)) (w :: ws ++ qs) (a :: as) (· = close) := by
  refine Reads.peek ?_
  rw [if_neg hw]
  exact hitem.bind hq (has.bind_nil (fun _ h => h) (.pure (a :: as)))

/-- Items that are written one after the other. -/
theorem reads_manyUntil_flatMap {words : α → List Word} (first : TokenKind → Prop)
    (hclose : first close) (as : List α)
    (has : ∀ a ∈ as, Reads item (words a) a first ∧
      Begins (fun kind => kind ≠ close ∧ first kind) (words a)) :
    ∀ {bound : Nat}, as.length < bound →
      Reads (manyUntil close item bound) (as.flatMap words) as (· = close) := by
  induction as with
  | nil => exact fun hbound => reads_manyUntil_nil hbound
  | cons a as ih =>
    intro bound hbound
    obtain ⟨n, rfl⟩ : ∃ n, bound = n + 1 := ⟨bound - 1, by omega⟩
    rw [List.forall_mem_cons] at has
    obtain ⟨⟨hitem, w, ws, hws, hw, -⟩, has⟩ := has
    rw [List.flatMap_cons, hws]
    rw [hws] at hitem
    refine reads_manyUntil_cons hw hitem ?_ (ih has (Nat.lt_of_succ_lt_succ hbound))
    -- what comes behind the item is the next one or the end of the list
    cases as with
    | nil => exact leads_nil fun kind h => h ▸ hclose
    | cons b bs =>
      have hb := (has b List.mem_cons_self).2.mono fun _ h => h.2
      exact leads_of_begins (hb.append _)

/-- Items that are written with commas between them. -/
theorem reads_manyUntil_commaSeparated {words : α → List Word} : ∀ (as : List α),
    (∀ a ∈ as, Reads item (words a) a (· = .rightParen) ∧
      Reads item (words a ++ [.mark .comma]) a (fun _ => True) ∧
      Begins (· ≠ .rightParen) (words a)) →
    ∀ {bound : Nat}, as.length < bound →
      Reads (manyUntil .rightParen item bound) (commaSeparated (as.map words)) as
        (· = .rightParen)
  | [], _, _, hbound => reads_manyUntil_nil hbound
  | [a], has, bound, hbound => by
    obtain ⟨n, rfl⟩ : ∃ n, bound = n + 1 := ⟨bound - 1, by omega⟩
    obtain ⟨hitem, -, w, ws, hws, hw⟩ := has a List.mem_cons_self
    rw [List.map_singleton, commaSeparated, List.intercalate_singleton, hws,
      ← List.append_nil (w :: ws)]
    rw [hws] at hitem
    exact reads_manyUntil_cons hw hitem (leads_nil fun _ h => h)
      (reads_manyUntil_nil (Nat.lt_of_succ_lt_succ hbound))
  | a :: b :: as, has, bound, hbound => by
    obtain ⟨n, rfl⟩ : ∃ n, bound = n + 1 := ⟨bound - 1, by omega⟩
    obtain ⟨-, hitem, w, ws, hws, hw⟩ := has a List.mem_cons_self
    rw [List.map_cons, List.map_cons, commaSeparated, List.intercalate_cons_cons, hws]
    rw [hws] at hitem
    exact reads_manyUntil_cons hw hitem (fun _ _ _ _ => trivial)
      (reads_manyUntil_commaSeparated (b :: as) (fun c hc => has c (List.mem_cons_of_mem _ hc))
        (Nat.lt_of_succ_lt_succ hbound))

end Lists

end Parser

end StackScript
