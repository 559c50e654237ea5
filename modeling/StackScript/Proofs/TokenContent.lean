import StackScript.Proofs.ParsedShape
import StackScript.Proofs.Recognizer

/-!
What a program keeps of its tokens.

Line feeds, commas, semicolons, parentheses and the word `let` only divide a program into its parts.
The parser drops them; every other token it keeps, once and in its place, also where commas are
missing or statements run together on a line. Read from left to right, the tree gives the tokens
again.

* `TokenKind.divides`, `kept`, `beforeEnd`: the tokens that only divide, those that are kept, and
  those before the end of the input;
* `Node.content`, `contents`: the words that are read off a tree;
* `Takes`: which tokens a production takes from the front of the input for what it answers;
* `takes_items`: lists with the token that closes them;
* `keeps_expression`, `keeps_statement`: expressions and statements;
* `written_of_parse`: the tokens of a program are written for the words that are read off it.
-/

namespace StackScript

/-- The tokens that only divide a program into its parts. -/
def TokenKind.divides : TokenKind → Bool
  | newline | comma | semicolon | leftParen | rightParen | letWord => true
  | _ => false

/-- All other tokens, but not the end of the input. -/
def TokenKind.isKept (kind : TokenKind) : Bool :=
  !kind.divides && kind != .eof

/-- The tokens that are kept, in their order. -/
def kept (ts : List Token) : List Token :=
  ts.filter (·.kind.isKept)

/-- The tokens before the first end of the input. -/
def beforeEnd (ts : List Token) : List Token :=
  ts.takeWhile (·.kind != .eof)

/-- Words in braces. -/
def braced (ws : List Word) : List Word :=
  .mark .leftBrace :: ws ++ [.mark .rightBrace]

mutual

/-- The words that are read off a node from left to right. -/
def Node.content : Node → List Word
  | .number x => [.number x]
  | .string s => [.text s]
  | .identifier name => [.name name]
  | .binary op left right => left.content ++ .mark op.kind :: right.content
  | .unary op operand => .mark op.kind :: operand.content
  | .assign name value => .name name :: .mark .assign :: value.content
  | .call name arguments => .name name :: contents arguments
  | .define name parameters body =>
    .mark .funcWord :: .name name :: parameters.map .name ++ braced (contents body)
  | .branch condition thenBody none =>
    .mark .ifWord :: condition.content ++ braced (contents thenBody)
  | .branch condition thenBody (some elseBody) =>
    .mark .ifWord :: condition.content ++ braced (contents thenBody)
      ++ .mark .elseWord :: braced (contents elseBody)
  | .loop condition body => .mark .whileWord :: condition.content ++ braced (contents body)
  | .ret none => [.mark .returnWord]
  | .ret (some value) => .mark .returnWord :: value.content
  | .print value => .mark .printWord :: value.content

/-- The words that are read off nodes, one after the other. -/
def contents : List Node → List Word
  | [] => []
  | node :: nodes => node.content ++ contents nodes

end

theorem contents_eq_flatMap (nodes : List Node) : contents nodes = nodes.flatMap Node.content := by
  induction nodes with
  | nil => rfl
  | cons node nodes ih => rw [contents, ih, List.flatMap_cons]

theorem kept_append (ts us : List Token) : kept (ts ++ us) = kept ts ++ kept us :=
  List.filter_append ts us

theorem TokenKind.ne_eof_of_isKept {kind : TokenKind} (h : kind.isKept = true) : kind ≠ .eof := by
  rintro rfl
  cases h

theorem TokenKind.ne_eof_of_divides {kind : TokenKind} (h : kind.divides = true) :
    kind ≠ .eof := by
  rintro rfl
  cases h

theorem kept_cons {t : Token} (h : t.kind.isKept = true) (ts : List Token) :
    kept (t :: ts) = t :: kept ts :=
  List.filter_cons_of_pos h

theorem kept_eq_nil {ts : List Token} (h : ∀ t ∈ ts, t.kind.divides = true) : kept ts = [] := by
  refine List.filter_eq_nil_iff.mpr fun t ht => ?_
  simp [TokenKind.isKept, h t ht]

theorem BinaryOp.isKept_kind (op : BinaryOp) : op.kind.isKept = true := by
  cases op <;> rfl

theorem UnaryOp.isKept_kind (op : UnaryOp) : op.kind.isKept = true := by
  cases op <;> rfl

namespace Parser

/-- Where such a token stands next, a production that answers has taken tokens from the front of the
input, none of them its end, and those of them that are kept go with what it answers. -/
def Takes {α : Type} (first : TokenKind → Prop) (x : Production α) (R : List Token → α → Prop) :
    Prop :=
  ∀ ts a rest, first (next ts).kind → x ts = .ok (a, rest) →
    ∃ taken, ts = taken ++ rest ∧ (∀ t ∈ taken, t.kind ≠ .eof) ∧ R (kept taken) a

/-- A token of this kind is answered and kept. -/
def Marks (kind : TokenKind) (us : List Token) (t : Token) : Prop :=
  t.kind = kind ∧ us = [t]

/-- No token is kept, whatever is answered. -/
abbrev Nothing {α : Type} : List Token → α → Prop := fun us _ => us = []

/-- Every token may stand next. -/
abbrev Anything : TokenKind → Prop := fun _ => True

namespace Takes

variable {α β : Type} {first first' second : TokenKind → Prop} {x : Production α}
  {f : α → Production β} {g : Production β} {R R' : List Token → α → Prop}
  {S : List Token → β → Prop} {kind : TokenKind}

theorem mono (h : Takes first x R) (hfirst : ∀ kind, first' kind → first kind)
    (hR : ∀ us a, R us a → R' us a) : Takes first' x R' := by
  intro ts a rest hts hx
  obtain ⟨taken, htaken, heof, ha⟩ := h ts a rest (hfirst _ hts) hx
  exact ⟨taken, htaken, heof, hR _ a ha⟩

/-- It need not be known what stands next. -/
theorem anyway (h : Takes Anything x R) : Takes first x R :=
  h.mono (fun _ _ => trivial) fun _ _ h => h

theorem pure {a : α} (h : R [] a) : Takes first (Pure.pure a : Production α) R := by
  intro ts b rest _ hb
  obtain ⟨rfl, rfl⟩ := Prod.mk.inj (Except.ok.inj hb)
  exact ⟨[], rfl, List.forall_mem_nil _, h⟩

theorem unexpected (e : Expected) : Takes first (Parser.unexpected e : Production α) R :=
  fun _ _ _ _ h => nomatch h

theorem throw (e : SyntaxError) : Takes first (MonadExcept.throw e : Production α) R :=
  fun _ _ _ _ h => nomatch h

/-- One production after the other takes what both take. The token that stands next behind the first
may be known. -/
theorem bindNext (hx : Takes first x R)
    (hnext : ∀ ts a rest, x ts = .ok (a, rest) → second (next rest).kind)
    (hf : ∀ us a, R us a → Takes second (f a) fun vs b => S (us ++ vs) b) :
    Takes first (x >>= f) S := by
  intro ts b rest hts hb
  replace hb : (x ts >>= fun r => f r.1 r.2) = .ok (b, rest) := hb
  obtain ⟨⟨a, mid⟩, ha, hrest⟩ := exists_of_bind_ok hb
  obtain ⟨us, rfl, hus, hR⟩ := hx ts a mid hts ha
  obtain ⟨vs, rfl, hvs, hS⟩ := hf _ a hR mid b rest (hnext _ a mid ha) hrest
  refine ⟨us ++ vs, (List.append_assoc us vs rest).symm, ?_, ?_⟩
  · exact List.forall_mem_append.mpr ⟨hus, hvs⟩
  · rwa [kept_append]

theorem bind (hx : Takes first x R)
    (hf : ∀ us a, R us a → Takes Anything (f a) fun vs b => S (us ++ vs) b) :
    Takes first (x >>= f) S :=
  hx.bindNext (fun _ _ _ _ => trivial) hf

/-- No token behind those of the first production is kept. -/
theorem bindDropped (hx : Takes first x R)
    (hf : ∀ us a, R us a → Takes Anything (f a) fun vs b => vs = [] ∧ S us b) :
    Takes first (x >>= f) S := by
  refine hx.bind fun us a ha => (hf us a ha).mono (fun _ h => h) ?_
  rintro _ b ⟨rfl, hb⟩
  rwa [List.append_nil]

theorem map {f : α → β} (hx : Takes first x R) (hf : ∀ us a, R us a → S us (f a)) :
    Takes first (f <$> x) S :=
  hx.bindDropped fun us a ha => pure ⟨rfl, hf us a ha⟩

theorem ite {c : Prop} [Decidable c] {y : Production α} (hx : c → Takes first x R)
    (hy : ¬ c → Takes first y R) : Takes first (if c then x else y) R := by
  by_cases hc : c
  · rw [if_pos hc]
    exact hx hc
  · rw [if_neg hc]
    exact hy hc

/-- What stands next is looked at. -/
theorem peek {f : TokenKind → Production β} (h : ∀ kind, Takes (· = kind) (f kind) S) :
    Takes first (Parser.peek >>= f) S :=
  fun ts b rest _ hb => h (next ts).kind ts b rest rfl hb

/-- The token that stands next is taken. -/
theorem advance_of_ne (hkind : kind ≠ .eof) :
    Takes (· = kind) Parser.advance fun us t => t.kind = kind ∧ us = kept [t] := by
  intro ts t rest hts ht
  obtain ⟨rfl, rfl⟩ := Prod.mk.inj (Except.ok.inj ht)
  cases ts with
  | nil => exact absurd hts.symm hkind
  | cons t ts =>
    refine ⟨[t], rfl, ?_, hts, rfl⟩
    rw [List.forall_mem_singleton]
    exact hts.trans_ne hkind

theorem advance (hkind : kind.isKept = true) : Takes (· = kind) Parser.advance (Marks kind) := by
  refine (advance_of_ne (TokenKind.ne_eof_of_isKept hkind)).mono (fun _ h => h) ?_
  rintro _ t ⟨rfl, rfl⟩
  exact ⟨rfl, kept_cons hkind []⟩

theorem advanceDropped (hkind : kind.divides = true) : Takes (· = kind) Parser.advance Nothing := by
  refine (advance_of_ne (TokenKind.ne_eof_of_divides hkind)).mono (fun _ h => h) ?_
  rintro _ t ⟨rfl, rfl⟩
  exact kept_eq_nil (List.forall_mem_singleton.mpr hkind)

/-- A token of a known kind is taken, if it is there. -/
theorem expected {R : List Token → Token → Prop} (h : Takes (· = kind) Parser.advance R) :
    Takes first (Parser.expect kind) R := by
  refine peek fun k => ite (fun hk => ?_) fun _ => unexpected _
  subst hk
  exact h

theorem expect (hkind : kind.isKept = true) : Takes first (Parser.expect kind) (Marks kind) :=
  expected (advance hkind)

theorem expectDropped (hkind : kind.divides = true) : Takes first (Parser.expect kind) Nothing :=
  expected (advanceDropped hkind)

/-- A production comes first whose tokens are not kept. -/
theorem dropped (hx : Takes first x Nothing) (hf : ∀ a, Takes Anything (f a) S) :
    Takes first (x >>= f) S := by
  refine hx.bind fun us a hus => ?_
  rw [hus]
  exact hf a

/-- A production comes first whose tokens are not kept, and that is not looked at. -/
theorem droppedMark (hx : Takes first x Nothing) (hg : Takes Anything g S) :
    Takes first (do discard x; g) S := by
  rw [discard_bind]
  exact hx.dropped fun _ => hg

/-- A token that is kept comes first. -/
theorem keep {f : Token → Production β} {x : Production Token} (hx : Takes first x (Marks kind))
    (hf : ∀ t, t.kind = kind → Takes Anything (f t) fun us b => S (t :: us) b) :
    Takes first (x >>= f) S := by
  refine hx.bind ?_
  rintro _ t ⟨ht, rfl⟩
  exact hf t ht

/-- A token that is kept and not looked at comes first. -/
theorem keepMark {x : Production Token} (hx : Takes first x (Marks kind))
    (hg : ∀ t, t.kind = kind → Takes Anything g fun us b => S (t :: us) b) :
    Takes first (do discard x; g) S := by
  rw [discard_bind]
  exact hx.keep hg

theorem skip (hkind : kind.divides = true) : Takes first (Parser.skip kind) Nothing := by
  refine peek fun k => ite (fun hk => ?_) fun _ => pure rfl
  subst hk
  exact (advanceDropped hkind).map fun _ _ h => h

theorem skipNewlines : Takes first Parser.skipNewlines Nothing := by
  intro ts a rest _ ha
  obtain ⟨rfl, rfl⟩ := Prod.mk.inj (Except.ok.inj ha)
  have hkind : ∀ t ∈ ts.takeWhile (·.kind = .newline), t.kind = .newline :=
    fun t ht => of_decide_eq_true (List.all_eq_true.mp List.all_takeWhile t ht)
  refine ⟨ts.takeWhile (·.kind = .newline), List.takeWhile_append_dropWhile.symm, ?_, ?_⟩
  · intro t ht
    rw [hkind t ht]
    exact TokenKind.ne_eof_of_divides rfl
  · refine kept_eq_nil fun t ht => ?_
    rw [hkind t ht]
    rfl

theorem peekSecond : Takes first Parser.peekSecond Nothing := by
  intro ts a rest _ ha
  obtain ⟨rfl, rfl⟩ := Prod.mk.inj (Except.ok.inj ha)
  exact ⟨[], rfl, List.forall_mem_nil _, rfl⟩

end Takes

/-! ### Lists -/

section Lists

variable {α β : Type} {close : TokenKind} {item : Production α} {words : α → List Word}
  {S : List Token → β → Prop}

theorem takes_manyUntil (h : Takes Anything item fun us a => Written (words a) us) (bound : Nat) :
    Takes Anything (manyUntil close item bound) fun us as => Written (as.flatMap words) us := by
  induction bound with
  | zero => exact .unexpected _
  | succ bound ih =>
    refine .peek fun kind => .ite (fun _ => .pure .nil) fun _ => .anyway ?_
    refine h.bind fun us a ha => ih.bindDropped fun vs as has => .pure ⟨rfl, ?_⟩
    exact List.rel_append ha has

/-- Behind items stands the token that closes them. -/
theorem next_of_manyUntil (bound : Nat) : ∀ {ts rest : List Token} {as : List α},
    manyUntil close item bound ts = .ok (as, rest) → (next rest).kind = close := by
  induction bound with
  | zero => exact fun h => nomatch h
  | succ bound ih =>
    intro ts rest as h
    rw [manyUntil_succ] at h
    split at h
    · next hclose =>
      obtain ⟨-, rfl⟩ := Prod.mk.inj (Except.ok.inj h)
      exact hclose
    · obtain ⟨⟨a, mid⟩, -, h⟩ := exists_of_bind_ok h
      obtain ⟨⟨bs, rest'⟩, hrest, h⟩ := exists_of_bind_ok h
      obtain ⟨-, rfl⟩ := Prod.mk.inj (Except.ok.inj h)
      exact ih hrest

/-- Items come first, and the token that closes them stands next. -/
theorem takes_items {f : List α → Production β}
    (h : Takes Anything item fun us a => Written (words a) us) (bound : Nat)
    (hf : ∀ us as, Written (as.flatMap words) us →
      Takes (· = close) (f as) fun vs b => S (us ++ vs) b) :
    Takes Anything (manyUntil close item bound >>= f) S := by
  have hnext : ∀ ts as rest, manyUntil close item bound ts = .ok (as, rest) →
      (next rest).kind = close := fun _ _ _ has => next_of_manyUntil bound has
  exact (takes_manyUntil h bound).bindNext hnext hf

end Lists

/-! ### Expressions -/

/-- The tokens that a production takes are read off the node that it answers. -/
abbrev Keeps (x : Production Node) : Prop :=
  Takes Anything x fun us node => Written node.content us

section Expressions

variable {inner operand : Production Node}

theorem kind_of_operator? {level : Nat} {kind : TokenKind} {op : BinaryOp}
    (h : operator? level kind = some op) : op.kind = kind := by
  match level with
  | 0 => cases kind <;> first | (obtain rfl := Option.some.inj h; rfl) | exact nomatch h
  | 1 => cases kind <;> first | (obtain rfl := Option.some.inj h; rfl) | exact nomatch h
  | 2 => cases kind <;> first | (obtain rfl := Option.some.inj h; rfl) | exact nomatch h
  | _ + 3 => exact nomatch h

theorem kind_of_sign? {kind : TokenKind} {op : UnaryOp} (h : sign? kind = some op) :
    op.kind = kind := by
  cases kind <;> first | (obtain rfl := Option.some.inj h; rfl) | exact nomatch h

/-- The operand on the left has been read already. -/
theorem keeps_chainFrom {level : Nat} (h : Keeps operand) (bound : Nat) :
    ∀ {left : Node} {vs : List Token}, Written left.content vs →
      Takes Anything (chainFrom (operator? level) operand bound left)
        fun us node => Written node.content (vs ++ us) := by
  induction bound with
  | zero =>
    intro left vs hleft
    refine .pure ?_
    rwa [List.append_nil]
  | succ bound ih =>
    intro left vs hleft
    refine .peek fun kind => ?_
    cases hop : operator? level kind with
    | none =>
      refine .pure ?_
      rwa [List.append_nil]
    | some op =>
      obtain rfl := kind_of_operator? hop
      refine Takes.keepMark (.advance op.isKept_kind) fun t ht => ?_
      refine h.bind fun us right hright => ?_
      have hbinary : Written (Node.binary op left right).content (vs ++ t :: us) :=
        List.rel_append hleft (.cons ⟨ht, trivial⟩ hright)
      refine (ih hbinary).mono (fun _ h => h) fun ws node hnode => ?_
      rwa [List.append_assoc, List.cons_append] at hnode

theorem keeps_chain (level bound : Nat) (h : Keeps operand) :
    Keeps (chain bound (operator? level) operand) :=
  h.bind fun _ _ hleft => keeps_chainFrom h bound hleft

/-- The induction is on the signs, which are tokens at the front of the input. -/
theorem keeps_signed (h : Keeps operand) : Keeps (signed operand) := by
  intro ts
  induction ts with
  | nil => exact h []
  | cons t ts ih =>
    intro node rest _ hnode
    cases hsign : sign? t.kind with
    | none =>
      rw [signed_of_none (show sign? (next (t :: ts)).kind = none from hsign)] at hnode
      exact h (t :: ts) node rest trivial hnode
    | some op =>
      rw [signed_of_some hsign] at hnode
      obtain ⟨⟨inside, mid⟩, hinside, hnode⟩ := exists_of_bind_ok hnode
      obtain ⟨rfl, rfl⟩ := Prod.mk.inj (Except.ok.inj hnode)
      obtain ⟨taken, rfl, heof, hwritten⟩ := ih inside mid trivial hinside
      have ht := kind_of_sign? hsign
      have hkept : t.kind.isKept = true := ht ▸ op.isKept_kind
      have hne := TokenKind.ne_eof_of_isKept hkept
      refine ⟨t :: taken, rfl, List.forall_mem_cons.mpr ⟨hne, heof⟩, ?_⟩
      rw [kept_cons hkept]
      exact .cons ⟨ht.symm, trivial⟩ hwritten

theorem keeps_argument (h : Keeps inner) : Keeps (argument inner) :=
  h.bindDropped fun _ _ hnode => .dropped (.skip rfl) fun _ => .pure ⟨rfl, hnode⟩

theorem keeps_primary (bound : Nat) (h : Keeps inner) : Keeps (primary bound inner) := by
  refine .peek fun kind => ?_
  split
  · refine .keep (.advance rfl) fun t ht => ?_
    split
    · next x hx => exact .pure (.cons ⟨ht, hx⟩ .nil)
    · exact .throw _
  · exact .keep (.advance rfl) fun t ht => .pure (.cons ⟨ht, rfl⟩ .nil)
  · refine .keep (.advance rfl) fun t ht => .peek fun kind => ?_
    refine .ite (fun hkind => ?_) fun _ => .pure (.cons ⟨ht, rfl⟩ .nil)
    subst hkind
    refine .droppedMark (.advanceDropped rfl) ?_
    refine takes_items (keeps_argument h) bound fun us arguments hall => ?_
    refine .droppedMark (.advanceDropped rfl) (.pure ?_)
    rw [← contents_eq_flatMap] at hall
    rw [List.append_nil]
    exact .cons ⟨ht, rfl⟩ hall
  · refine .droppedMark (.advanceDropped rfl) (h.bindDropped fun us node hnode => ?_)
    exact .droppedMark (.expectDropped rfl) (.pure ⟨rfl, hnode⟩)
  · exact .unexpected _

theorem keeps_expression (bound depth : Nat) : Keeps (expression bound depth) := by
  induction depth with
  | zero => exact .unexpected _
  | succ depth ih =>
    -- three levels of operators, and signs in front of what is inside them
    have hsigned := keeps_signed (keeps_primary bound ih)
    exact keeps_chain 0 bound (keeps_chain 1 bound (keeps_chain 2 bound hsigned))

end Expressions

/-! ### Statements -/

section Statements

variable {bound : Nat} {value inner : Production Node} {t : Token}

theorem keeps_line (h : Keeps inner) : Keeps (line inner) :=
  h.bindDropped fun _ _ hnode => .dropped .skipNewlines fun _ => .pure ⟨rfl, hnode⟩

theorem takes_block (h : Keeps inner) :
    Takes Anything (block bound inner) fun us body => Written (braced (contents body)) us := by
  refine .keepMark (.expect rfl) fun t ht => .dropped .skipNewlines fun _ => ?_
  refine takes_items (keeps_line h) bound fun us body hbody => ?_
  refine .keepMark (.advance rfl) fun u hu => .pure ?_
  rw [← contents_eq_flatMap] at hbody
  exact .cons ⟨ht, trivial⟩ (List.rel_append hbody (.cons ⟨hu, trivial⟩ .nil))

theorem takes_parameter :
    Takes Anything parameter fun us name => Written [Word.name name] us := by
  refine .keep (.expect rfl) fun t ht => ?_
  exact .dropped (.skip rfl) fun _ => .pure (.cons ⟨ht, rfl⟩ .nil)

theorem takes_definition (ht : t.kind = .funcWord) (h : Keeps inner) :
    Takes Anything (definition bound inner) fun us node => Written node.content (t :: us) := by
  refine .keep (.expect rfl) fun name hname => ?_
  refine .droppedMark (.expectDropped rfl) ?_
  refine takes_items takes_parameter bound fun us parameters hparameters => ?_
  refine .droppedMark (.advanceDropped rfl) ?_
  refine (takes_block h).bindDropped fun vs body hbody => .pure ⟨rfl, ?_⟩
  rw [← List.map_eq_flatMap] at hparameters
  exact .cons ⟨ht, trivial⟩ (.cons ⟨hname, rfl⟩ (List.rel_append hparameters hbody))

variable (hvalue : Keeps value)

include hvalue

theorem keeps_condition : Keeps (condition value) := by
  refine .droppedMark (.expectDropped rfl) (hvalue.bindDropped fun us node hnode => ?_)
  exact .droppedMark (.expectDropped rfl) (.pure ⟨rfl, hnode⟩)

theorem keeps_assignment : Keeps (assignment value) := by
  refine .dropped (.skip rfl) fun _ => ?_
  refine .keep (.expect rfl) fun name hname => ?_
  refine .keepMark (.expect rfl) fun t ht => ?_
  refine hvalue.bindDropped fun us node hnode => .dropped (.skip rfl) fun _ => .pure ⟨rfl, ?_⟩
  exact .cons ⟨hname, rfl⟩ (.cons ⟨ht, trivial⟩ hnode)

theorem keeps_bare : Keeps (bare value) :=
  hvalue.bindDropped fun _ _ hnode => .dropped (.skip rfl) fun _ => .pure ⟨rfl, hnode⟩

theorem takes_print (ht : t.kind = .printWord) :
    Takes Anything (print value) fun us node => Written node.content (t :: us) := by
  refine (keeps_condition hvalue).bindDropped fun us node hnode => ?_
  refine .dropped (.skip rfl) fun _ => .pure ⟨rfl, ?_⟩
  exact .cons ⟨ht, trivial⟩ hnode

theorem takes_ret (ht : t.kind = .returnWord) :
    Takes Anything (ret value) fun us node => Written node.content (t :: us) := by
  -- a return has no value, or one that is read off
  have hend : ∀ {first : TokenKind → Prop} {result : Production (Option Node)},
      Takes first result (fun us r => Written (Node.ret r).content (t :: us)) →
      Takes first (do let r ← result; skip .semicolon; return Node.ret r)
        fun us node => Written node.content (t :: us) :=
    fun h => h.bindDropped fun _ _ hr => .dropped (.skip rfl) fun _ => .pure ⟨rfl, hr⟩
  refine .peek fun kind => .ite (fun _ => hend (.pure (.cons ⟨ht, trivial⟩ .nil))) fun _ => hend ?_
  exact hvalue.anyway.map fun us node hnode => .cons ⟨ht, trivial⟩ hnode

theorem takes_loop (ht : t.kind = .whileWord) (h : Keeps inner) :
    Takes Anything (loop bound value inner) fun us node => Written node.content (t :: us) := by
  refine (keeps_condition hvalue).bind fun us test htest => ?_
  refine (takes_block h).bindDropped fun vs body hbody => .pure ⟨rfl, ?_⟩
  exact .cons ⟨ht, trivial⟩ (List.rel_append htest hbody)

theorem takes_branch (ht : t.kind = .ifWord) (h : Keeps inner) :
    Takes Anything (branch bound value inner) fun us node => Written node.content (t :: us) := by
  refine (keeps_condition hvalue).bind fun us test htest => ?_
  refine (takes_block h).bind fun vs thenBody hthen => .peek fun kind => ?_
  have hfirst := List.rel_append htest hthen
  refine .ite (fun hkind => ?_) fun _ => .pure ?_
  · subst hkind
    refine .keepMark (.advance rfl) fun u hu => ?_
    refine (takes_block h).bindDropped fun ws elseBody helse => .pure ⟨rfl, ?_⟩
    have hsecond : Written (.mark .elseWord :: braced (contents elseBody)) (u :: ws) :=
      .cons ⟨hu, trivial⟩ helse
    rw [← List.append_assoc]
    exact .cons ⟨ht, trivial⟩ (List.rel_append hfirst hsecond)
  · rw [List.append_nil]
    exact .cons ⟨ht, trivial⟩ hfirst

theorem keeps_statementOver (h : Keeps inner) : Keeps (statementOver bound value inner) := by
  refine .dropped .skipNewlines fun _ => .peek fun kind => ?_
  split
  · exact (keeps_assignment hvalue).anyway
  · exact .keepMark (.advance rfl) fun t ht => takes_definition ht h
  · exact .keepMark (.advance rfl) fun t ht => takes_branch hvalue ht h
  · exact .keepMark (.advance rfl) fun t ht => takes_loop hvalue ht h
  · exact .keepMark (.advance rfl) fun t ht => takes_ret hvalue ht
  · exact .keepMark (.advance rfl) fun t ht => takes_print hvalue ht
  · refine .dropped .peekSecond fun kind => ?_
    exact .ite (fun _ => keeps_assignment hvalue) fun _ => keeps_bare hvalue
  · exact (keeps_bare hvalue).anyway

end Statements

theorem keeps_statement (bound depth : Nat) : Keeps (statement bound depth) := by
  induction depth with
  | zero => exact .unexpected _
  | succ depth ih => exact keeps_statementOver (keeps_expression bound bound) ih

/-! ### Programs -/

theorem takes_program (bound : Nat) :
    Takes Anything (program bound) fun us p => Written (contents p) us := by
  refine .dropped .skipNewlines fun _ => ?_
  refine (takes_manyUntil (keeps_line (keeps_statement bound bound)) bound).mono
    (fun _ h => h) fun us p hp => ?_
  rwa [contents_eq_flatMap]

theorem next_of_program {bound : Nat} {ts rest : List Token} {p : Program}
    (h : program bound ts = .ok (p, rest)) : (next rest).kind = .eof :=
  next_of_manyUntil bound h

theorem beforeEnd_append {taken rest : List Token} (htaken : ∀ t ∈ taken, t.kind ≠ .eof)
    (hrest : (next rest).kind = .eof) : beforeEnd (taken ++ rest) = taken := by
  rw [beforeEnd, List.takeWhile_append_of_pos (by simpa using htaken)]
  cases rest with
  | nil => exact List.append_nil _
  | cons t ts =>
    replace hrest : t.kind = .eof := hrest
    rw [List.takeWhile_cons_of_neg (by simpa using hrest), List.append_nil]

/-- An end of the input that is added behind all tokens adds none before it. -/
theorem beforeEnd_closed (ts : List Token) : beforeEnd (closed ts) = beforeEnd ts := by
  unfold closed
  split
  · next h =>
    rw [List.getLast?_eq_none_iff.mp h]
    rfl
  · split
    · rfl
    · rw [beforeEnd, beforeEnd, List.takeWhile_append]
      split
      · next h =>
        rw [(List.takeWhile_prefix _).eq_of_length h]
        exact List.append_nil ts
      · rfl

end Parser

/-- The tokens that are kept, up to the end of the input, are those that are read off the program,
each of them once and in the same order. -/
theorem written_of_parse {ts : List Token} {program : Program} (h : parse ts = .ok program) :
    Parser.Written (contents program) (kept (beforeEnd ts)) := by
  obtain ⟨rest, hrun⟩ := exists_program_of_parse h
  obtain ⟨taken, hclosed, heof, hwritten⟩ := Parser.takes_program _ _ program rest trivial hrun
  have htaken := Parser.beforeEnd_append heof (Parser.next_of_program hrun)
  rw [← hclosed, Parser.beforeEnd_closed] at htaken
  rwa [htaken]

/-- Statements that run together on a line, arguments without a comma, and tokens behind the end of
the input. -/
theorem written_of_parse_of_one_line :
    let ts : List Token := [⟨.letWord, "let", ⟨1, 1⟩⟩, ⟨.identifier, "s", ⟨1, 5⟩⟩,
      ⟨.assign, "=", ⟨1, 7⟩⟩, ⟨.minus, "-", ⟨1, 9⟩⟩, ⟨.identifier, "f", ⟨1, 10⟩⟩,
      ⟨.leftParen, "(", ⟨1, 11⟩⟩, ⟨.string, "a", ⟨1, 12⟩⟩, ⟨.identifier, "b", ⟨1, 16⟩⟩,
      ⟨.rightParen, ")", ⟨1, 17⟩⟩, ⟨.ifWord, "if", ⟨1, 19⟩⟩, ⟨.leftParen, "(", ⟨1, 22⟩⟩,
      ⟨.identifier, "s", ⟨1, 23⟩⟩, ⟨.rightParen, ")", ⟨1, 24⟩⟩, ⟨.leftBrace, "\x7b", ⟨1, 26⟩⟩,
      ⟨.rightBrace, "\x7d", ⟨1, 27⟩⟩, ⟨.elseWord, "else", ⟨1, 29⟩⟩, ⟨.leftBrace, "\x7b", ⟨1, 34⟩⟩,
      ⟨.returnWord, "return", ⟨1, 36⟩⟩, ⟨.rightBrace, "\x7d", ⟨1, 43⟩⟩,
      ⟨.printWord, "print", ⟨1, 45⟩⟩, ⟨.leftParen, "(", ⟨1, 50⟩⟩, ⟨.identifier, "s", ⟨1, 51⟩⟩,
      ⟨.rightParen, ")", ⟨1, 52⟩⟩, ⟨.eof, "", ⟨1, 53⟩⟩, ⟨.plus, "+", ⟨2, 1⟩⟩, ⟨.eof, "", ⟨2, 2⟩⟩]
    let program : Program := [
      .assign "s" (.unary .minus (.call "f" [.string "a", .identifier "b"])),
      .branch (.identifier "s") [] (some [.ret none]), .print (.identifier "s")]
    parse ts = .ok program ∧ Parser.Written (contents program) (kept (beforeEnd ts)) := by
  intro ts program
  have hrun : parse ts = .ok program := rfl
  exact ⟨hrun, written_of_parse hrun⟩

end StackScript
