import StackScript.Proofs.Draft
import StackScript.Proofs.ErrorPlaces
import StackScript.Proofs.Listings
import StackScript.Proofs.TokenContent

/-!
Listings of the units that sources compile to.

A listing shows the names of variables and of functions as they are. In the unit of a source each of
them was read off a token, so that its characters are those of names, and no line feed is among them.

* `Word.Names`, `Instruction.Names`: a property of the names in words and in code;
* `names_draft`, `names_definitions`: what holds of the names in a program holds of those in its code
  and in its functions;
* `names_of_parse`, `oneLine_of_tokenText`: the names in a program are texts of tokens, and stay on
  their lines;
* `listing_of_sources`: what the listings of two sources tell about them.
-/

namespace StackScript

/-! ### Names in code -/

/-- A property of the name, if the word is one. -/
def Word.Names (P : String → Prop) : Word → Prop
  | .name s => P s
  | _ => True

/-- A property of the variable that an instruction is about. -/
def Instruction.Names (P : String → Prop) : Instruction → Prop
  | loadVar name => P name
  | storeVar name => P name
  | _ => True

/-- A property of the variable that the instruction of a draft is about. -/
def Draft.Names (P : String → Prop) : Draft → Prop
  | .literal _ => True
  | .plain i => i.Names P

section Names

variable {P : String → Prop}

theorem Draft.Stands.names {pool : ConstantPool} {d : Draft} {i : Instruction}
    (h : d.Stands pool i) (hd : d.Names P) : i.Names P := by
  cases d with
  | literal c =>
    cases i with
    | loadConst k => trivial
    | _ => exact h.elim
  | plain j => exact h ▸ hd

mutual

/-- What holds of all names that are read off a node holds of the variables in its code. -/
theorem names_draft (base : Nat) : ∀ node : Node, (∀ w ∈ node.content, w.Names P) →
    ∀ d ∈ draft base node, d.Names P
  | .number x, _ => List.forall_mem_singleton.mpr trivial
  | .string s, _ => List.forall_mem_singleton.mpr trivial
  | .identifier name, h => by
    have hname : P name := h (.name name) (List.mem_singleton_self _)
    exact List.forall_mem_singleton.mpr hname
  | .binary op left right, h => by
    simp only [Node.content, List.forall_mem_append, List.forall_mem_cons] at h
    obtain ⟨hl, -, hr⟩ := h
    simp only [draft, List.forall_mem_append, List.forall_mem_singleton]
    exact ⟨⟨names_draft base left hl, names_draft _ right hr⟩, trivial⟩
  | .unary op operand, h => by
    simp only [draft, List.forall_mem_append, List.forall_mem_singleton]
    exact ⟨names_draft base operand (List.forall_mem_cons.mp h).2, trivial⟩
  | .assign name value, h => by
    simp only [Node.content, List.forall_mem_cons] at h
    obtain ⟨hname, -, hvalue⟩ := h
    simp only [draft, List.forall_mem_append, List.forall_mem_singleton]
    exact ⟨names_draft base value hvalue, hname⟩
  | .call name arguments, h => by
    simp only [draft, List.forall_mem_append, List.forall_mem_singleton]
    exact ⟨names_draftAll base arguments (List.forall_mem_cons.mp h).2, trivial⟩
  | .define name parameters body, _ => List.forall_mem_nil _
  | .branch condition thenBody none, h => by
    simp only [Node.content, braced, List.forall_mem_append, List.forall_mem_cons] at h
    obtain ⟨⟨-, hcondition⟩, ⟨-, hthen⟩, -⟩ := h
    simp only [draft, List.forall_mem_append, List.forall_mem_cons]
    exact ⟨⟨names_draft base condition hcondition, trivial, names_draftAll _ thenBody hthen⟩,
      trivial, List.forall_mem_nil _⟩
  | .branch condition thenBody (some elseBody), h => by
    simp only [Node.content, braced, List.forall_mem_append, List.forall_mem_cons] at h
    obtain ⟨⟨⟨-, hcondition⟩, ⟨-, hthen⟩, -⟩, -, ⟨-, helse⟩, -⟩ := h
    simp only [draft, List.forall_mem_append, List.forall_mem_cons]
    exact ⟨⟨names_draft base condition hcondition, trivial, names_draftAll _ thenBody hthen⟩,
      trivial, names_draftAll _ elseBody helse⟩
  | .loop condition body, h => by
    simp only [Node.content, braced, List.forall_mem_append, List.forall_mem_cons] at h
    obtain ⟨⟨-, hcondition⟩, ⟨-, hbody⟩, -⟩ := h
    simp only [draft, List.forall_mem_append, List.forall_mem_cons]
    exact ⟨⟨names_draft base condition hcondition, trivial, names_draftAll _ body hbody⟩,
      trivial, List.forall_mem_nil _⟩
  | .ret none, _ => List.forall_mem_cons.mpr ⟨trivial, List.forall_mem_singleton.mpr trivial⟩
  | .ret (some value), h => by
    simp only [draft, List.forall_mem_append, List.forall_mem_singleton]
    exact ⟨names_draft base value (List.forall_mem_cons.mp h).2, trivial⟩
  | .print value, h => by
    simp only [draft, List.forall_mem_append, List.forall_mem_singleton]
    exact ⟨names_draft base value (List.forall_mem_cons.mp h).2, trivial⟩

theorem names_draftAll (base : Nat) : ∀ nodes : List Node, (∀ w ∈ contents nodes, w.Names P) →
    ∀ d ∈ draftAll base nodes, d.Names P
  | [], _ => List.forall_mem_nil _
  | node :: nodes, h => by
    rw [contents, List.forall_mem_append] at h
    rw [draftAll, List.forall_mem_append]
    exact ⟨names_draft base node h.1, names_draftAll _ nodes h.2⟩

end

mutual

/-- What holds of all names that are read off a node holds of the names of the functions that it
defines, and of the names in their bodies. -/
theorem names_definitions : ∀ node : Node, (∀ w ∈ node.content, w.Names P) →
    ∀ d ∈ node.definitions, P d.name ∧ ∀ w ∈ contents d.body, w.Names P
  | .number x, _ => List.forall_mem_nil _
  | .string s, _ => List.forall_mem_nil _
  | .identifier name, _ => List.forall_mem_nil _
  | .binary op left right, h => by
    simp only [Node.content, List.forall_mem_append, List.forall_mem_cons] at h
    obtain ⟨hl, -, hr⟩ := h
    rw [Node.definitions, List.forall_mem_append]
    exact ⟨names_definitions left hl, names_definitions right hr⟩
  | .unary op operand, h => names_definitions operand (List.forall_mem_cons.mp h).2
  | .assign name value, h => by
    simp only [Node.content, List.forall_mem_cons] at h
    exact names_definitions value h.2.2
  | .call name arguments, h => names_definitionsAll arguments (List.forall_mem_cons.mp h).2
  | .define name parameters body, h => by
    simp only [Node.content, braced, List.cons_append, List.forall_mem_append,
      List.forall_mem_cons] at h
    obtain ⟨-, hname, -, -, hbody, -⟩ := h
    rw [Node.definitions, List.forall_mem_cons]
    exact ⟨⟨hname, hbody⟩, names_definitionsAll body hbody⟩
  | .branch condition thenBody none, h => by
    simp only [Node.content, braced, List.forall_mem_append, List.forall_mem_cons] at h
    obtain ⟨⟨-, hcondition⟩, ⟨-, hthen⟩, -⟩ := h
    rw [Node.definitions, List.forall_mem_append]
    exact ⟨names_definitions condition hcondition, names_definitionsAll thenBody hthen⟩
  | .branch condition thenBody (some elseBody), h => by
    simp only [Node.content, braced, List.forall_mem_append, List.forall_mem_cons] at h
    obtain ⟨⟨⟨-, hcondition⟩, ⟨-, hthen⟩, -⟩, -, ⟨-, helse⟩, -⟩ := h
    rw [Node.definitions, List.forall_mem_append, List.forall_mem_append]
    exact ⟨⟨names_definitions condition hcondition, names_definitionsAll thenBody hthen⟩,
      names_definitionsAll elseBody helse⟩
  | .loop condition body, h => by
    simp only [Node.content, braced, List.forall_mem_append, List.forall_mem_cons] at h
    obtain ⟨⟨-, hcondition⟩, ⟨-, hbody⟩, -⟩ := h
    rw [Node.definitions, List.forall_mem_append]
    exact ⟨names_definitions condition hcondition, names_definitionsAll body hbody⟩
  | .ret none, _ => List.forall_mem_nil _
  | .ret (some value), h => names_definitions value (List.forall_mem_cons.mp h).2
  | .print value, h => names_definitions value (List.forall_mem_cons.mp h).2

theorem names_definitionsAll : ∀ nodes : List Node, (∀ w ∈ contents nodes, w.Names P) →
    ∀ d ∈ definitionsAll nodes, P d.name ∧ ∀ w ∈ contents d.body, w.Names P
  | [], _ => List.forall_mem_nil _
  | node :: nodes, h => by
    rw [contents, List.forall_mem_append] at h
    rw [definitionsAll, List.forall_mem_append]
    exact ⟨names_definitions node h.1, names_definitionsAll nodes h.2⟩

end

/-- The variables in settled code. -/
theorem names_settle {nodes : List Node} (h : ∀ w ∈ contents nodes, w.Names P) :
    ∀ i ∈ (settle [] (draftAll 0 nodes)).1, i.Names P := by
  intro i hi
  obtain ⟨d, hd, hstands⟩ := exists_draft_of_mem (stands_settle (draftAll 0 nodes) []) hi
  exact hstands.names (names_draftAll 0 nodes h d hd)

theorem names_of_written {ws : List Word} {ts : List Token} (h : Parser.Written ws ts)
    (hts : ∀ t ∈ ts, t.kind = .identifier → P t.lexeme) : ∀ w ∈ ws, w.Names P := by
  induction h with
  | nil => exact List.forall_mem_nil _
  | @cons w t ws ts hspells _ ih =>
    obtain ⟨ht, hts⟩ := List.forall_mem_cons.mp hts
    refine List.forall_mem_cons.mpr ⟨?_, ih hts⟩
    cases w with
    | name s =>
      obtain ⟨hkind, hlexeme⟩ := hspells
      exact (hlexeme : t.lexeme = s) ▸ ht hkind
    | _ => trivial

/-- The names in a program are texts of tokens. -/
theorem names_contents_of_parse {ts : List Token} {program : Program} (h : parse ts = .ok program)
    (hts : ∀ t ∈ Parser.closed ts, t.kind = .identifier → P t.lexeme) :
    ∀ w ∈ contents program, w.Names P := by
  obtain ⟨rest, hrun⟩ := exists_program_of_parse h
  obtain ⟨taken, hclosed, -, hwritten⟩ := Parser.takes_program _ _ program rest trivial hrun
  refine names_of_written hwritten fun t ht => hts t ?_
  rw [hclosed]
  exact List.mem_append_left _ (List.mem_of_mem_filter ht)

end Names

/-! ### Names in a source -/

/-- No character of a name ends a line. -/
theorem oneLine_of_tokenText {kind : TokenKind} {lexeme : String} {text rest : List Char}
    (h : TokenText kind lexeme text rest) (hkind : kind = .identifier) : OneLine lexeme := by
  subst hkind
  cases h with
  | symbol h => cases h
  | @word _ c text _ hfirst htext =>
    intro hmem
    rw [String.toList_ofList, List.mem_cons] at hmem
    obtain rfl | hmem := hmem
    · cases hfirst
    · cases htext _ hmem

theorem oneLine_of_token {mode : LexMode} {source : String} {lexed : Lexed} {t : Token}
    (h : tokenize mode source = .ok lexed) (ht : t ∈ lexed.tokens.toList)
    (hkind : t.kind = .identifier) : OneLine t.lexeme := by
  obtain ⟨before, rest, -, -, ⟨heof, -⟩ | ⟨text, more, -, htext⟩⟩ := place_of_token h ht
  · exact nomatch hkind.symm.trans heof
  · exact oneLine_of_tokenText htext hkind

/-- A source with a program has tokens, and the program is parsed from them. -/
theorem exists_tokens_of_programOf {mode : LexMode} {source : String} {program : Program}
    (h : (Source.programOf mode source).1 = .ok program) :
    ∃ lexed, tokenize mode source = .ok lexed ∧ parse lexed.tokens.toList = .ok program := by
  rw [programOf_eq] at h
  cases htokens : tokenize mode source with
  | error e =>
    rw [htokens] at h
    cases h
  | ok lexed =>
    rw [htokens] at h
    replace h : (parse lexed.tokens.toList).mapError ScriptError.syntactic = .ok program := h
    cases hparse : parse lexed.tokens.toList with
    | error e =>
      rw [hparse] at h
      cases h
    | ok program' =>
      rw [hparse] at h
      obtain rfl := Except.ok.inj h
      exact ⟨lexed, rfl, hparse⟩

/-- The unit of a source is that of its program. -/
theorem exists_program_of_unit {s : Source} {u : BytecodeUnit} {notices : List Notice}
    (h : s.unit = (.ok u, notices)) :
    ∃ program, (Source.programOf s.mode s.text).1 = .ok program ∧
      u = compile (unitName s.filename) program := by
  rw [Source.unit, Source.program] at h
  split at h
  · next program notices hprogram =>
    cases h
    exact ⟨program, by rw [hprogram], rfl⟩
  · cases h

/-- The names in the program of a source stay on their lines. -/
theorem oneLine_of_programOf {mode : LexMode} {source : String} {program : Program}
    (h : (Source.programOf mode source).1 = .ok program) :
    ∀ w ∈ contents program, w.Names OneLine := by
  obtain ⟨lexed, htokens, hparse⟩ := exists_tokens_of_programOf h
  obtain ⟨ts, hended, -⟩ := tokenize_ended htokens
  have hclosed : Parser.closed lexed.tokens.toList = lexed.tokens.toList := by
    rw [hended, Parser.closed_append_eof ts rfl]
  refine names_contents_of_parse hparse fun t ht hkind => ?_
  rw [hclosed] at ht
  exact oneLine_of_token htokens ht hkind

/-! ### Listings -/

/-- An instruction stays on its line if its variable does. -/
theorem Instruction.oneLine_shown {i : Instruction} (h : i.Names OneLine) : OneLine i.shown := by
  have hnumber : ∀ n : Nat, OneLine s!" {n}" :=
    fun n => oneLine_append.mpr ⟨by simp [OneLine, toString], oneLine_toString n⟩
  rw [shown, oneLine_append]
  refine ⟨oneLine_opcode i, ?_⟩
  cases i with
  | loadConst k => exact hnumber k
  | loadVar name => exact oneLine_append.mpr ⟨by simp [OneLine], h⟩
  | storeVar name => exact oneLine_append.mpr ⟨by simp [OneLine], h⟩
  | call name arity =>
    simp only [operands, oneLine_append]
    exact ⟨⟨by simp [OneLine], oneLine_quoted name⟩,
      ⟨by simp [OneLine, toString], oneLine_toString arity⟩, by simp [OneLine, toString]⟩
  | jump target => exact hnumber target
  | jumpIfFalse target => exact hnumber target
  | _ => simp [operands, OneLine]

theorem namesOnLines_compile (name : String) {program : Program}
    (h : ∀ w ∈ contents program, w.Names OneLine) : (compile name program).NamesOnLines := by
  have hcode : ∀ {nodes : List Node}, (∀ w ∈ contents nodes, w.Names OneLine) →
      ∀ i ∈ (settle [] (draftAll 0 nodes)).1, OneLine i.shown :=
    fun h i hi => Instruction.oneLine_shown (names_settle h i hi)
  constructor
  · rw [compile_eq]
    exact hcode h
  · intro f hf
    obtain ⟨d, hd, rfl⟩ := exists_definition_of_function hf
    obtain ⟨hname, hbody⟩ := names_definitionsAll program h d hd
    refine ⟨hname, ?_⟩
    rw [FunctionDef.compiled, compileBody_eq]
    exact hcode hbody

/-- Sources whose units have one listing have the same code in them, the same functions in the same
order, and constants that differ only in numbers with one text; and such units have one listing. -/
theorem listing_of_sources {s₁ s₂ : Source} {u₁ u₂ : BytecodeUnit} {notices₁ notices₂ : List Notice}
    (h₁ : s₁.unit = (.ok u₁, notices₁)) (h₂ : s₂.unit = (.ok u₂, notices₂)) :
    u₁.listing = u₂.listing ↔ u₁.SameListing u₂ := by
  obtain ⟨program₁, hprogram₁, rfl⟩ := exists_program_of_unit h₁
  obtain ⟨program₂, hprogram₂, rfl⟩ := exists_program_of_unit h₂
  exact BytecodeUnit.listing_eq_iff (namesOnLines_compile _ (oneLine_of_programOf hprogram₁))
    (namesOnLines_compile _ (oneLine_of_programOf hprogram₂))

/-- A text that looks like the end of a constant and the line of another one. -/
theorem listing_of_sources_of_two :
    let s₁ : Source := { text := "print(\"a'\n  1: 'b\")", filename := "-" }
    let s₂ : Source := { text := "print(\"a\") print(\"b\")", filename := "-" }
    let u₁ := compile "<stdin>" [.print (.string "a'\n  1: 'b")]
    let u₂ := compile "<stdin>" [.print (.string "a"), .print (.string "b")]
    s₁.unit = (.ok u₁, [.compiledUnit "<stdin>" 2 1 0]) ∧
      s₂.unit = (.ok u₂, [.compiledUnit "<stdin>" 4 2 0]) ∧ u₁.listing ≠ u₂.listing := by
  intro s₁ s₂ u₁ u₂
  have hprogram₁ : s₁.program = (.ok [.print (.string "a'\n  1: 'b")], []) := by cbv
  have hprogram₂ : s₂.program = (.ok [.print (.string "a"), .print (.string "b")], []) := by cbv
  have h₁ : s₁.unit = (.ok u₁, [.compiledUnit "<stdin>" 2 1 0]) := by
    rw [Source.unit, hprogram₁]
    rfl
  have h₂ : s₂.unit = (.ok u₂, [.compiledUnit "<stdin>" 4 2 0]) := by
    rw [Source.unit, hprogram₂]
    rfl
  refine ⟨h₁, h₂, fun h => ?_⟩
  cases ((listing_of_sources h₁ h₂).mp h).code

end StackScript
