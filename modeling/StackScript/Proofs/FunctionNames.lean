import StackScript.Proofs.Draft
import StackScript.Proofs.Sessions
import StackScript.Proofs.ScopeDiscipline

/-!
Which function a name stands for.

A run binds the name of a function in the scope that it has come to. A definition in a body is
therefore seen in one call only, and a name that is defined at the top keeps its function until the
top binds it again. A unit has one table for all functions: those inside bodies are moved into it
with the others, and the last definition of a name takes the entry, wherever it stands.

* `Node.binds`, `bindsAll`: the names that nodes bind in the scope that they run in;
* `keepsName_execute`: whatever does not bind a name leaves it as it is, also where it calls
  functions that do;
* `find?_functions_compile`: the entry of a name is the body of its last definition;
* `functions_compile_flat`: the table of a unit, filled by one visit to all definitions;
* `DefinesDirectly`, `lastNamed_definitionsAll`: programs in which definitions are not inside
  branches and loops, and what comes last in them;
* `entry_of_last_definition`: what a name stands for in the unit and at the top of a run;
* `entry_of_nested_definition`: the two need not be the same.
-/

namespace StackScript

/-! ### Names in a run -/

mutual

/-- The names that a node binds in the scope that it runs in. -/
def Node.binds : Node → List String
  | .number _ => []
  | .string _ => []
  | .identifier _ => []
  | .binary _ left right => left.binds ++ right.binds
  | .unary _ operand => operand.binds
  | .assign name value => name :: value.binds
  | .call _ arguments => bindsAll arguments
  | .define name _ _ => [name]
  | .branch condition thenBody none => condition.binds ++ bindsAll thenBody
  | .branch condition thenBody (some elseBody) =>
    condition.binds ++ bindsAll thenBody ++ bindsAll elseBody
  | .loop condition body => condition.binds ++ bindsAll body
  | .ret none => []
  | .ret (some value) => value.binds
  | .print value => value.binds

/-- The names that nodes bind in the scope that they run in. -/
def bindsAll : List Node → List String
  | [] => []
  | node :: nodes => node.binds ++ bindsAll nodes

end

theorem not_mem_binds {name : String} {nodes : List Node} (h : name ∉ bindsAll nodes) :
    ∀ node ∈ nodes, name ∉ node.binds := by
  induction nodes with
  | nil => exact fun node hnode => absurd hnode List.not_mem_nil
  | cons node nodes ih =>
    rw [bindsAll, List.mem_append, not_or] at h
    exact List.forall_mem_cons.mpr ⟨h.1, ih h.2⟩

theorem Environment.innermost_set (env : Environment) (name : String) (value : Value) :
    (env.set name value).innermost = env.innermost.insert name value := by
  obtain ⟨globals, calls⟩ := env
  cases calls <;> rfl

/-- What the innermost scope says comes first. -/
theorem Environment.find?_of_innermost {env : Environment} {name : String} {value : Value}
    (h : env.innermost.find? name = some value) : env.find? name = some value := by
  obtain ⟨globals, calls⟩ := env
  cases calls with
  | nil => exact h
  | cons scope calls =>
    show (scope.find? name <|> globals.find? name) = some value
    rw [show scope.find? name = some value from h]
    rfl

/-- The innermost scope has the same value for the name. -/
def KeepsName (name : String) (m m' : Machine) : Prop :=
  m'.environment.innermost.find? name = m.environment.innermost.find? name

theorem compositional_keepsName (name : String) : Compositional (KeepsName name) where
  refl _ := rfl
  trans h h' := h'.trans h

theorem keepsName_assign {name bound : String} (h : name ≠ bound) (value : Value) :
    Obeys (KeepsName name) (Machine.assign bound value) := by
  intro m
  show (m.environment.set bound value).innermost.find? name = _
  rw [Environment.innermost_set, Table.find?_insert, if_neg (Ne.symm h)]

theorem keepsName_printLine (name text : String) :
    Obeys (KeepsName name) (Machine.printLine text) := by
  intro m
  rw [KeepsName, stateAfter_printLine]

/-- The induction is on the fuel, which the nodes inside one run with less of. Bodies of functions
are not among these: whatever they bind is gone when the call is over. -/
theorem keepsName_execute (limit fuel : Nat) (name : String) : ∀ node : Node, name ∉ node.binds →
    Obeys (KeepsName name) (execute limit fuel node) := by
  have hc := compositional_keepsName name
  induction fuel with
  | zero => exact fun node _ => hc.throw _
  | succ fuel ih =>
    have hblock : ∀ nodes, name ∉ bindsAll nodes → ∀ last,
        Obeys (KeepsName name) (Machine.block (execute limit fuel) last nodes) := fun nodes h =>
      hc.block nodes fun node hnode => ih node (not_mem_binds h node hnode)
    intro node h
    cases node with
    | number x => exact hc.pure _
    | string s => exact hc.pure _
    | identifier name => exact hc.bind (hc.lookup name) fun v => hc.pure _
    | binary op left right =>
      rw [Node.binds, List.mem_append, not_or] at h
      refine hc.bind (hc.evaluate (ih left h.1)) fun l => ?_
      refine hc.bind (hc.evaluate (ih right h.2)) fun r => ?_
      exact hc.bind (hc.lift (op.apply l r)) fun v => hc.pure _
    | unary op operand =>
      refine hc.bind (hc.evaluate (ih operand h)) fun v => ?_
      exact hc.bind (hc.lift (op.apply v)) fun v => hc.pure _
    | assign bound value =>
      rw [Node.binds, List.mem_cons, not_or] at h
      refine hc.bind (hc.evaluate (ih value h.2)) fun v => ?_
      exact hc.bind (keepsName_assign h.1 v) fun _ => hc.pure _
    | call callee arguments =>
      refine hc.bind (hc.call (fun he hk => ?_) limit fuel callee fun argument hargument => ?_)
        fun v => hc.pure _
      · rw [KeepsName, he]
        exact hk
      · exact ih argument (not_mem_binds h argument hargument)
    | define bound parameters body =>
      have hbound : name ≠ bound := fun he => h (List.mem_singleton.mpr he)
      refine hc.bind (fun m => rfl) fun v => ?_
      exact hc.bind (keepsName_assign hbound v) fun _ => hc.pure _
    | branch condition thenBody elseBody =>
      cases elseBody with
      | none =>
        rw [Node.binds, List.mem_append, not_or] at h
        refine hc.bind (hc.evaluate (ih condition h.1)) fun v => ?_
        exact .ite (hblock thenBody h.2 _) (hc.pure _)
      | some elseBody =>
        rw [Node.binds, List.mem_append, List.mem_append, not_or, not_or] at h
        refine hc.bind (hc.evaluate (ih condition h.1.1)) fun v => ?_
        exact .ite (hblock thenBody h.1.2 _) (hblock elseBody h.2 _)
    | loop condition body =>
      rw [Node.binds, List.mem_append, not_or] at h
      exact hc.repeatWhile ((hc.evaluate (ih condition h.1)).map _) (hblock body h.2 _) fuel _
    | ret value =>
      cases value with
      | none => exact hc.pure _
      | some value => exact hc.bind (hc.evaluate (ih value h)) fun v => hc.pure _
    | print value =>
      refine hc.bind (hc.evaluate (ih value h)) fun v => ?_
      exact hc.bind (keepsName_printLine name v.shown) fun _ => hc.pure _

/-- A definition that has been executed is what its name stands for. -/
theorem innermost_of_define {limit : Nat} {before : List Node} {f : String}
    {parameters : List String} {body : List Node} {m m' : Machine}
    (h : GoesOn limit (before ++ [.define f parameters body]) m m') :
    ∃ identity, m'.environment.innermost.find? f
      = some (.function identity ⟨f, parameters, body⟩) := by
  obtain ⟨fuel, v, hrun⟩ := h
  rw [block_append] at hrun
  split at hrun
  · next w m₀ _ =>
    -- the definition has been executed, so there was fuel for it
    cases fuel with
    | zero => cases hrun
    | succ fuel =>
      cases hrun
      refine ⟨m₀.nextIdentity, ?_⟩
      show (m₀.environment.set f _).innermost.find? f = _
      rw [Environment.innermost_set, Table.find?_insert, if_pos rfl]
  · next hstopped => exact absurd hrun (hstopped v m')

/-- It still is after everything that does not bind the name again, whether this comes to an end or
not. -/
theorem callee_of_define {limit : Nat} {before : List Node} {f : String}
    {parameters : List String} {body : List Node} {m m' : Machine}
    (h : GoesOn limit (before ++ [.define f parameters body]) m m') (fuel : Nat) (last : Value)
    {nodes : List Node} (hnodes : f ∉ bindsAll nodes) :
    let s := stateAfter (Machine.block (execute limit fuel) last nodes m')
    Machine.callee f s = .ok ⟨f, parameters, body⟩ s := by
  intro s
  obtain ⟨identity, hdefined⟩ := innermost_of_define h
  have hkept : KeepsName f m' s := (compositional_keepsName f).block nodes
    (fun node hnode => keepsName_execute limit fuel f node (not_mem_binds hnodes node hnode)) last m'
  have hfound := Environment.find?_of_innermost (hkept.trans hdefined)
  rw [Machine.callee, bind_apply, Machine.lookup, hfound]
  rfl

/-! ### Names in a unit -/

/-- The last definition of a name. -/
def lastNamed (name : String) (ds : List FunctionDef) : Option FunctionDef :=
  ds.reverse.find? (·.name = name)

theorem lastNamed_append (name : String) (ds es : List FunctionDef) :
    lastNamed name (ds ++ es) = (lastNamed name es).or (lastNamed name ds) := by
  rw [lastNamed, List.reverse_append, List.find?_append]
  rfl

theorem lastNamed_cons (name : String) (d : FunctionDef) (ds : List FunctionDef) :
    lastNamed name (d :: ds)
      = (lastNamed name ds).or (if d.name = name then some d else none) := by
  rw [← List.singleton_append, lastNamed_append]
  by_cases h : d.name = name
  · simp [lastNamed, h]
  · simp [lastNamed, h]

/-- The entry of a name is that of its last definition in the text, at whatever depth this is. -/
theorem find?_functions_compile (unitName name : String) (program : Program) :
    (compile unitName program).functions.find? name
      = (lastNamed name (definitionsAll program)).map fun d => compileBody d.body := by
  have hnone : (Table.empty : Table CompiledFunction).find? name = none := rfl
  rw [compile_eq, Table.ofPairs, Table.find?_insertAll, hnone, ← List.map_reverse, List.find?_map,
    Option.map_map, lastNamed]
  exact Option.or_none

/-- The table of a unit is filled by visiting all definitions of the program in the order of the
text, each before those in its body, and inserting what each body is compiled to on its own. It does
not matter that the definitions inside a body are gathered in a table of their own before. So the
table has each name once, in the order of the first visits, with the body of the last visit. -/
theorem functions_compile_flat (unitName : String) (program : Program) :
    let visited := definitionsAll program
    let functions := (compile unitName program).functions
    functions = visited.foldl (fun t d => t.insert d.name (compileBody d.body)) Table.empty ∧
      functions.names = (visited.map (·.name)).eraseDups ∧
      functions.names.Nodup ∧
      ∀ f ∈ functions.entries, ∃ d, lastNamed f.1 visited = some d ∧ f.2 = compileBody d.body := by
  intro visited functions
  have hpairs : functions = Table.ofPairs (visited.map FunctionDef.compiled) := by
    simp only [functions, compile_eq]
    rfl
  have hnodup : functions.names.Nodup := by
    rw [hpairs]
    exact Table.nodup_names_insertAll _ List.nodup_nil
  refine ⟨?_, ?_, hnodup, ?_⟩
  · rw [hpairs, Table.ofPairs, Table.insertAll, List.foldl_map]
    rfl
  · rw [hpairs, Table.names_ofPairs, List.map_map]
    rfl
  · intro f hf
    have hfound := Table.find?_of_mem hnodup hf
    rw [find?_functions_compile, Option.map_eq_some_iff] at hfound
    obtain ⟨d, hd, hbody⟩ := hfound
    exact ⟨d, hd, hbody.symm⟩

/-- The name `f` is visited again inside `g`, and `g` behind that: both keep their places. -/
example : (compile "<program>"
      [.define "f" [] [.print (.identifier "x"), .define "g" [] [.define "f" [] [.ret none]]],
        .branch (.identifier "y") [.define "g" [] []] none]).functions.entries
    = [("f", ⟨[.loadConst 0, .ret], [.none]⟩), ("g", ⟨[], []⟩)] := rfl

/-- The definition that a node is. -/
def Node.definition? : Node → Option FunctionDef
  | .define name parameters body => some ⟨name, parameters, body⟩
  | _ => none

/-- The definitions among statements, without those inside them. -/
def directDefinitions (nodes : List Node) : List FunctionDef :=
  nodes.filterMap Node.definition?

/-- The definitions inside the bodies of functions. -/
def nestedDefinitions (nodes : List Node) : List FunctionDef :=
  (directDefinitions nodes).flatMap fun d => definitionsAll d.body

/-- Every statement is a definition, or has none in it. -/
def DefinesDirectly (nodes : List Node) : Prop :=
  ∀ node ∈ nodes, node.definition? = none → node.definitions = []

theorem definitions_of_definition? {node : Node} {d : FunctionDef} (h : node.definition? = some d) :
    node.definitions = d :: definitionsAll d.body := by
  cases node with
  | define name parameters body =>
    cases h
    rfl
  | _ => exact nomatch h

/-- Where a name is not defined at the top, only definitions inside bodies count. -/
theorem lastNamed_definitionsAll {name : String} {nodes : List Node} (h : DefinesDirectly nodes)
    (hname : name ∉ (directDefinitions nodes).map (·.name)) :
    lastNamed name (definitionsAll nodes) = lastNamed name (nestedDefinitions nodes) := by
  induction nodes with
  | nil => rfl
  | cons node nodes ih =>
    obtain ⟨hnode, hnodes⟩ := List.forall_mem_cons.mp h
    cases hd : node.definition? with
    | none =>
      rw [directDefinitions, List.filterMap_cons_none hd] at hname
      rw [definitionsAll, hnode hd, List.nil_append, ih hnodes hname, nestedDefinitions,
        nestedDefinitions, directDefinitions, directDefinitions, List.filterMap_cons_none hd]
    | some d =>
      rw [directDefinitions, List.filterMap_cons_some hd, List.map_cons, List.mem_cons,
        not_or] at hname
      rw [definitionsAll, definitions_of_definition? hd, List.cons_append, lastNamed_cons,
        if_neg (Ne.symm hname.1), Option.or_none, lastNamed_append, ih hnodes hname.2,
        ← lastNamed_append, nestedDefinitions, nestedDefinitions, directDefinitions,
        directDefinitions, List.filterMap_cons_some hd, List.flatMap_cons]

/-! ### What a name stands for -/

/-- The last definition of a name at the top is what the name stands for at the top of a run, until
the top binds it again, and whatever calls are made in between. The unit has the body of this
definition under the name, unless the name is defined once more inside the body or in that of a later
function: of those definitions the unit has the last. -/
theorem entry_of_last_definition (unitName : String) {program before after : Program} {f : String}
    {parameters : List String} {body : List Node} (hdirectly : DefinesDirectly program)
    (hprogram : program = before ++ .define f parameters body :: after)
    (hlast : f ∉ (directDefinitions after).map (·.name)) :
    (compile unitName program).functions.find? f
        = some (compileBody
            (match lastNamed f (nestedDefinitions (.define f parameters body :: after)) with
            | none => body
            | some inner => inner.body)) ∧
      ∀ limit m m', GoesOn limit (before ++ [.define f parameters body]) m m' →
        ∀ fuel last nodes, f ∉ bindsAll nodes →
          let s := stateAfter (Machine.block (execute limit fuel) last nodes m')
          Machine.callee f s = .ok ⟨f, parameters, body⟩ s := by
  refine ⟨?_, fun limit m m' hrun fuel last nodes hnodes => callee_of_define hrun fuel last hnodes⟩
  have hafter : DefinesDirectly after := fun node hnode =>
    hdirectly node (by rw [hprogram]; exact List.mem_append_right _ (List.mem_cons_of_mem _ hnode))
  have hnested : nestedDefinitions (.define f parameters body :: after)
      = definitionsAll body ++ nestedDefinitions after := rfl
  -- the definition at the top comes after all those before it and before all those inside it
  have hentry : lastNamed f (definitionsAll program)
      = some ((lastNamed f (definitionsAll body ++ nestedDefinitions after)).getD
          ⟨f, parameters, body⟩) := by
    rw [hprogram, definitionsAll_append, definitionsAll, Node.definitions, List.cons_append,
      lastNamed_append, lastNamed_cons, if_pos rfl, lastNamed_append,
      lastNamed_definitionsAll hafter hlast, ← lastNamed_append]
    cases lastNamed f (definitionsAll body ++ nestedDefinitions after) <;> rfl
  rw [find?_functions_compile, hentry, hnested]
  cases lastNamed f (definitionsAll body ++ nestedDefinitions after) <;> rfl

/-- The name `f` is defined twice at the top, and in between in the body of `g`. A call of `g` runs
that definition, and then `f` still stands for the second one at the top. -/
theorem entry_of_last_definition_of_earlier_nested :
    let first : List Node := [.print (.string "first")]
    let inner : List Node := [.print (.string "inner")]
    let body : List Node := [.print (.identifier "x")]
    let before : Program := [.define "f" [] first, .define "g" [] [.define "f" [] inner]]
    let program : Program :=
      before ++ .define "f" ["x"] body :: [.call "g" [], .call "f" [.string "a"]]
    (compile "<program>" program).functions.find? "f" = some (compileBody body) ∧
      ∃ m', GoesOn 200 (before ++ [.define "f" ["x"] body]) {} m' ∧
        let s := stateAfter (Machine.block (execute 200 5) .none [.call "g" []] m')
        Machine.callee "f" s = .ok ⟨"f", ["x"], body⟩ s := by
  intro first inner body before program
  have hdirectly : DefinesDirectly program := by
    simp [DefinesDirectly, program, before, Node.definition?, Node.definitions, definitionsAll]
  obtain ⟨m', hrun⟩ : ∃ m', GoesOn 200 (before ++ [.define "f" ["x"] body]) {} m' :=
    ⟨_, 5, _, rfl⟩
  obtain ⟨hentry, hcallee⟩ :=
    entry_of_last_definition "<program>" hdirectly rfl (by decide)
  exact ⟨hentry, m', hrun, hcallee 200 {} m' hrun 5 .none _ (by decide)⟩

/-- The name `f` is defined once at the top, and in the body of `g` behind that. The run calls the
function at the top; the unit has the body that is inside `g` under the name. -/
theorem entry_of_nested_definition :
    let top : List Node := [.print (.string "top")]
    let nested : List Node := [.print (.string "nested")]
    let after : Program := [.define "g" [] [.define "f" [] nested], .call "f" []]
    let program : Program := .define "f" [] top :: after
    DefinesDirectly program ∧ "f" ∉ (directDefinitions after).map (·.name) ∧
      (stateAfter (interpret 200 5 program {})).sink.written = "top\n" ∧
      (compile "<program>" program).functions.find? "f" = some (compileBody nested) ∧
      (compile "<program>" program).functions.find? "f" ≠ some (compileBody top) := by
  intro top nested after program
  have hdirectly : DefinesDirectly program := by
    simp [DefinesDirectly, program, after, Node.definition?, Node.definitions, definitionsAll]
  have hentry : (compile "<program>" program).functions.find? "f" = some (compileBody nested) := by
    rw [find?_functions_compile]
    rfl
  refine ⟨hdirectly, by decide, by decide +kernel, hentry, ?_⟩
  rw [hentry]
  -- the two bodies load different texts
  intro h
  injection Option.some.inj h with hcode hpool
  exact absurd (Constant.string.inj (List.cons.inj hpool).1) (by decide)

end StackScript
