import StackScript.CommandLine.Repl
import StackScript.Proofs.Execution
import StackScript.Proofs.Table

/-!
Scopes: what runs a program does to the variables that it does not own.

Whatever is executed, and however that ends, calls are left as they were entered: the depth is what
it was, only the innermost scope has changed, and what was bound there still is. A call changes
nothing at all beyond what evaluating its arguments does, since it runs in a scope of its own.

* `Environment.Keeps`: the relation between the environments before and after;
* `discipline_keeps`: the small steps of a run keep to it;
* `call_environment`, `Compositional.call`: a call leaves the environment as its arguments leave it;
* `session`: programs run one after the other;
* `scope_discipline`: nodes, programs, sessions and calls.
-/

namespace StackScript

namespace Environment

/-- The scope that bindings land in. -/
def innermost (env : Environment) : Scope :=
  match env.calls with
  | [] => env.globals
  | scope :: _ => scope

/-- One environment differs from another in the innermost scope only, and nothing bound there has
been lost. -/
structure Keeps (env env' : Environment) : Prop where
  depth : env'.depth = env.depth
  enclosing : env'.calls.tail = env.calls.tail
  globals : env.depth ≠ 0 → env'.globals = env.globals
  bound : ∀ name ∈ env.innermost.names, name ∈ env'.innermost.names

namespace Keeps

variable {env env' env'' : Environment}

theorem refl (env : Environment) : env.Keeps env :=
  ⟨rfl, rfl, fun _ => rfl, fun _ h => h⟩

theorem trans (h : env.Keeps env') (h' : env'.Keeps env'') : env.Keeps env'' where
  depth := h'.depth.trans h.depth
  enclosing := h'.enclosing.trans h.enclosing
  globals hd := (h'.globals (by rwa [h.depth])).trans (h.globals hd)
  bound name hn := h'.bound name (h.bound name hn)

theorem set (env : Environment) (name : String) (value : Value) :
    env.Keeps (env.set name value) := by
  obtain ⟨globals, calls⟩ := env
  cases calls with
  | nil =>
    exact ⟨rfl, rfl, fun h => absurd rfl h, fun n hn => Table.mem_names_insert.mpr (Or.inl hn)⟩
  | cons scope calls =>
    exact ⟨rfl, rfl, fun _ => rfl, fun n hn => Table.mem_names_insert.mpr (Or.inl hn)⟩

/-- Leaving a scope undoes entering it, whatever has happened in the scope. -/
theorem leave_eq {scope : Scope} (h : (env.push scope).Keeps env') : env'.leave = env := by
  have hglobals : env'.globals = env.globals := h.globals (Nat.succ_ne_zero _)
  have hcalls : env'.calls.tail = env.calls := h.enclosing
  rw [leave, hglobals, hcalls]

end Keeps

end Environment

/-! ### Runs -/

/-- A computation keeps all scopes but the innermost. -/
def KeepsScopes (m m' : Machine) : Prop :=
  m.environment.Keeps m'.environment

/-- A scope of its own keeps what happens in it away from the environment. -/
theorem environment_inScope {α : Type} (scope : Scope) {body : Run α} (h : Obeys KeepsScopes body)
    (m : Machine) : (stateAfter (Machine.inScope scope body m)).environment = m.environment := by
  have hbody := h { m with environment := m.environment.push scope }
  rw [Machine.inScope]
  cases hr : body { m with environment := m.environment.push scope } with
  | ok a m' =>
    rw [hr] at hbody
    exact hbody.leave_eq
  | error e m' =>
    rw [hr] at hbody
    exact hbody.leave_eq

theorem discipline_keeps : Discipline KeepsScopes where
  refl m := .refl m.environment
  trans h h' := h.trans h'
  assign name value m := .set m.environment name value
  newFunction _ m := .refl m.environment
  printLine text m := by
    rw [stateAfter_printLine]
    exact .refl m.environment
  report _ m := .refl m.environment
  inScope scope _ h m := by
    rw [KeepsScopes, environment_inScope scope h m]
    exact .refl m.environment

/-! ### Calls -/

/-- A call leaves the environment as its arguments leave it, or untouched if the name is not that of
a function. -/
theorem call_environment (limit : Nat) {inner : Node → Run Flow}
    (hinner : ∀ node, Obeys KeepsScopes (inner node)) (name : String) (arguments : List Node)
    (m : Machine) :
    (stateAfter (Machine.call limit inner name arguments m)).environment
      = match Machine.callee name m with
        | .ok _ m => (stateAfter (Machine.evaluateAll inner arguments m)).environment
        | .error _ m => m.environment := by
  rw [Machine.call, bind_apply]
  cases Machine.callee name m with
  | error e m => rfl
  | ok f m =>
    simp only [bind_apply]
    cases Machine.evaluateAll inner arguments m with
    | error e m => rfl
    | ok values m =>
      by_cases hlength : values.length ≠ f.parameters.length
      · simp only [if_pos hlength]
        rfl
      · simp only [if_neg hlength, bind_apply]
        rw [Machine.depth]
        by_cases hdepth : limit ≤ m.environment.depth
        · simp only [if_pos hdepth]
          rfl
        · -- the body runs in a scope of its own
          have hscope := environment_inScope (Table.ofPairs (f.parameters.zip values))
            (discipline_keeps.block hinner f.body .none)
            { m with notices := m.notices.push (.calling name values.length m.environment.depth) }
          simp only [if_neg hdepth, bind_apply, Machine.report]
          generalize Machine.inScope _ (Machine.block inner .none f.body) _ = result at hscope ⊢
          cases result with
          | ok flow m => exact hscope
          | error e m => exact hscope

/-- A relation between environments holds along a call if it holds along the arguments. What the body
does, it does in a scope that is gone afterwards. -/
theorem Compositional.call {R : Machine → Machine → Prop} (h : Compositional R)
    (henv : ∀ {m m' m'' : Machine}, m''.environment = m'.environment → R m m' → R m m'')
    (limit fuel : Nat) (name : String) {arguments : List Node}
    (hinner : ∀ argument ∈ arguments, Obeys R (execute limit fuel argument)) :
    Obeys R (Machine.call limit (execute limit fuel) name arguments) := by
  intro m
  have hcall := call_environment limit (discipline_keeps.execute limit fuel) name arguments m
  have hcallee := h.callee name m
  cases hr : Machine.callee name m with
  | error e m' =>
    rw [hr] at hcall hcallee
    exact henv hcall hcallee
  | ok f m' =>
    rw [hr] at hcall hcallee
    exact henv hcall (h.trans hcallee (h.evaluateAll arguments hinner m'))

/-! ### Sessions -/

/-- Programs run one after the other on one machine; those that fail do not stop the others. -/
def session (limit fuel : Nat) (programs : List Program) (m : Machine) : Machine :=
  programs.foldl (fun m program => stateAfter (interpret limit fuel program m)) m

/-- Lines typed at the prompt, one after the other. -/
def Repl.session (settings : Settings) (lines : List String) (m : Machine) : Machine :=
  lines.foldl (fun m line => (respond settings m line).2) m

/-- What keeps scopes at every turn keeps them in the end. -/
theorem foldl_keeps {α : Type} {f : Machine → α → Machine} (hf : ∀ m a, KeepsScopes m (f m a))
    (as : List α) : ∀ m, KeepsScopes m (as.foldl f m) := by
  induction as with
  | nil => exact fun m => .refl m.environment
  | cons a as ih => exact fun m => (hf m a).trans (ih (f m a))

theorem Repl.respond_keeps (settings : Settings) (m : Machine) (line : String) :
    KeepsScopes m (respond settings m line).2 := by
  unfold respond
  split
  · exact .refl m.environment
  · exact .refl m.environment
  · exact .refl m.environment
  · next text _ =>
    unfold evaluate
    split
    · exact .refl m.environment
    · next p _ _ =>
      have hrun := discipline_keeps.interpret settings.maxCallDepth ampleFuel p
        { m with sink := {}, notices := #[] }
      simp only
      cases hr : interpret settings.maxCallDepth ampleFuel p
          { m with sink := {}, notices := #[] } with
      | ok v m' =>
        rw [hr] at hrun
        exact hrun
      | error e m' =>
        rw [hr] at hrun
        exact hrun

/-- Nodes, programs, sessions and prompts keep all scopes but the innermost, and with them the depth
of calls and what is bound. A call changes no variable itself: the environment after it is the one
in which its arguments end. -/
theorem scope_discipline :
    (∀ limit fuel node m, KeepsScopes m (stateAfter (execute limit fuel node m))) ∧
    (∀ limit fuel program m, KeepsScopes m (stateAfter (interpret limit fuel program m))) ∧
    (∀ limit fuel programs m, KeepsScopes m (session limit fuel programs m)) ∧
    (∀ settings lines m, KeepsScopes m (Repl.session settings lines m)) ∧
    (∀ limit fuel name arguments m,
      (stateAfter (Machine.call limit (execute limit fuel) name arguments m)).environment
        = match Machine.callee name m with
          | .ok _ m =>
            (stateAfter (Machine.evaluateAll (execute limit fuel) arguments m)).environment
          | .error _ m => m.environment) := by
  have hinterpret := fun limit fuel => discipline_keeps.interpret limit fuel
  refine ⟨fun limit fuel => discipline_keeps.execute limit fuel, hinterpret, ?_, ?_, ?_⟩
  · intro limit fuel programs
    exact foldl_keeps (fun m p => hinterpret limit fuel p m) programs
  · intro settings lines
    exact foldl_keeps (Repl.respond_keeps settings) lines
  · intro limit fuel name arguments m
    exact call_environment limit (discipline_keeps.execute limit fuel) name arguments m

end StackScript
