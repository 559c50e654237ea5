import StackScript.Proofs.Grammar
import StackScript.Proofs.ScopeDiscipline

/-!
Expressions change no variable.

An expression binds nothing itself. It can call functions, and the body of a function can do
whatever a program can; but it does so in a scope of its own, and that scope is left however the
body ends. Outside the environment things only become more: the text printed, the log, and the
identities in use.

* `Machine.Grows`, `discipline_grows`: nothing that was printed or logged gets lost in any run;
* `KeepsEnvironment`, `keepsEnvironment_execute`: expressions leave all scopes as they were;
* `Machine.OnlyGrows`, `expression_onlyGrows`: whatever an expression evaluates to.
-/

namespace StackScript

/-! ### Output -/

/-- What one machine has printed, logged and handed out, another one has as well. -/
structure Machine.Grows (m m' : Machine) : Prop where
  written : ∃ text, m'.sink.written = m.sink.written ++ text
  notices : m.notices.toList <+: m'.notices.toList
  identities : m.nextIdentity ≤ m'.nextIdentity

/-- A write adds to the text, also where not all of it fits. -/
theorem Sink.exists_written_write (sink : Sink) (text : String) :
    ∃ added, (sink.write text).2.written = sink.written ++ added := by
  rw [Sink.write]
  split
  · exact ⟨text, rfl⟩
  · split
    · exact ⟨text, rfl⟩
    · exact ⟨_, rfl⟩

theorem Machine.written_self (m : Machine) :
    ∃ text, m.sink.written = m.sink.written ++ text :=
  ⟨"", String.append_empty.symm⟩

namespace Machine.Grows

variable {m m' m'' : Machine}

theorem refl (m : Machine) : m.Grows m :=
  ⟨m.written_self, List.prefix_rfl, Nat.le_refl _⟩

theorem trans (h : m.Grows m') (h' : m'.Grows m'') : m.Grows m'' where
  written := by
    obtain ⟨s, hs⟩ := h.written
    obtain ⟨t, ht⟩ := h'.written
    exact ⟨s ++ t, by rw [ht, hs, String.append_assoc]⟩
  notices := h.notices.trans h'.notices
  identities := Nat.le_trans h.identities h'.identities

end Machine.Grows

theorem discipline_grows : Discipline Machine.Grows where
  refl := .refl
  trans h h' := h.trans h'
  assign _ _ m := ⟨m.written_self, List.prefix_rfl, Nat.le_refl _⟩
  newFunction _ m := ⟨m.written_self, List.prefix_rfl, Nat.le_succ _⟩
  printLine text m := by
    rw [stateAfter_printLine]
    exact ⟨m.sink.exists_written_write _, List.prefix_rfl, Nat.le_refl _⟩
  report notice m := by
    refine ⟨m.written_self, ?_, Nat.le_refl _⟩
    show m.notices.toList <+: (m.notices.push notice).toList
    rw [Array.toList_push]
    exact List.prefix_append _ _
  inScope scope body h m := by
    have hbody := h { m with environment := m.environment.push scope }
    rw [Machine.inScope]
    cases hr : body { m with environment := m.environment.push scope } with
    | ok a m' =>
      rw [hr] at hbody
      exact ⟨hbody.written, hbody.notices, hbody.identities⟩
    | error e m' =>
      rw [hr] at hbody
      exact ⟨hbody.written, hbody.notices, hbody.identities⟩

/-! ### Variables -/

/-- All scopes are what they were. -/
def KeepsEnvironment (m m' : Machine) : Prop :=
  m'.environment = m.environment

theorem compositional_keepsEnvironment : Compositional KeepsEnvironment where
  refl _ := rfl
  trans h h' := h'.trans h

theorem keepsEnvironment_execute (limit fuel : Nat) : ∀ e : Node, e.isExpression = true →
    Obeys KeepsEnvironment (execute limit fuel e) := by
  have hc := compositional_keepsEnvironment
  -- the expressions inside one, which it runs with less fuel, keep the environment
  induction fuel with
  | zero => exact fun e _ => hc.throw _
  | succ fuel ih =>
    intro e h
    cases e with
    | number x => exact hc.pure _
    | string s => exact hc.pure _
    | identifier name => exact hc.bind (hc.lookup name) fun v => hc.pure _
    | binary op left right =>
      rw [Node.isExpression, Bool.and_eq_true] at h
      refine hc.bind (hc.evaluate (ih left h.1)) fun l => ?_
      refine hc.bind (hc.evaluate (ih right h.2)) fun r => ?_
      exact hc.bind (hc.lift (op.apply l r)) fun v => hc.pure _
    | unary op operand =>
      refine hc.bind (hc.evaluate (ih operand h)) fun v => ?_
      exact hc.bind (hc.lift (op.apply v)) fun v => hc.pure _
    | call name arguments =>
      have harguments := (areExpressions_iff arguments).mp h
      refine hc.bind (hc.call (fun he h => he.trans h) limit fuel name fun a ha => ?_)
        fun v => hc.pure _
      exact ih a (harguments a ha)
    | _ => exact nomatch h

/-! ### Expressions -/

/-- Nothing about the variables has changed, and nothing else has got lost. -/
structure Machine.OnlyGrows (m m' : Machine) : Prop extends Machine.Grows m m' where
  environment : m'.environment = m.environment

/-- Whether an expression has a value, raises an error in the midst of a call or does not end: the
machine has the same variables in the same scopes as before. -/
theorem expression_onlyGrows (limit fuel : Nat) {e : Node} (h : e.isExpression = true)
    (m : Machine) :
    m.OnlyGrows (stateAfter (Machine.evaluate (execute limit fuel) e m)) ∧
      m.OnlyGrows (stateAfter (execute limit fuel e m)) := by
  have hgrows := discipline_grows.execute limit fuel e
  have hkeeps := keepsEnvironment_execute limit fuel e h
  constructor
  · exact ⟨discipline_grows.evaluate hgrows m, compositional_keepsEnvironment.evaluate hkeeps m⟩
  · exact ⟨hgrows m, hkeeps m⟩

/-- The function `f` binds `x`, prints it, defines `g` and then fails inside another call, of a name
that is not bound. -/
theorem expression_onlyGrows_of_failing_call :
    let body : List Node := [.assign "x" (.string "inner"), .print (.identifier "x"),
      .define "g" [] [], .call "h" []]
    let m : Machine := { environment :=
      { globals := .ofPairs [("x", .string "outer"), ("f", .function 0 ⟨"f", ["y"], body⟩)] } }
    let e : Node := .binary .add (.call "f" [.string "s"]) (.identifier "x")
    m.OnlyGrows (stateAfter (Machine.evaluate (execute 200 10) e m)) ∧
      (stateAfter (Machine.evaluate (execute 200 10) e m)).sink.written = "inner\n" := by
  intro body m e
  exact ⟨(expression_onlyGrows 200 10 (e := e) rfl m).1, by decide⟩

end StackScript
