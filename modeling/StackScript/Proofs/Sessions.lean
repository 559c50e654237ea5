import StackScript.Proofs.Comparison
import StackScript.Proofs.SourceComposition

/-!
A session source by source, and the sources as one.

Sources can be fed to a machine one after the other, as at a prompt, or joined with line feeds and run
as one program. If no source but the last ends in an error or with a return, both come to the same:
the statements are executed in the same order in the same machines, and only the last source says
what the value is.

* `block_of_more_fuel`: more fuel changes nothing for statements that come to an end;
* `Ends`, `Ends.unique`, `ends_append`: what a program comes to, and one in two parts;
* `Feeds`: sources that are fed to a machine, and the machine after them;
* `exists_whole_of_feeds`: the sources joined are a program, which comes to what the session does.
-/

namespace StackScript

/-! ### Fuel -/

/-- The second run starts in the same machine, and may have more fuel. -/
def moreFuel : Comparison where
  alike m m' := m = m'
  stop := .exhausted
  apart _ _ := False
  excused e := e = .exhausted

theorem outcome_moreFuel {α : Type} (r : EStateM.Result Interrupt Machine α) :
    moreFuel.Outcome r r := by
  cases r with
  | ok a m => exact .value a rfl
  | error e m => exact .interrupt e rfl

theorem lockstep_moreFuel (limit : Nat) : moreFuel.Lockstep limit limit where
  find? h name := by rw [h]
  assign h name value := by rw [h]; rfl
  newFunction h definition := by rw [h]; exact outcome_moreFuel _
  printLine h text := by rw [h]; exact outcome_moreFuel _
  checkDepth h name arity := by rw [h]; exact outcome_moreFuel _
  push h scope := by rw [h]; rfl
  leave _ hs _ _ := by rw [hs]; rfl
  apart_grows h _ := h
  apart_leave h := h

section Fuel

variable {limit fuel fuel' : Nat} {last : Value} {nodes : List Node} {m : Machine}

theorem block_of_more_fuel (hle : fuel ≤ fuel')
    (hended : error? (Machine.block (execute limit fuel) last nodes m) ≠ some .exhausted) :
    Machine.block (execute limit fuel') last nodes m
      = Machine.block (execute limit fuel) last nodes m := by
  have hstep := lockstep_moreFuel limit
  have hruns := hstep.block (hstep.execute_of_allows fuel fuel' (.inr ⟨rfl, hle⟩)) nodes last
  have houtcome := hruns.outcome m m rfl
  generalize Machine.block (execute limit fuel) last nodes m = r at houtcome hended ⊢
  generalize Machine.block (execute limit fuel') last nodes m = r' at houtcome ⊢
  cases houtcome with
  | value a hs => exact congrArg _ hs.symm
  | interrupt e hs => exact congrArg _ hs.symm
  | stopped hs => exact absurd hs id
  | excused he => exact absurd (congrArg some he) hended

end Fuel

/-! ### Statements in two parts -/

theorem block_append (inner : Node → Run Flow) (last : Value) (nodes more : List Node)
    (m : Machine) :
    Machine.block inner last (nodes ++ more) m = match Machine.block inner last nodes m with
      | .ok (.continues v) m' => Machine.block inner v more m'
      | r => r := by
  induction nodes generalizing last m with
  | nil => rfl
  | cons node nodes ih =>
    rw [List.cons_append, Machine.block, Machine.block, bind_apply, bind_apply]
    cases inner node m with
    | error e m' => rfl
    | ok flow m' =>
      cases flow with
      | continues v => exact ih v m'
      | returns v => rfl

/-- The value before a statement is of no account. -/
theorem block_of_ne_nil (inner : Node → Run Flow) {nodes : List Node} (h : nodes ≠ [])
    (last last' : Value) : Machine.block inner last nodes = Machine.block inner last' nodes := by
  obtain ⟨node, nodes, rfl⟩ := List.exists_cons_of_ne_nil h
  rfl

/-- The program comes to this: a value or an error, and the machine that is left. -/
def Ends (limit : Nat) (program : Program) (m : Machine)
    (r : EStateM.Result Interrupt Machine Value) : Prop :=
  error? r ≠ some .exhausted ∧ ∃ fuel, interpret limit fuel program m = r

/-- The program goes on to the machine `m'`: its run ends there, without an error and without a
return. -/
def GoesOn (limit : Nat) (program : Program) (m m' : Machine) : Prop :=
  ∃ fuel v, Machine.block (execute limit fuel) .none program m = .ok (.continues v) m'

section Parts

variable {limit : Nat} {first rest program : Program} {m m₁ : Machine}

theorem error?_map {α β : Type} (f : α → β) (x : Run α) (m : Machine) :
    error? ((f <$> x) m) = error? (x m) := by
  rw [map_apply]
  cases x m <;> rfl

theorem interpret_of_more_fuel {fuel fuel' : Nat} (hle : fuel ≤ fuel')
    (hended : error? (interpret limit fuel program m) ≠ some .exhausted) :
    interpret limit fuel' program m = interpret limit fuel program m := by
  rw [interpret, error?_map] at hended
  rw [interpret, interpret, map_apply, map_apply, block_of_more_fuel hle hended]

/-- A program comes to one thing only. -/
theorem Ends.unique {r r' : EStateM.Result Interrupt Machine Value} (h : Ends limit program m r)
    (h' : Ends limit program m r') : r = r' := by
  obtain ⟨hended, fuel, rfl⟩ := h
  obtain ⟨hended', fuel', rfl⟩ := h'
  obtain hle | hle := Nat.le_total fuel fuel'
  · exact (interpret_of_more_fuel hle hended).symm
  · exact interpret_of_more_fuel hle hended'

/-- What comes behind a program that goes on is run in the machine that this leads to. -/
theorem ends_append (hfirst : GoesOn limit first m m₁) (hrest : rest ≠ [])
    (r : EStateM.Result Interrupt Machine Value) :
    Ends limit (first ++ rest) m r ↔ Ends limit rest m₁ r := by
  obtain ⟨enough, v, hrun⟩ := hfirst
  -- the two programs are compared under fuel that is enough for the first part
  have hsame : ∀ fuel, enough ≤ fuel →
      interpret limit fuel (first ++ rest) m = interpret limit fuel rest m₁ := by
    intro fuel hle
    have hmore : Machine.block (execute limit fuel) .none first m
        = Machine.block (execute limit enough) .none first m :=
      block_of_more_fuel hle (by rw [hrun]; exact nofun)
    rw [interpret, interpret, map_apply, map_apply, block_append, hmore, hrun]
    simp only
    rw [block_of_ne_nil _ hrest v .none]
  constructor
  · rintro ⟨hended, fuel, rfl⟩
    refine ⟨hended, max enough fuel, ?_⟩
    rw [← hsame _ (le_max_left _ _)]
    exact interpret_of_more_fuel (le_max_right _ _) hended
  · rintro ⟨hended, fuel, rfl⟩
    refine ⟨hended, max enough fuel, ?_⟩
    rw [hsame _ (le_max_left _ _)]
    exact interpret_of_more_fuel (le_max_right _ _) hended

end Parts

/-! ### Sessions -/

/-- Sources are fed to the machine `m`, which they lead to `m'`. Each of them is a program with closed
literals, and goes on to the next. -/
inductive Feeds (mode : LexMode) (limit : Nat) : List String → Machine → Machine → Prop where
  | nil (m : Machine) : Feeds mode limit [] m m
  | cons {source : String} {sources : List String} {program : Program} {m m₁ m' : Machine}
    (hclosed : ClosesLiterals source.toList)
    (hprogram : (Source.programOf mode source).1 = .ok program)
    (hrun : GoesOn limit program m m₁) (h : Feeds mode limit sources m₁ m') :
    Feeds mode limit (source :: sources) m m'

section Sessions

variable {mode : LexMode} {limit : Nat} {sources : List String} {last : String}
  {program : Program} {m m' : Machine}

/-- Whatever the last source comes to at the end of a session, a value or an error, in whatever
machine, all sources joined come to. The induction is on the session: each source is put in front of
those behind it, which are one program already. -/
theorem exists_whole_of_feeds (h : Feeds mode limit sources m m')
    (hlast : (Source.programOf mode last).1 = .ok program) (hne : program ≠ []) :
    ∃ whole : Program,
      (Source.programOf mode ("\n".intercalate (sources ++ [last]))).1 = .ok whole ∧ whole ≠ [] ∧
        ∀ r, Ends limit whole m r ↔ Ends limit program m' r := by
  induction h with
  | nil m => exact ⟨program, hlast, hne, fun _ => .rfl⟩
  | @cons source sources first m m₁ m' hclosed hprogram hrun h ih =>
    obtain ⟨whole, hwhole, hnot, hsame⟩ := ih
    have hjoined := List.append_ne_nil_of_right_ne_nil first hnot
    refine ⟨first ++ whole, ?_, hjoined, fun r => (ends_append hrun hnot r).trans (hsame r)⟩
    -- there is a source behind this one, if only the last
    obtain ⟨next, rest, hrest⟩ := List.exists_cons_of_ne_nil
      (List.append_ne_nil_of_right_ne_nil sources (List.cons_ne_nil last []))
    rw [hrest] at hwhole
    rw [List.cons_append, hrest, String.intercalate_cons_cons, programOf_append _ hprogram hclosed,
      hwhole]
    rfl

/-- A source that binds, one that is a comment, and one that prints and returns. -/
theorem exists_whole_of_feeds_of_bound_name :
    let last : Program := [.print (.identifier "x"), .ret none]
    let m' : Machine := { environment := Environment.set {} "x" (.string "a") }
    Feeds .strict 200 ["x = \"a\" # b", "# c"] {} m' ∧
      (Source.programOf .strict "print(x)\nreturn").1 = .ok last ∧ last ≠ [] ∧
      ∃ whole : Program,
        (Source.programOf .strict "x = \"a\" # b\n# c\nprint(x)\nreturn").1 = .ok whole ∧
          whole ≠ [] ∧ ∀ r, Ends 200 whole {} r ↔ Ends 200 last m' r := by
  intro last m'
  have hfirst : (Source.programOf .strict "x = \"a\" # b").1 = .ok [.assign "x" (.string "a")] := by
    cbv
  have hsecond : (Source.programOf .strict "# c").1 = .ok [] := by cbv
  have hlast : (Source.programOf .strict "print(x)\nreturn").1 = .ok last := by cbv
  have hfeeds : Feeds .strict 200 ["x = \"a\" # b", "# c"] {} m' :=
    .cons (of_decide_eq_true (by cbv)) hfirst ⟨2, _, rfl⟩
      (.cons (of_decide_eq_true (by cbv)) hsecond ⟨0, _, rfl⟩ (.nil m'))
  have hne : last ≠ [] := List.cons_ne_nil _ _
  have hjoined : "\n".intercalate (["x = \"a\" # b", "# c"] ++ ["print(x)\nreturn"])
      = "x = \"a\" # b\n# c\nprint(x)\nreturn" := by decide
  have hwhole := exists_whole_of_feeds hfeeds hlast hne
  rw [hjoined] at hwhole
  exact ⟨hfeeds, hlast, hne, hwhole⟩

end Sessions

end StackScript
