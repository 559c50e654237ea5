import StackScript.Proofs.Draft

/-!
Control flow: a walk over emitted code runs what the nodes prescribe.

Neither side looks at values. The outcomes of conditions are given in advance, as a list from which
each condition takes the next one, and what counts is which instructions run and in which order.

* `walk`: the instructions that a walk over code runs, jumps left out;
* `path`, `pathAll`: the instructions that a node prescribes, and nodes one after the other;
* `path_loop`: a loop prescribes its condition and then, if that is true, its body and itself;
* `Placed`: a draft stands in code at an index;
* `Follows`: a walk from one index follows a path and goes on at another;
* `follows_path`, `follows_pathAll`: wherever the draft of a node stands, walks follow its path;
* `Runs`, `compile_runs`: the code of a unit and of each of its functions runs what is prescribed.
-/

namespace StackScript

/-! ### Walks over code -/

/-- How a walk ends: at the end of the code, at a return, or at a condition without an outcome. -/
inductive Ending where
  | finished
  | returned
  | starved
deriving DecidableEq

/-- What a walk has run, and how it ended, if it has. -/
structure Trace where
  recorded : List Instruction
  ending : Option Ending
deriving DecidableEq

/-- A trace behind instructions that were run before it. -/
def Trace.after (t : Trace) (before : List Instruction) : Trace :=
  ⟨before ++ t.recorded, t.ending⟩

/-- A walk of at most so many steps from an index of the code. A walk that leaves the code elsewhere
than at its end has no ending. -/
def walk (code : List Instruction) : (steps position : Nat) → (outcomes : List Bool) → Trace
  | 0, _, _ => ⟨[], none⟩
  | steps + 1, position, outcomes =>
    match code[position]?, outcomes with
    | none, _ => ⟨[], if position = code.length then some .finished else none⟩
    | some (.jump target), _ => walk code steps target outcomes
    | some (.jumpIfFalse _), [] => ⟨[], some .starved⟩
    | some (.jumpIfFalse _), true :: rest => walk code steps (position + 1) rest
    | some (.jumpIfFalse target), false :: rest => walk code steps target rest
    | some .ret, _ => ⟨[.ret], some .returned⟩
    | some i, _ => (walk code steps (position + 1) outcomes).after [i]

/-! ### What nodes prescribe -/

/-- The instructions that a node prescribes under given outcomes, how it ends, and the outcomes that
are left then. -/
structure Path where
  recorded : List Draft
  ending : Ending
  left : List Bool

namespace Path

/-- Nothing is run. -/
def nothing (outcomes : List Bool) : Path :=
  ⟨[], .finished, outcomes⟩

/-- One instruction is run. -/
def record (d : Draft) (outcomes : List Bool) : Path :=
  ⟨[d], .finished, outcomes⟩

/-- The code returns, and what follows is not run. -/
def leave (outcomes : List Bool) : Path :=
  ⟨[.plain .ret], .returned, outcomes⟩

/-- A path goes on with another one if it has come to its end. -/
def andThen (p : Path) (next : List Bool → Path) : Path :=
  match p.ending with
  | .finished => ⟨p.recorded ++ (next p.left).recorded, (next p.left).ending, (next p.left).left⟩
  | _ => p

/-- The next outcome decides between two paths. -/
def choose (yes no : List Bool → Path) : List Bool → Path
  | [] => ⟨[], .starved, []⟩
  | true :: rest => yes rest
  | false :: rest => no rest

/-- A test and a body run in turn until the outcome of the test is false. Every round takes an
outcome, so that there are at most as many rounds as outcomes. -/
def rounds (test body : List Bool → Path) : Nat → List Bool → Path
  | 0, _ => ⟨[], .starved, []⟩
  | n + 1, outcomes =>
    (test outcomes).andThen
      (choose (fun rest => (body rest).andThen (rounds test body n)) nothing)

end Path

mutual

/-- What a node prescribes. -/
def path : Node → List Bool → Path
  | .number x, outcomes => .record (.literal (.number x)) outcomes
  | .string s, outcomes => .record (.literal (.string s)) outcomes
  | .identifier name, outcomes => .record (.plain (.loadVar name)) outcomes
  | .binary op left right, outcomes =>
    ((path left outcomes).andThen (path right)).andThen (.record (.plain (.binary op)))
  | .unary op operand, outcomes => (path operand outcomes).andThen (.record (.plain (.unary op)))
  | .assign name value, outcomes =>
    (path value outcomes).andThen (.record (.plain (.storeVar name)))
  | .call name arguments, outcomes =>
    (pathAll arguments outcomes).andThen (.record (.plain (.call name arguments.length)))
  | .define .., outcomes => .nothing outcomes
  | .branch condition thenBody none, outcomes =>
    (path condition outcomes).andThen (.choose (pathAll thenBody) .nothing)
  | .branch condition thenBody (some elseBody), outcomes =>
    (path condition outcomes).andThen (.choose (pathAll thenBody) (pathAll elseBody))
  | .loop condition body, outcomes =>
    Path.rounds (path condition) (pathAll body) (outcomes.length + 1) outcomes
  | .ret none, outcomes => (Path.record (.literal .none) outcomes).andThen .leave
  | .ret (some value), outcomes => (path value outcomes).andThen .leave
  | .print value, outcomes => (path value outcomes).andThen (.record (.plain .print))

/-- What nodes prescribe, one after the other. -/
def pathAll : List Node → List Bool → Path
  | [], outcomes => .nothing outcomes
  | node :: nodes, outcomes => (path node outcomes).andThen (pathAll nodes)

end

/-! ### Outcomes are used up -/

namespace Path

theorem andThen_of_finished {p : Path} (h : p.ending = .finished) (next : List Bool → Path) :
    p.andThen next
      = ⟨p.recorded ++ (next p.left).recorded, (next p.left).ending, (next p.left).left⟩ := by
  rw [andThen, h]

theorem andThen_of_not_finished {p : Path} (h : p.ending ≠ .finished)
    (next : List Bool → Path) : p.andThen next = p := by
  rw [andThen]
  split
  · contradiction
  · rfl

/-- A path leaves no more outcomes than it is given. -/
def Shrinks (next : List Bool → Path) : Prop :=
  ∀ outcomes, (next outcomes).left.length ≤ outcomes.length

theorem length_left_andThen {p : Path} {next : List Bool → Path} {bound : Nat}
    (hp : p.left.length ≤ bound) (hnext : Shrinks next) :
    (p.andThen next).left.length ≤ bound := by
  by_cases h : p.ending = .finished
  · rw [andThen_of_finished h]
    exact Nat.le_trans (hnext p.left) hp
  · rwa [andThen_of_not_finished h]

theorem shrinks_nothing : Shrinks nothing :=
  fun _ => Nat.le_refl _

theorem shrinks_record (d : Draft) : Shrinks (record d) :=
  fun _ => Nat.le_refl _

theorem shrinks_leave : Shrinks leave :=
  fun _ => Nat.le_refl _

theorem Shrinks.andThen {first next : List Bool → Path} (hfirst : Shrinks first)
    (hnext : Shrinks next) : Shrinks fun outcomes => (first outcomes).andThen next :=
  fun outcomes => length_left_andThen (hfirst outcomes) hnext

theorem Shrinks.choose {yes no : List Bool → Path} (hyes : Shrinks yes) (hno : Shrinks no) :
    Shrinks (choose yes no)
  | [] => Nat.le_refl _
  | true :: rest => Nat.le_succ_of_le (hyes rest)
  | false :: rest => Nat.le_succ_of_le (hno rest)

theorem Shrinks.rounds {test body : List Bool → Path} (htest : Shrinks test)
    (hbody : Shrinks body) : ∀ n, Shrinks (rounds test body n)
  | 0 => fun _ => Nat.zero_le _
  | n + 1 => htest.andThen ((hbody.andThen (htest.rounds hbody n)).choose shrinks_nothing)

theorem andThen_congr {p : Path} {next next' : List Bool → Path}
    (h : next p.left = next' p.left) : p.andThen next = p.andThen next' := by
  by_cases hp : p.ending = .finished
  · rw [andThen_of_finished hp, andThen_of_finished hp, h]
  · rw [andThen_of_not_finished hp, andThen_of_not_finished hp]

theorem choose_congr {yes yes' : List Bool → Path} (no : List Bool → Path) {outcomes : List Bool}
    (h : ∀ rest, rest.length < outcomes.length → yes rest = yes' rest) :
    choose yes no outcomes = choose yes' no outcomes :=
  match outcomes with
  | [] => rfl
  | true :: rest => h rest (Nat.lt_succ_self _)
  | false :: _ => rfl

/-- More rounds than outcomes change nothing. -/
theorem rounds_eq_rounds {test body : List Bool → Path} (htest : Shrinks test)
    (hbody : Shrinks body) (m : Nat) : ∀ (n : Nat) (outcomes : List Bool),
      outcomes.length < m → outcomes.length < n →
      rounds test body m outcomes = rounds test body n outcomes := by
  induction m with
  | zero => exact fun n outcomes hm _ => absurd hm (Nat.not_lt_zero _)
  | succ m ih =>
    intro n outcomes hm hn
    obtain ⟨n, rfl⟩ : ∃ k, n = k + 1 := ⟨n - 1, by omega⟩
    rw [rounds, rounds]
    -- the round after this one has an outcome less
    refine andThen_congr (choose_congr _ fun rest hrest => ?_)
    have htest := htest outcomes
    have hbody := hbody rest
    exact andThen_congr (ih n (body rest).left (by omega) (by omega))

end Path

mutual

theorem shrinks_path : ∀ node : Node, Path.Shrinks (path node)
  | .number _ => Path.shrinks_record _
  | .string _ => Path.shrinks_record _
  | .identifier _ => Path.shrinks_record _
  | .binary _ left right =>
    ((shrinks_path left).andThen (shrinks_path right)).andThen (Path.shrinks_record _)
  | .unary _ operand => (shrinks_path operand).andThen (Path.shrinks_record _)
  | .assign _ value => (shrinks_path value).andThen (Path.shrinks_record _)
  | .call _ arguments => (shrinks_pathAll arguments).andThen (Path.shrinks_record _)
  | .define .. => Path.shrinks_nothing
  | .branch condition thenBody none =>
    (shrinks_path condition).andThen ((shrinks_pathAll thenBody).choose Path.shrinks_nothing)
  | .branch condition thenBody (some elseBody) =>
    (shrinks_path condition).andThen ((shrinks_pathAll thenBody).choose (shrinks_pathAll elseBody))
  | .loop condition body =>
    fun outcomes => (shrinks_path condition).rounds (shrinks_pathAll body) _ outcomes
  | .ret none => (Path.shrinks_record _).andThen Path.shrinks_leave
  | .ret (some value) => (shrinks_path value).andThen Path.shrinks_leave
  | .print value => (shrinks_path value).andThen (Path.shrinks_record _)

theorem shrinks_pathAll : ∀ nodes : List Node, Path.Shrinks (pathAll nodes)
  | [] => Path.shrinks_nothing
  | node :: nodes => (shrinks_path node).andThen (shrinks_pathAll nodes)

end

/-- A loop prescribes its condition and then, if that is true, its body and itself. -/
theorem path_loop (condition : Node) (body : List Node) (outcomes : List Bool) :
    path (.loop condition body) outcomes
      = (path condition outcomes).andThen (.choose
          (fun rest => (pathAll body rest).andThen (path (.loop condition body))) .nothing) := by
  rw [path, Path.rounds]
  refine Path.andThen_congr (Path.choose_congr _ fun rest hrest => Path.andThen_congr ?_)
  have htest := shrinks_path condition outcomes
  have hbody := shrinks_pathAll body rest
  rw [path]
  exact Path.rounds_eq_rounds (shrinks_path condition) (shrinks_pathAll body) _ _ _ (by omega)
    (by omega)

/-! ### Code at a place -/

/-- A draft stands in code at an index. -/
def Placed (code : List Instruction) (pool : ConstantPool) : Nat → List Draft → Prop
  | _, [] => True
  | base, d :: ds => (∃ i, code[base]? = some i ∧ d.Stands pool i) ∧ Placed code pool (base + 1) ds

theorem placed_append {code : List Instruction} {pool : ConstantPool} (ds es : List Draft) :
    ∀ {base : Nat}, Placed code pool base (ds ++ es) ↔
      Placed code pool base ds ∧ Placed code pool (base + ds.length) es := by
  induction ds with
  | nil => simp [Placed]
  | cons d ds ih =>
    intro base
    rw [List.cons_append, Placed, Placed, ih, and_assoc, List.length_cons,
      show base + 1 + ds.length = base + (ds.length + 1) by omega]

theorem add_length_append_cons (base : Nat) (ds : List Draft) (d : Draft) (es : List Draft) :
    base + (ds ++ d :: es).length = base + ds.length + 1 + es.length := by
  rw [List.length_append, List.length_cons]
  omega

/-- Code that stands for a draft has it in place, whatever comes before. -/
theorem placed_of_stands {pool : ConstantPool} {ds : List Draft} {code : List Instruction}
    (h : List.Forall₂ (Draft.Stands pool) ds code) :
    ∀ before : List Instruction, Placed (before ++ code) pool before.length ds := by
  induction h with
  | nil => exact fun _ => trivial
  | @cons d i ds code hd _ ih =>
    intro before
    refine ⟨⟨i, by simp, hd⟩, ?_⟩
    have hrest := ih (before ++ [i])
    rwa [List.append_assoc, List.length_append] at hrest

/-! ### Walks that follow paths -/

/-- Behind such an instruction comes the next one. -/
def Draft.Passes : Draft → Prop
  | .plain (.jump _) => False
  | .plain (.jumpIfFalse _) => False
  | .plain .ret => False
  | _ => True

/-- A walk from one index follows a path: it runs what the path records, and then it ends as the
path ends, or goes on at the other index if the path has come to its end. -/
def Follows (code : List Instruction) (pool : ConstantPool) (start stop : Nat)
    (outcomes : List Bool) (p : Path) : Prop :=
  ∃ steps recorded, List.Forall₂ (Draft.Stands pool) p.recorded recorded ∧
    ∀ more, walk code (steps + more) start outcomes
      = match p.ending with
        | .finished => (walk code more stop p.left).after recorded
        | e => ⟨recorded, some e⟩

namespace Follows

variable {code : List Instruction} {pool : ConstantPool} {start middle stop : Nat}
  {outcomes : List Bool}

theorem after_after (t : Trace) (r s : List Instruction) :
    (t.after r).after s = t.after (s ++ r) := by
  rw [Trace.after, Trace.after, Trace.after, List.append_assoc]

theorem nothing (outcomes : List Bool) :
    Follows code pool start start outcomes (.nothing outcomes) :=
  ⟨0, [], .nil, fun more => by rw [Nat.zero_add]; rfl⟩

/-- A walk that is done with one path follows the next one. -/
theorem andThen {p : Path} {next : List Bool → Path}
    (hp : Follows code pool start middle outcomes p)
    (hnext : Follows code pool middle stop p.left (next p.left)) :
    Follows code pool start stop outcomes (p.andThen next) := by
  obtain ⟨m, r, hr, hwalk⟩ := hp
  obtain ⟨n, s, hs, hrest⟩ := hnext
  by_cases h : p.ending = .finished
  · rw [Path.andThen_of_finished h]
    refine ⟨m + n, r ++ s, List.rel_append hr hs, fun more => ?_⟩
    rw [Nat.add_assoc, hwalk, h]
    -- the steps that are left walk along the next path
    simp only [hrest]
    cases (next p.left).ending with
    | finished => exact after_after _ _ _
    | _ => rfl
  · rw [Path.andThen_of_not_finished h]
    refine ⟨m, r, hr, fun more => ?_⟩
    rw [hwalk]
    split
    · contradiction
    · rfl

/-- One instruction that neither jumps nor returns. -/
theorem record {d : Draft} (hd : ∃ i, code[start]? = some i ∧ d.Stands pool i) (hp : d.Passes)
    (outcomes : List Bool) : Follows code pool start (start + 1) outcomes (.record d outcomes) := by
  obtain ⟨i, hi, hdi⟩ := hd
  refine ⟨1, [i], .cons hdi .nil, fun more => ?_⟩
  rw [Nat.add_comm]
  cases d with
  | literal c =>
    cases i with
    | loadConst k =>
      simp only [walk, hi]
      rfl
    | _ => exact absurd hdi id
  | plain j =>
    obtain rfl : j = i := hdi
    cases j with
    | jump t => exact absurd hp id
    | jumpIfFalse t => exact absurd hp id
    | ret => exact absurd hp id
    | _ =>
      simp only [walk, hi]
      rfl

/-- A return. -/
theorem leave (hd : ∃ i, code[start]? = some i ∧ (Draft.plain .ret).Stands pool i)
    (outcomes : List Bool) : Follows code pool start stop outcomes (.leave outcomes) := by
  obtain ⟨i, hi, rfl⟩ := hd
  refine ⟨1, [.ret], .cons rfl .nil, fun more => ?_⟩
  rw [Nat.add_comm]
  simp only [walk, hi]
  rfl

/-- A jump behind a path leads to its target. -/
theorem andJump {p : Path} (hp : Follows code pool start middle outcomes p)
    (hd : ∃ i, code[middle]? = some i ∧ (Draft.plain (.jump stop)).Stands pool i) :
    Follows code pool start stop outcomes p := by
  obtain ⟨m, r, hr, hwalk⟩ := hp
  obtain ⟨i, hi, rfl⟩ := hd
  refine ⟨m + 1, r, hr, fun more => ?_⟩
  rw [Nat.add_assoc, hwalk, Nat.add_comm 1 more]
  simp only [walk, hi]

/-- A conditional jump goes on as the next outcome says. -/
theorem choose {target : Nat} {yes no : List Bool → Path}
    (hd : ∃ i, code[start]? = some i ∧ (Draft.plain (.jumpIfFalse target)).Stands pool i)
    (hyes : ∀ rest, rest.length < outcomes.length →
      Follows code pool (start + 1) stop rest (yes rest))
    (hno : ∀ rest, Follows code pool target stop rest (no rest)) :
    Follows code pool start stop outcomes (.choose yes no outcomes) := by
  obtain ⟨i, hi, rfl⟩ := hd
  match outcomes with
  | [] =>
    refine ⟨1, [], .nil, fun more => ?_⟩
    rw [Nat.add_comm]
    simp only [walk, hi]
    rfl
  | true :: rest =>
    obtain ⟨m, r, hr, hwalk⟩ := hyes rest (Nat.lt_succ_self _)
    refine ⟨m + 1, r, hr, fun more => ?_⟩
    rw [Nat.add_right_comm]
    simp only [walk, hi]
    exact hwalk more
  | false :: rest =>
    obtain ⟨m, r, hr, hwalk⟩ := hno rest
    refine ⟨m + 1, r, hr, fun more => ?_⟩
    rw [Nat.add_right_comm]
    simp only [walk, hi]
    exact hwalk more

/-- Code in two parts, of which the first one is followed. -/
theorem append {base : Nat} {ds es : List Draft} {p : Path} {next : List Bool → Path}
    (h : Placed code pool base (ds ++ es))
    (hp : Placed code pool base ds → Follows code pool base (base + ds.length) outcomes p)
    (hnext : Placed code pool (base + ds.length) es →
      Follows code pool (base + ds.length) (base + ds.length + es.length) p.left (next p.left)) :
    Follows code pool base (base + (ds ++ es).length) outcomes (p.andThen next) := by
  rw [placed_append] at h
  rw [List.length_append, ← Nat.add_assoc]
  exact (hp h.1).andThen (hnext h.2)

/-- One more instruction behind code that is followed. -/
theorem snoc {base : Nat} {ds : List Draft} {d : Draft} {p : Path}
    (h : Placed code pool base (ds ++ [d]))
    (hp : Placed code pool base ds → Follows code pool base (base + ds.length) outcomes p)
    (hd : d.Passes) :
    Follows code pool base (base + (ds ++ [d]).length) outcomes (p.andThen (.record d)) :=
  append h hp fun hlast => .record hlast.1 hd _

end Follows

mutual

/-- Wherever the draft of a node stands, walks follow its path and go on behind it. -/
theorem follows_path {code : List Instruction} {pool : ConstantPool} (base : Nat) :
    ∀ (node : Node) (outcomes : List Bool), Placed code pool base (draft base node) →
      Follows code pool base (base + (draft base node).length) outcomes (path node outcomes)
  | .number x, outcomes, h => .record h.1 trivial outcomes
  | .string s, outcomes, h => .record h.1 trivial outcomes
  | .identifier name, outcomes, h => .record h.1 trivial outcomes
  | .binary op left right, outcomes, h =>
    .snoc h (fun hparts => .append hparts (follows_path base left outcomes)
      (follows_path _ right (path left outcomes).left)) trivial
  | .unary op operand, outcomes, h => .snoc h (follows_path base operand outcomes) trivial
  | .assign name value, outcomes, h => .snoc h (follows_path base value outcomes) trivial
  | .call name arguments, outcomes, h => .snoc h (follows_pathAll base arguments outcomes) trivial
  | .define _ _ _, outcomes, _ => .nothing outcomes
  | .branch condition thenBody none, outcomes, h => by
    simp only [draft, placed_append, Placed] at h
    obtain ⟨⟨htest, hskip, hthen⟩, hjump, -⟩ := h
    -- both outcomes lead behind the jump that ends the body
    have hstop : base + (draft base (.branch condition thenBody none)).length
        = base + (draft base condition).length + 1
          + (draftAll (base + (draft base condition).length + 1) thenBody).length + 1 := by
      simp [draft]
      omega
    rw [hstop]
    rw [add_length_append_cons] at hjump
    exact (follows_path base condition outcomes htest).andThen
      (.choose hskip (fun rest _ => (follows_pathAll _ thenBody rest hthen).andJump hjump)
        .nothing)
  | .branch condition thenBody (some elseBody), outcomes, h => by
    simp only [draft, placed_append, Placed] at h
    obtain ⟨⟨htest, hskip, hthen⟩, hjump, helse⟩ := h
    rw [add_length_append_cons] at hjump helse
    have hstop : base + (draft base (.branch condition thenBody (some elseBody))).length
        = base + (draft base condition).length + 1
          + (draftAll (base + (draft base condition).length + 1) thenBody).length + 1
          + (draftAll (base + (draft base condition).length + 1
            + (draftAll (base + (draft base condition).length + 1) thenBody).length + 1)
              elseBody).length := by
      simp [draft]
      omega
    rw [hstop]
    exact (follows_path base condition outcomes htest).andThen
      (.choose hskip (fun rest _ => (follows_pathAll _ thenBody rest hthen).andJump hjump)
        (fun rest => follows_pathAll _ elseBody rest helse))
  | .loop condition body, outcomes, h => by
    simp only [draft, placed_append, Placed] at h
    obtain ⟨⟨htest, hskip, hbody⟩, hjump, -⟩ := h
    rw [add_length_append_cons] at hjump
    have hstop : base + (draft base (.loop condition body)).length
        = base + (draft base condition).length + 1
          + (draftAll (base + (draft base condition).length + 1) body).length + 1 := by
      simp [draft]
      omega
    rw [hstop]
    -- every round takes an outcome, and the jump back starts the next one
    induction hn : outcomes.length using Nat.strong_induction_on generalizing outcomes with
    | h n ih =>
      rw [path_loop]
      refine (follows_path base condition outcomes htest).andThen
        (.choose hskip (fun rest hrest => ?_) .nothing)
      have hshort := shrinks_path condition outcomes
      have hleft := shrinks_pathAll body rest
      exact ((follows_pathAll _ body rest hbody).andJump hjump).andThen
        (ih _ (by omega) (pathAll body rest).left rfl)
  | .ret none, outcomes, h => (Follows.record h.1 trivial outcomes).andThen (.leave h.2.1 _)
  | .ret (some value), outcomes, h =>
    .append h (follows_path base value outcomes) fun hlast => .leave hlast.1 _
  | .print value, outcomes, h => .snoc h (follows_path base value outcomes) trivial

theorem follows_pathAll {code : List Instruction} {pool : ConstantPool} (base : Nat) :
    ∀ (nodes : List Node) (outcomes : List Bool), Placed code pool base (draftAll base nodes) →
      Follows code pool base (base + (draftAll base nodes).length) outcomes
        (pathAll nodes outcomes)
  | [], outcomes, _ => .nothing outcomes
  | node :: nodes, outcomes, h =>
    .append h (follows_path base node outcomes) (follows_pathAll _ nodes _)

end

/-! ### The code of units -/

/-- Walks over code run what nodes prescribe: under all outcomes they end as prescribed once they
take enough steps, and until then they have run a first part of what is prescribed. -/
def Runs (code : List Instruction) (pool : ConstantPool) (nodes : List Node) : Prop :=
  ∀ outcomes, ∃ recorded steps,
    List.Forall₂ (Draft.Stands pool) (pathAll nodes outcomes).recorded recorded ∧
    (∀ n, steps ≤ n →
      walk code n 0 outcomes = ⟨recorded, some (pathAll nodes outcomes).ending⟩) ∧
    ∀ n, (walk code n 0 outcomes).recorded <+: recorded

theorem recorded_walk_prefix (code : List Instruction) (n m : Nat) :
    ∀ (position : Nat) (outcomes : List Bool),
      (walk code n position outcomes).recorded
        <+: (walk code (n + m) position outcomes).recorded := by
  induction n with
  | zero => exact fun _ _ => List.nil_prefix
  | succ n ih =>
    intro position outcomes
    rw [Nat.add_right_comm]
    unfold walk
    split
    · exact List.prefix_rfl
    · exact ih _ _
    · exact List.prefix_rfl
    · exact ih _ _
    · exact ih _ _
    · exact List.prefix_rfl
    · exact List.prefix_append_right_inj _ |>.mpr (ih _ _)

/-- Code that stands for the draft of nodes runs what they prescribe. -/
theorem runs_of_stands {code : List Instruction} {pool : ConstantPool} {nodes : List Node}
    (h : List.Forall₂ (Draft.Stands pool) (draftAll 0 nodes) code) : Runs code pool nodes := by
  intro outcomes
  have hplaced : Placed code pool 0 (draftAll 0 nodes) := placed_of_stands h []
  obtain ⟨steps, recorded, hrecorded, hwalk⟩ := follows_pathAll 0 nodes outcomes hplaced
  rw [Nat.zero_add, h.length_eq] at hwalk
  -- one more step sees that the code has come to its end
  have hend : ∀ n, steps + 1 ≤ n →
      walk code n 0 outcomes = ⟨recorded, some (pathAll nodes outcomes).ending⟩ := by
    intro n hn
    obtain ⟨more, rfl⟩ := Nat.exists_eq_add_of_le hn
    rw [Nat.add_assoc, Nat.add_comm 1 more, hwalk]
    split
    · next he =>
      rw [he]
      simp [walk, Trace.after]
    · rfl
  -- a shorter walk is the beginning of one that has ended
  refine ⟨recorded, steps + 1, hrecorded, hend, fun n => ?_⟩
  have hprefix := recorded_walk_prefix code n (steps + 1) 0 outcomes
  rwa [hend _ (Nat.le_add_left _ _)] at hprefix

/-- The code of a unit runs what its program prescribes, and that of each of its functions runs what
the body prescribes that its name has in the end. -/
theorem compile_runs (name : String) (program : Program) :
    Runs (compile name program).code (compile name program).constants program ∧
      List.Forall₂ (fun b f => b.1 = f.1 ∧ Runs f.2.code f.2.constants b.2)
        (bodies program).entries (compile name program).functions.entries := by
  constructor
  · rw [compile_eq]
    exact runs_of_stands (stands_settle _ [])
  · rw [functions_compile, Table.mapValues, List.forall₂_map_right_iff, List.forall₂_same]
    intro b _
    rw [compileBody_eq]
    exact ⟨rfl, runs_of_stands (stands_settle _ [])⟩

end StackScript
