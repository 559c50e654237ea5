import StackScript.Proofs.Comparison

/-!
The limit for the depth of calls.

A limit does nothing to a run but stop it, and it stops it at the first call that would go deeper.
How deep a run goes is in its log, where each call that is entered has left a notice. The same
program under another limit either does the same, if the run has not gone deeper than that limit, or
stops at the call with which the run does so, having printed what the run has printed until then.

* `Notice.entered`, `Machine.reached`: the depths that calls have entered since a run started;
* `depth_of_checkDepth`: the body of a call runs at the depth that its notice tells;
* `underLimits`, `lockstep_underLimits`: the run under one limit and under another;
* `interpret_callLimit`: what a program does under all other limits.
-/

namespace StackScript

/-! ### Depths in the log -/

/-- The depth at which the body of the called function runs. -/
def Notice.entered : Notice → Nat
  | calling _ _ depth => depth + 1
  | _ => 0

/-- The largest depth that the calls of a log have entered. -/
def deepest (notices : List Notice) : Nat :=
  (notices.map Notice.entered).foldr max 0

theorem deepest_append (notices more : List Notice) :
    deepest (notices ++ more) = max (deepest notices) (deepest more) := by
  induction notices with
  | nil => exact (Nat.zero_max _).symm
  | cons n notices ih =>
    have hcons : ∀ rest, deepest (n :: rest) = max n.entered (deepest rest) := fun _ => rfl
    rw [List.cons_append, hcons, hcons, ih, Nat.max_assoc]

/-- The largest depth of calls that a run has come to which started in the machine `start`. -/
def Machine.reached (start m : Machine) : Nat :=
  deepest (m.notices.toList.drop start.notices.size)

theorem Machine.reached_self (m : Machine) : m.reached m = 0 := by
  have hnone : m.notices.toList.drop m.notices.size = [] :=
    List.drop_eq_nil_of_le (Nat.le_of_eq Array.length_toList)
  rw [reached, hnone]
  rfl

/-- What is added to the log of a run adds its depths. -/
theorem Machine.reached_append {start m m' : Machine} {more : List Notice}
    (hstart : start.notices.toList <+: m.notices.toList)
    (hmore : m'.notices.toList = m.notices.toList ++ more) :
    start.reached m' = max (start.reached m) (deepest more) := by
  have hle : start.notices.size ≤ m.notices.toList.length := by
    rw [← Array.length_toList]
    exact hstart.length_le
  rw [reached, hmore, List.drop_append_of_le_length hle, deepest_append, reached]

/-- A call that is entered leaves a notice of the depth at which its body runs. -/
theorem depth_of_checkDepth {limit arity : Nat} {name : String} {m s : Machine} (scope : Scope)
    (h : Machine.checkDepth limit name arity m = .ok () s) :
    ∃ n : Notice, s.notices = m.notices.push n ∧
      n.entered = (s.environment.push scope).depth ∧ n.entered ≤ limit := by
  simp only [Machine.checkDepth, bind_apply, Machine.depth] at h
  by_cases hd : limit ≤ m.environment.depth
  · rw [if_pos hd] at h
    cases h
  · rw [if_neg hd] at h
    obtain ⟨-, rfl⟩ := EStateM.Result.ok.inj h
    exact ⟨_, rfl, rfl, Nat.lt_of_not_le hd⟩

/-! ### Two limits -/

/-- A run under one limit and the same run under another. Both are alike as long as no call has gone
deeper than the other limit; then the second run is stopped. -/
def underLimits (start : Machine) (limit other : Nat) : Comparison where
  alike m m' := m' = m ∧ start.notices.toList <+: m.notices.toList ∧ start.reached m ≤ other
  stop := .failed (.callDepthExceeded other)
  apart m m' := start.notices.toList <+: m.notices.toList ∧ other < start.reached m ∧
    ∃ text, m.sink.written = m'.sink.written ++ text
  excused e := e = .failed (.callDepthExceeded limit)

theorem lockstep_underLimits (start : Machine) (limit other : Nat) :
    (underLimits start limit other).Lockstep limit other where
  find? := by
    rintro m m' ⟨rfl, -⟩ name
    rfl
  assign := by
    rintro m m' ⟨rfl, hlog⟩ name value
    exact ⟨rfl, hlog⟩
  newFunction := by
    rintro m m' ⟨rfl, hlog⟩ definition
    exact .value _ ⟨rfl, hlog⟩
  printLine := by
    rintro m m' ⟨rfl, hlog⟩ text
    rw [Machine.printLine]
    split
    · exact .value () ⟨rfl, hlog⟩
    · exact .interrupt _ ⟨rfl, hlog⟩
  checkDepth := by
    rintro m m' ⟨rfl, hlog, hreached⟩ name arity
    simp only [Machine.checkDepth, bind_apply, Machine.depth]
    let n : Notice := .calling name arity m'.environment.depth
    let noticed : Machine := { m' with notices := m'.notices.push n }
    have hpush : noticed.notices.toList = m'.notices.toList ++ [n] := Array.toList_push
    have hlog' : start.notices.toList <+: noticed.notices.toList := by
      rw [hpush]
      exact hlog.trans (List.prefix_append _ _)
    have hdeeper : start.reached noticed
        = max (start.reached m') (m'.environment.depth + 1) :=
      Machine.reached_append hlog hpush
    -- the two limits are compared with the depth one after the other
    by_cases hlimit : limit ≤ m'.environment.depth
    · rw [if_pos hlimit]
      exact .excused rfl
    rw [if_neg hlimit]
    by_cases hother : other ≤ m'.environment.depth
    · -- the call goes deeper than the other limit
      rw [if_pos hother]
      refine .stopped ⟨hlog', ?_, m'.written_self⟩
      show other < start.reached noticed
      omega
    · rw [if_neg hother]
      refine .value () ⟨rfl, hlog', ?_⟩
      show start.reached noticed ≤ other
      omega
  push := by
    rintro m m' ⟨rfl, hlog⟩ scope
    exact ⟨rfl, hlog⟩
  leave := by
    rintro m m' s s' - ⟨rfl, hlog⟩ - -
    exact ⟨rfl, hlog⟩
  apart_grows := by
    rintro s s' t ⟨hlog, hreached, text, htext⟩ hgrows
    obtain ⟨more, hmore⟩ := hgrows.notices
    obtain ⟨added, hadded⟩ := hgrows.written
    refine ⟨hlog.trans hgrows.notices, ?_, text ++ added, ?_⟩
    · rw [Machine.reached_append hlog hmore.symm]
      omega
    · rw [hadded, htext, String.append_assoc]
  apart_leave h := h

/-- Either the second run is the first one, or it was stopped where the first one went deeper. -/
theorem outcome_underLimits {α : Type} {start : Machine} {limit other : Nat}
    {r r' : EStateM.Result Interrupt Machine α}
    (h : (underLimits start limit other).Outcome r r')
    (hend : error? r ≠ some (.failed (.callDepthExceeded limit))) :
    (start.reached (stateAfter r) ≤ other ∧ r' = r) ∨
      (other < start.reached (stateAfter r) ∧ ∃ s,
        r' = .error (.failed (.callDepthExceeded other)) s ∧
        ∃ rest, (stateAfter r).sink.written = s.sink.written ++ rest) := by
  cases h with
  | value a hs =>
    obtain ⟨rfl, -, hreached⟩ := hs
    exact .inl ⟨hreached, rfl⟩
  | interrupt e hs =>
    obtain ⟨rfl, -, hreached⟩ := hs
    exact .inl ⟨hreached, rfl⟩
  | stopped hs =>
    obtain ⟨-, hreached, hwritten⟩ := hs
    exact .inr ⟨hreached, _, rfl, hwritten⟩
  | excused he =>
    obtain rfl : _ = Interrupt.failed (.callDepthExceeded limit) := he
    exact absurd rfl hend

/-- A run that its limit has not stopped goes the same way under every limit that is at least as
large as the depth it has reached. Under a smaller limit it is stopped by that limit, outside all
calls, with the first part of its output. -/
theorem interpret_callLimit {limit fuel : Nat} {program : Program} {m : Machine}
    {full : EStateM.Result Interrupt Machine Value} (hstart : m.environment.calls = [])
    (hfull : interpret limit fuel program m = full)
    (hend : error? full ≠ some (.failed (.callDepthExceeded limit))) :
    (∀ other, m.reached (stateAfter full) ≤ other → interpret other fuel program m = full) ∧
      ∀ other, other < m.reached (stateAfter full) → ∃ s,
        interpret other fuel program m = .error (.failed (.callDepthExceeded other)) s ∧
        s.environment.calls = [] ∧
        ∃ rest, (stateAfter full).sink.written = s.sink.written ++ rest := by
  have hcases (other : Nat) : (m.reached (stateAfter full) ≤ other ∧
        interpret other fuel program m = full) ∨
      (other < m.reached (stateAfter full) ∧ ∃ s,
        interpret other fuel program m = .error (.failed (.callDepthExceeded other)) s ∧
        ∃ rest, (stateAfter full).sink.written = s.sink.written ++ rest) := by
    have hself : m.reached m ≤ other := by
      rw [m.reached_self]
      exact Nat.zero_le other
    have hruns := (lockstep_underLimits m limit other).interpret fuel program
    have houtcome := hruns.outcome m m ⟨rfl, List.prefix_rfl, hself⟩
    rw [hfull] at houtcome
    exact outcome_underLimits houtcome hend
  refine ⟨fun other hother => ?_, fun other hother => ?_⟩
  · obtain ⟨-, hsame⟩ | ⟨hdeeper, -⟩ := hcases other
    · exact hsame
    · exact absurd hother (Nat.not_le_of_lt hdeeper)
  · obtain ⟨hreached, -⟩ | ⟨-, s, hs, hwritten⟩ := hcases other
    · exact absurd hother (Nat.not_lt_of_le hreached)
    · -- whatever stops a run, it has left the calls that it entered
      have hkeeps := discipline_keeps.interpret other fuel program m
      rw [hs] at hkeeps
      have hdepth : s.environment.calls.length = 0 := by
        have hlength : s.environment.calls.length = m.environment.calls.length := hkeeps.depth
        rw [hlength, hstart]
        rfl
      exact ⟨s, hs, List.eq_nil_of_length_eq_zero hdepth, hwritten⟩

/-- The function `f` prints and calls `g`, which is also called for the argument of `f`; behind that
the program fails. -/
theorem interpret_callLimit_of_nested :
    let program : Program := [.define "g" ["x"] [.print (.identifier "x"), .ret none],
      .define "f" ["x"] [.print (.string "f"), .call "g" [.identifier "x"]],
      .call "f" [.call "g" [.string "s"]], .identifier "y"]
    ∃ full, interpret 200 10 program {} = full ∧
      error? full = some (.failed (.undefinedVariable "y")) ∧
      Machine.reached {} (stateAfter full) = 2 ∧
      (∀ other, 2 ≤ other → interpret other 10 program {} = full) ∧
      ∀ other, other < 2 → ∃ s,
        interpret other 10 program {} = .error (.failed (.callDepthExceeded other)) s ∧
        s.environment.calls = [] ∧
        ∃ rest, (stateAfter full).sink.written = s.sink.written ++ rest := by
  intro program
  obtain ⟨full, hfull⟩ : ∃ full, interpret 200 10 program {} = full := ⟨_, rfl⟩
  have herror : error? full = some (.failed (.undefinedVariable "y")) := by
    rw [← hfull]
    decide +kernel
  have hend : error? full ≠ some (.failed (.callDepthExceeded 200)) := by
    rw [herror]
    decide
  have hdepth : Machine.reached {} (stateAfter full) = 2 := by
    rw [← hfull]
    decide +kernel
  have hlimits := interpret_callLimit rfl hfull hend
  rw [hdepth] at hlimits
  exact ⟨full, hfull, herror, hdepth, hlimits⟩

end StackScript
